import RichText.Html.Printer
import RichText.Proofs.Pass.Invariant
import RichText.Proofs.Tree.Planted

/-!
Copies of a node of another tree.

The nodes of a copy take the next numbers in document order, which fixes the number of each: that a forest was copied
therefore says where each of its nodes went, and that the links and the contents of the copies are those of the nodes
that were copied. Names are stored anew. Whether a name has a prefix is told by symbol 0, which stands for the empty
string in every reachable tree, and alone does so.
-/

namespace RichText

open Effects
open Relation (ReflTransGen)

/-! ### Forests of one shape -/

namespace Forest

variable {α β γ : Type} {k k' : Nat → List Nat}

@[simp] theorem size_map (g : α → β) (f : Forest α) : (f.map g).size = f.size := by
  rw [← length_toList, toList_map, List.length_map, length_toList]

/-- A forest of the same shape is known by its labels in document order. -/
theorem eq_map_of_toList {f : Forest α} {g : Forest β} {φ : α → γ} {ψ : β → γ} {place : α → β}
    (hm : g.map ψ = f.map φ) (hl : g.toList = f.toList.map place) : g = f.map place := by
  induction f generalizing g with
  | nil =>
    cases g with
    | nil => rfl
    | node => cases hm
  | node label below rest ihb ihr =>
    cases g with
    | nil => cases hm
    | node label' below' rest' =>
      obtain ⟨-, hb, hr⟩ := Forest.node.inj hm
      have hsize : below'.toList.length = (below.toList.map place).length := by
        rw [length_toList, List.length_map, length_toList, ← size_map ψ, hb, size_map]
      rw [toList, toList, List.map_cons, List.map_append] at hl
      obtain ⟨hlabel, hlist⟩ := List.cons.inj hl
      obtain ⟨hbelow, hrest⟩ := List.append_inj hlist hsize
      rw [map, hlabel, ihb hb hbelow, ihr hr hrest]

/-- What two functions make of a forest tells what they make of its labels. -/
theorem eq_of_map_eq {f : Forest α} {φ : α → γ} {ψ : β → γ} {place : α → β} (h : (f.map place).map ψ = f.map φ)
    {x : α} (hx : x ∈ f.toList) : ψ (place x) = φ x := by
  have hlist := congrArg toList h
  rw [toList_map, toList_map, toList_map, List.map_map] at hlist
  exact List.map_inj_left.1 hlist x hx

/-- Forests of the same shape that fit two tables have the same child lists. -/
theorem Fits.kids_map {f : Forest Nat} {place : Nat → Nat} (h : f.Fits k) (h' : (f.map place).Fits k') {x : Nat}
    (hx : x ∈ f.toList) : k' (place x) = (k x).map place := by
  induction f with
  | nil => exact absurd hx List.not_mem_nil
  | node label below rest ihb ihr =>
    obtain ⟨hl, hb, hr⟩ := h
    obtain ⟨hl', hb', hr'⟩ := h'
    rcases List.mem_cons.1 hx with rfl | hx
    · rw [← hl', ← hl, roots_map]
    rcases List.mem_append.1 hx with hx | hx
    · exact ihb hb hb' hx
    · exact ihr hr hr' hx

end Forest

/-- Numbers that are given out in the order of a list follow on each other. -/
theorem map_idxOf {l : List Nat} (h : l.Nodup) (base : Nat) :
    l.map (fun x => base + l.idxOf x) = List.range' base l.length := by
  refine List.ext_getElem (by simp) fun i hi _ => ?_
  rw [List.getElem_map, List.getElem_range', h.idxOf_getElem, Nat.one_mul]

/-! ### Qualified names -/

/-- The names of a node: that of an element, and those of its attributes. -/
def NodeData.names {σ : Type} : NodeData σ → List (QualifiedName σ)
  | element name attributes => name :: attributes.map Attribute.name
  | _ => []

theorem NodeData.names_map {σ τ : Type} (g : σ → τ) (data : NodeData σ) :
    (data.map g).names = data.names.map (QualifiedName.map g) := by
  cases data with
  | element name attributes => simp [map, names]
  | _ => rfl

theorem NodeData.mem_parts {σ : Type} {data : NodeData σ} {name : QualifiedName σ} (hn : name ∈ data.names) {s : σ}
    (hs : s ∈ name.parts) : s ∈ data.parts := by
  cases data with
  | element own attributes =>
    rcases List.mem_cons.1 hn with rfl | hn
    · exact List.mem_append_left _ hs
    · obtain ⟨a, ha, rfl⟩ := List.mem_map.1 hn
      exact List.mem_append_right _ (List.mem_flatMap.2 ⟨a, ha, hs⟩)
  | _ => cases hn

/-- The written form of a stored name, which has a prefix unless the symbol of the prefix is 0. -/
def SymbolTable.qualified (table : SymbolTable) (name : QualifiedName Symbol) : String :=
  if name.nsPrefix = 0 then table.resolve name.localPart
  else table.resolve name.nsPrefix ++ ":" ++ table.resolve name.localPart

/-- Testing the symbol of the prefix is testing the prefix. -/
theorem SymbolTable.Sound.qualified_eq {table : SymbolTable} (h : table.Sound) {name : QualifiedName Symbol}
    (hs : ∀ s ∈ name.parts, s < table.size) : table.qualified name = (table.resolveName name).written := by
  have hempty := h.resolve_eq_empty_iff (hs name.nsPrefix (by simp [QualifiedName.parts]))
  simp only [qualified, QualifiedName.written, resolveName, QualifiedName.map, hempty]

namespace Tree

variable {source t u : Tree} {n : Nat}

theorem Indexed.sound (h : t.Indexed) : t.symbols.Sound := ⟨h.blank, h.distinct⟩

/-- The written names of a node, as its symbols give them. -/
def qualifiedNames (t : Tree) (r : Ref) : List String :=
  ((t.data? r).map fun data => data.names.map t.symbols.qualified).getD []

/-- The written names of a node are those of its content. -/
theorem Indexed.qualifiedNames_eq (h : t.Indexed) (r : Ref) :
    t.qualifiedNames r = ((t.content? r).map fun content => content.names.map QualifiedName.written).getD [] := by
  rw [qualifiedNames, content?]
  cases hd : t.data? r with
  | none => rfl
  | some data =>
    have hname : ∀ name ∈ data.names, t.symbols.qualified name = (name.map t.symbols.resolve).written := fun name hn =>
      h.sound.qualified_eq fun s hs => h.parts_data hd s (NodeData.mem_parts hn hs)
    simp only [Option.map_some, Option.getD_some, NodeData.names_map, List.map_map]
    exact List.map_congr_left hname

/-! ### What a copy leaves alone -/

/-- From `t` to `u` strings were stored and nodes added, and no other data changed. -/
structure Grows (t u : Tree) : Prop where
  symbols : t.symbols.Extends u.symbols
  size : t.size ≤ u.size
  data : ∀ {x}, x < t.size → u.data? (some x) = t.data? (some x)

/-- Copying stores strings, adds nodes and appends them. -/
theorem grows_copyFrom (source t : Tree) (r : Ref) : t.Grows (Edit.copyFrom source r t).2 := by
  have hstore : WritableAt t.Grows none :=
    ⟨fun {u} s h => ⟨h.symbols.trans (u.symbols.intern_spec s).1, h.size, h.data⟩, fun _ h => h⟩
  have hpush : ∀ {u : Tree} (data : NodeData Symbol), t.Grows u → t.Grows (u.push data).2 := by
    intro u data h
    refine ⟨h.symbols, ?_, fun {x} hx => ?_⟩
    · rw [size_push]
      exact h.size.trans (Nat.le_succ _)
    · rw [data?_push, if_neg (hx.trans_le h.size).ne, h.data hx]
  have hinsert : ∀ {u v : Tree} {parent child : Ref} {reference : Option Ref},
      u.insertBefore parent child reference = .ok v → t.Grows u → t.Grows v := by
    intro u v parent child reference hv h
    have hs := sameData_of_insertBefore hv
    exact ⟨hs.symbols ▸ h.symbols, hs.size ▸ h.size, fun hx => (hs.data _).trans (h.data hx)⟩
  exact preserves_copyFrom (preserves_copy hstore hpush) hinsert source r t ⟨.refl _, Nat.le_refl _, fun _ => rfl⟩

/-- A node is its data and its five links. -/
theorem node?_congr {x : Nat} (hd : u.data? (some x) = t.data? (some x)) (hp : u.parent (some x) = t.parent (some x))
    (hs : u.prevSibling (some x) = t.prevSibling (some x) ∧ u.nextSibling (some x) = t.nextSibling (some x))
    (hc : u.firstChild (some x) = t.firstChild (some x) ∧ u.lastChild (some x) = t.lastChild (some x)) :
    u.node? (some x) = t.node? (some x) := by
  cases hu : u.node? (some x) with
  | none =>
    cases ht : t.node? (some x) with
    | none => rfl
    | some m => simp [data?, hu, ht] at hd
  | some m' =>
    cases ht : t.node? (some x) with
    | none => simp [data?, hu, ht] at hd
    | some m =>
      obtain ⟨⟩ := m
      obtain ⟨⟩ := m'
      simp_all [data?, parent, prevSibling, nextSibling, firstChild, lastChild]

/-! ### The copy -/

/-- A node with what is below it. -/
def subtree (t : Tree) (n : Nat) : Forest Nat := .node n (t.below (some n)) .nil

/-- The number of the copy of `x` among the copies of what is in the subtree of `n`, which are numbered from `base` on
in document order. -/
def copyAt (source : Tree) (n base x : Nat) : Nat := base + (source.subtree n).toList.idxOf x

theorem Linked.fits_subtree (h : t.Linked) (n : Nat) : (t.subtree n).Fits t.kids :=
  ⟨(h.below_spec n).1, (h.below_spec n).2, trivial⟩

/-- The nodes of a subtree are its root and all that is below it. -/
theorem Linked.mem_subtree_iff (h : t.Linked) {x : Nat} :
    x ∈ (t.subtree n).toList ↔ ReflTransGen (Child t.kids) n x := by
  rw [mem_toList_iff (h.fits_subtree n)]
  simp [subtree, Forest.roots]

theorem Linked.lt_of_mem_subtree (h : t.Linked) (hn : n < t.size) {x : Nat} (hx : x ∈ (t.subtree n).toList) :
    x < t.size := by
  rcases (h.mem_subtree_iff.1 hx).cases_tail with rfl | ⟨_, _, hc⟩
  · exact hn
  · exact h.child_lt hc

theorem Linked.nodup_subtree (h : t.Linked) (n : Nat) : (t.subtree n).toList.Nodup := by
  obtain ⟨hroots, hfits⟩ := h.below_spec n
  have hnot : n ∉ (t.below (some n)).toList := by
    intro hm
    obtain ⟨c, hc, hcn⟩ := below_of_mem_toList hfits hm
    rw [hroots] at hc
    exact h.acyclic n (.head' hc hcn)
  rw [subtree, Forest.toList, Forest.toList, List.append_nil]
  exact List.nodup_cons.2 ⟨hnot, h.nodup_toList hfits (fun _ hc => hroots ▸ hc) (hroots ▸ h.nodup n)⟩

theorem branch_eq_map {n : Nat} (hn : n < t.size) : t.branch (some n) = (t.subtree n).map t.contentOf := by
  rw [branch, content_of_lt hn]
  rfl

/-- From `t` to `u` the subtree of the node `n` of another tree was copied, and nothing else happened. -/
structure Copies (source : Tree) (n : Nat) (t u : Tree) : Prop where
  /-- The copies take the next numbers in document order. -/
  order : (source.subtree n).toList.map (source.copyAt n t.size) = List.range' t.size (source.subtree n).size
  size : u.size = t.size + (source.subtree n).size
  linked : u.Linked
  detached : u.parent (some t.size) = none
  /-- The children of a copy are the copies of the children, in the same order. -/
  kids : ∀ x ∈ (source.subtree n).toList,
    u.kids (source.copyAt n t.size x) = (source.kids x).map (source.copyAt n t.size)
  /-- A copy is of the same kind and has the same data, with all names in the same namespaces, and with the same
  prefixes and local parts. -/
  content : ∀ x ∈ (source.subtree n).toList,
    u.content? (some (source.copyAt n t.size x)) = source.content? (some x)
  /-- The names are written alike where the symbols tell which of them have a prefix. -/
  names : ∀ x ∈ (source.subtree n).toList,
    u.qualifiedNames (some (source.copyAt n t.size x)) = source.qualifiedNames (some x)
  interned : u.Interned
  /-- The former nodes keep their links and their data. -/
  former : ∀ x < t.size, u.node? (some x) = t.node? (some x) ∧ u.content? (some x) = t.content? (some x)
  /-- The former symbols stand for the strings that they stood for. -/
  symbols : t.symbols.Extends u.symbols

/-- Numbers for the copies are numbers of nodes of the target. -/
theorem Linked.map_copyAt (h : source.Linked) (n base : Nat) :
    (source.subtree n).toList.map (source.copyAt n base) = List.range' base (source.subtree n).size := by
  rw [← Forest.length_toList]
  exact map_idxOf (h.nodup_subtree n) base

/-- The node `n` of another tree was copied, which led from `t` to `v`, and what is below it was planted below the copy,
which led to `u`. -/
structure Grafted (source : Tree) (n : Nat) (t v u : Tree) : Prop where
  root : v.content? (some t.size) = source.content? (some n)
  kids : v.kids = t.kids
  size : v.size = t.size + 1
  retains : Retains t.size t v
  planted : Planted t.size (source.contentBelow (some n)) v u

theorem Linked.copyFrom (hl : t.Linked) (hs : t.Stored) (hn : n < source.size) :
    ∃ v u, Edit.copyFrom source (some n) t = (.ok t.size, u) ∧ Grafted source n t v u := by
  have hc := content_of_lt hn
  obtain ⟨v, hv, hvl, hvk, hvz, hvr, hvc⟩ := hl.copy hs (source.contentOf n)
  have hlt : t.size < v.size := hvz ▸ Nat.lt_succ_self _
  obtain ⟨u, hu, hplanted⟩ := hvl.plant hvr.stored hlt (source.contentBelow (some n))
  refine ⟨v, u, ?_, hvc.trans hc.symm, hvk, hvz, hvr, hplanted⟩
  simp only [Edit.copyFrom, hc, bind_ok hv, bind_ok hu]
  rfl

namespace Grafted

variable {v : Tree} {x q : Nat} (h : Grafted source n t v u)
include h

/-- Nothing stands below the copy until it is planted there. -/
theorem kids_nil (hl : t.Linked) : v.kids t.size = [] := by
  rw [h.kids, hl.links.eq_nil_of_le (Nat.le_refl _)]

theorem content_root : u.content? (some t.size) = source.content? (some n) :=
  (h.planted.retains.content (h.size ▸ Nat.lt_succ_self _)).trans h.root

theorem size_eq : u.size = t.size + (source.subtree n).size := by
  simp only [h.planted.size, h.size, contentBelow, Forest.size_map, subtree, Forest.size]
  omega

/-- No list of a former node changed. -/
theorem kids_eq (hx : x < t.size) : u.kids x = t.kids x := by
  have hlt : x < v.size := h.size ▸ Nat.lt_succ_of_lt hx
  rw [h.planted.kids hlt hx.ne, h.kids]

/-- Neither the copy nor any former node was put into a list. -/
theorem stood (hq : x ∈ u.kids q) (hx : x ≤ t.size) : x ∈ t.kids q :=
  h.kids ▸ h.planted.stood hq (h.size ▸ Nat.lt_succ_of_le hx)

theorem detached (hl : t.Linked) : u.parent (some t.size) = none :=
  h.planted.linked.orphan_iff.2 fun _ hq => (hl.child_lt (h.stood hq (Nat.le_refl _))).ne rfl

/-- The copy with what was planted below it shows what the subtree shows. -/
theorem map_subtree (hl : t.Linked) : (u.subtree t.size).map u.contentOf = (source.subtree n).map source.contentOf := by
  have hroot : u.contentOf t.size = source.contentOf n := by rw [contentOf, contentOf, h.content_root]
  rw [subtree, subtree, Forest.map, Forest.map, hroot]
  exact congrArg (Forest.node _ · _) (h.planted.below (h.kids_nil hl)).1

/-- The copy with what was planted below it is the subtree under new numbers. -/
theorem subtree_eq (hl : t.Linked) (hsl : source.Linked) :
    u.subtree t.size = (source.subtree n).map (source.copyAt n t.size) := by
  refine Forest.eq_map_of_toList (h.map_subtree hl) ?_
  -- the copy of `n` comes first, and what was planted is numbered from the next number on
  rw [hsl.map_copyAt, subtree, Forest.toList, (h.planted.below (h.kids_nil hl)).2, h.size, contentBelow,
    Forest.size_map]
  simp only [subtree, Forest.toList, Forest.size, List.append_nil, Nat.add_zero, List.range'_succ]

theorem copyAt_lt (hsl : source.Linked) (hx : x ∈ (source.subtree n).toList) : source.copyAt n t.size x < u.size := by
  have hm : source.copyAt n t.size x ∈ (source.subtree n).toList.map (source.copyAt n t.size) := List.mem_map_of_mem hx
  rw [hsl.map_copyAt, List.mem_range'_1, ← h.size_eq] at hm
  exact hm.2

theorem content_eq (hl : t.Linked) (hsl : source.Linked) (hn : n < source.size) (hx : x ∈ (source.subtree n).toList) :
    u.content? (some (source.copyAt n t.size x)) = source.content? (some x) := by
  have hmap := h.map_subtree hl
  rw [h.subtree_eq hl hsl] at hmap
  rw [content_of_lt (h.copyAt_lt hsl hx), content_of_lt (hsl.lt_of_mem_subtree hn hx), Forest.eq_of_map_eq hmap hx]

/-- A former node keeps its links, and its data with them where these stay. -/
theorem node_eq (hl : t.Linked) (hd : u.data? (some x) = t.data? (some x)) (hx : x < t.size) :
    u.node? (some x) = t.node? (some x) := by
  obtain ⟨hparent, hsiblings⟩ := hl.neighbours_congr h.planted.linked (fun hq => h.kids_eq (hl.parent_lt hq))
    fun hq => ⟨_, h.stood hq hx.le⟩
  exact node?_congr hd hparent hsiblings (hl.ends_congr h.planted.linked (h.kids_eq hx))

theorem outerHtml_eq (hl : t.Linked) : u.outerHtml (some t.size) = source.outerHtml (some n) := by
  rw [outerHtml, outerHtml, branch, branch, h.content_root, (h.planted.below (h.kids_nil hl)).1]

end Grafted

/-- Copying a node of a tree that only uses names which it stores adds a copy of the subtree, and does nothing else. -/
theorem Linked.copies (hl : t.Linked) (ht : t.Indexed) (hsl : source.Linked) (hs : source.Indexed)
    (hn : n < source.size) :
    ∃ u, Edit.copyFrom source (some n) t = (.ok t.size, u) ∧ Copies source n t u ∧
      u.outerHtml (some t.size) = source.outerHtml (some n) := by
  obtain ⟨v, u, hu, h⟩ := hl.copyFrom ht.toStored hn
  have hgrows := grows_copyFrom source t (some n)
  have hsound := invariant_sound.copyFrom source (some n) t ⟨ht.blank, ht.distinct⟩
  rw [hu] at hgrows hsound
  have hindexed : u.Indexed := ⟨h.planted.retains.stored, hsound.distinct⟩
  have hcontent := fun x => h.content_eq hl hsl hn (x := x)
  have hcopies : Copies source n t u :=
    { order := hsl.map_copyAt n t.size
      size := h.size_eq
      linked := h.planted.linked
      detached := h.detached hl
      kids x hx := (hsl.fits_subtree n).kids_map (h.subtree_eq hl hsl ▸ h.planted.linked.fits_subtree t.size) hx
      content := hcontent
      names x hx := by rw [hindexed.qualifiedNames_eq, hs.qualifiedNames_eq, hcontent x hx]
      interned := hindexed.parts
      former x hx := ⟨h.node_eq hl (hgrows.data hx) hx,
        (h.planted.retains.content (h.size ▸ Nat.lt_succ_of_lt hx)).trans (h.retains.content hx)⟩
      symbols := hgrows.symbols }
  exact ⟨u, hu, hcopies, h.outerHtml_eq hl⟩

/-- Copying a node from one reachable tree into another one, each with names of which it stores all parts, adds a
detached copy of the subtree under the next numbers and changes nothing else; the copy reads in HTML as the node does.
An unknown node is refused, and the tree stays as it is. -/
theorem copyFrom_isomorphic (hs : source.Reachable) (hi : source.Interned) (ht : t.Reachable) (hti : t.Interned) :
    (∀ n < source.size, ∃ u, Edit.copyFrom source (some n) t = (.ok t.size, u) ∧ Copies source n t u ∧
        u.outerHtml (some t.size) = source.outerHtml (some n)) ∧
      ∀ r, source.node? r = none → Edit.copyFrom source r t = (.error (.notFound r), t) := by
  refine ⟨fun n hn => ?_, fun r hr => ?_⟩
  · exact ht.linked.copies (ht.indexed hti) hs.linked (hs.indexed hi) hn
  · have hc : source.content? r = none := by rw [content?, data?, hr]; rfl
    unfold Edit.copyFrom
    rw [hc]
    rfl

/-- A paragraph around a drawing whose name and attribute have prefixes. -/
def drawing : List Call :=
  [.createElement "" "p", .createElement Uri.svg "svg:g", .setAttributeNS (some 2) Uri.xlink "xlink:href" "#a",
    .create (.text "x"), .appendChild (some 1) (some 2), .appendChild (some 2) (some 3)]

theorem copyFrom_drawing :
    let source := drawing.foldl (fun t call => call.after t) .empty
    let t := history.foldl (fun t call => call.after t) .empty
    source.Interned ∧ t.Interned ∧ ∃ u, Edit.copyFrom source (some 1) t = (.ok t.size, u) ∧ Copies source 1 t u ∧
      u.outerHtml (some t.size) = source.outerHtml (some 1) := by
  intro source t
  have hs : source.Interned := by decide +kernel
  have ht : t.Interned := by decide +kernel
  have hcopy := copyFrom_isomorphic (Reachable.empty.calls drawing) hs (Reachable.empty.calls history) ht
  exact ⟨hs, ht, hcopy.1 1 (by decide +kernel)⟩

end Tree

end RichText
