import RichText.Proofs.Tree.Contents

/-!
Copying a forest into a tree.

A copied node has the content that was copied, for its names are stored anew, string by string. Planting a forest after
the children of a node adds new nodes and nothing else: what was added there reads as the forest that was planted, and
all other lists and all contents are as before.
-/

namespace RichText.Tree

open Effects
open Relation (ReflTransGen)

variable {t u v : Tree} {p : Nat} {f f' : Forest Content}

/-! ### Copying a node -/

/-- Storing the names of attributes one after another. -/
theorem Edit.copy_attributes (attributes : List (Attribute String)) (t : Tree) :
    ∃ stored symbols,
      (attributes.mapM fun a => do return ⟨← internName a.name, a.value⟩ : Edit (List (Attribute Symbol))) t =
        (.ok stored, { t with symbols }) ∧ t.symbols.Extends symbols ∧
      (∀ a ∈ stored, ∀ s ∈ a.name.parts, s < symbols.size) ∧ symbols.attributes stored = attributes := by
  induction attributes generalizing t with
  | nil => exact ⟨[], t.symbols, rfl, .refl _, nofun, rfl⟩
  | cons a attributes ih =>
    obtain ⟨hx, hp, hr⟩ := t.symbols.internName_spec a.name
    obtain ⟨stored, symbols, hs, hx', hp', hr'⟩ := ih { t with symbols := (t.symbols.internName a.name).2 }
    refine ⟨⟨(t.symbols.internName a.name).1, a.value⟩ :: stored, symbols, ?_, hx.trans hx', ?_, ?_⟩
    · rw [List.mapM_cons, bind_assoc, Edit.internName, bind_ok (run_modifyGet _ t)]
      exact (bind_ok hs).trans rfl
    · intro b hb s hs
      rcases List.mem_cons.1 hb with rfl | hb
      · exact (hp s hs).trans_le hx'.size_le
      · exact hp' b hb s hs
    · have hname : symbols.resolveName (t.symbols.internName a.name).1 = a.name :=
        (QualifiedName.map_congr fun s hs => hx'.resolve (hp s hs)).trans hr
      rw [SymbolTable.attributes, List.map_cons, hname]
      exact congrArg _ hr'

/-- A copied node is pushed with symbols that stand for its names. -/
theorem Edit.copy_eq (content : Content) (t : Tree) :
    ∃ data symbols, Edit.copy content t = (.ok t.size, (Tree.push { t with symbols } data).2) ∧
      t.symbols.Extends symbols ∧ (∀ s ∈ data.parts, s < symbols.size) ∧ data.map symbols.resolve = content := by
  cases content with
  | element name attributes =>
    obtain ⟨hx, hp, hr⟩ := t.symbols.internName_spec name
    obtain ⟨stored, symbols, hs, hx', hp', hr'⟩ :=
      copy_attributes attributes { t with symbols := (t.symbols.internName name).2 }
    refine ⟨.element (t.symbols.internName name).1 stored, symbols, ?_, hx.trans hx', fun s hsp => ?_, ?_⟩
    · rw [Edit.copy, Edit.internName, bind_ok (run_modifyGet _ t), bind_ok hs, run_modifyGet]
      rfl
    · rcases List.mem_append.1 hsp with hsp | hsp
      · exact (hp s hsp).trans_le hx'.size_le
      · obtain ⟨a, ha, has⟩ := List.mem_flatMap.1 hsp
        exact hp' a ha s has
    · have hname : (t.symbols.internName name).1.map symbols.resolve = name :=
        (QualifiedName.map_congr fun s hs => hx'.resolve (hp s hs)).trans hr
      rw [NodeData.map, hname]
      exact congrArg _ hr'
  | document => exact ⟨.document, t.symbols, rfl, .refl _, List.forall_mem_nil _, rfl⟩
  | doctype name publicId systemId => exact ⟨.doctype name publicId systemId, t.symbols, rfl, .refl _, List.forall_mem_nil _, rfl⟩
  | text content => exact ⟨.text content, t.symbols, rfl, .refl _, List.forall_mem_nil _, rfl⟩
  | comment content => exact ⟨.comment content, t.symbols, rfl, .refl _, List.forall_mem_nil _, rfl⟩
  | instruction target content => exact ⟨.instruction target content, t.symbols, rfl, .refl _, List.forall_mem_nil _, rfl⟩

/-- A copied node is a detached node of its own, with the content that was copied. -/
theorem Linked.copy (hl : t.Linked) (hs : t.Stored) (content : Content) :
    ∃ u, Edit.copy content t = (.ok t.size, u) ∧ u.Linked ∧ u.kids = t.kids ∧ u.size = t.size + 1 ∧
      Retains t.size t u ∧ u.content? (some t.size) = some content := by
  obtain ⟨data, symbols, hu, hx, hp, hr⟩ := Edit.copy_eq content t
  let w : Tree := { t with symbols }
  have hw : w.size = t.size := rfl
  obtain ⟨hwl, hwk⟩ := hl.of_sameLinks (SameShape.symbols t symbols).toSameLinks
  obtain ⟨hul, huk⟩ := hwl.of_sameLinks (SameLinks.push w data)
  refine ⟨_, hu, hul, huk.trans hwk, size_push data, ⟨(hs.symbols hx).push hp, ?_, fun {x} hlt => ?_⟩, ?_⟩
  · rw [size_push]
    exact Nat.le_succ _
  · rw [content?_push, hw, if_neg hlt.ne]
    exact hs.content_symbols hx _
  · rw [content?_push, hw, if_pos rfl]
    exact congrArg some hr

/-! ### Planting a forest -/

/-- From `t` to `u` the forest `f` was added after the children of `p`, as new nodes with the next numbers in document
order, and nothing else changed. -/
structure Planted (p : Nat) (f : Forest Content) (t u : Tree) : Prop where
  linked : u.Linked
  retains : Retains t.size t u
  size : u.size = t.size + f.size
  kids : ∀ {x}, x < t.size → x ≠ p → u.kids x = t.kids x
  stood : ∀ {q x}, x ∈ u.kids q → x < t.size → x ∈ t.kids q
  grown : ∃ g : Forest Nat, u.kids p = t.kids p ++ g.roots ∧ g.Fits u.kids ∧ g.map u.contentOf = f ∧
    g.toList = List.range' t.size f.size

namespace Planted

/-- The nodes that were planted are new. -/
theorem le_of_mem {n m : Nat} {g : Forest Nat} (h : g.toList = List.range' n m) {x : Nat} (hx : x ∈ g.toList) : n ≤ x :=
  (List.mem_range'_1.1 (h ▸ hx)).1

theorem nil (hl : t.Linked) (hs : t.Stored) (p : Nat) : Planted p .nil t t :=
  ⟨hl, .refl _ hs, rfl, fun _ _ => rfl, fun hx _ => hx, .nil, by simp [Forest.roots], trivial, rfl, rfl⟩

/-- A new node above a forest that was planted below it is appended to a list of old nodes. -/
theorem attach (h : Planted t.size f v u) (hl : t.Linked) (hk : v.kids = t.kids) (hz : v.size = t.size + 1)
    (hp : p < t.size) :
    ∃ w, u.appendChild (some p) (some t.size) = .ok w ∧ w.Linked ∧ w.kids = setList u.kids p (t.kids p ++ [t.size]) ∧
      u.SameData w := by
  obtain ⟨g, hg, hfits, -, hnew⟩ := h.grown
  have hnil : v.kids t.size = [] := by rw [hk, hl.links.eq_nil_of_le (Nat.le_refl _)]
  have hkids : u.kids p = t.kids p := (h.kids (by omega) hp.ne).trans (congrFun hk p)
  have hfresh : ∀ q, t.size ∉ u.kids q := fun q hq =>
    Nat.lt_irrefl _ (hl.child_lt (hk ▸ h.stood hq (by omega)))
  -- all that is below the new node is new, and `p` is old
  have hbelow : ¬ ReflTransGen (Child u.kids) t.size p := by
    intro hr
    have hroots : (Forest.node t.size g .nil).Fits u.kids := ⟨by rw [hg, hnil, List.nil_append], hfits, trivial⟩
    have hm := (mem_toList_iff hroots).2 ⟨t.size, List.mem_cons_self, hr⟩
    rcases List.mem_cons.1 hm with he | hm
    · exact hp.ne he
    · have hle := le_of_mem hnew (x := p) (by simpa [Forest.toList] using hm)
      omega
  have hsize := h.retains.size
  obtain ⟨w, hw, hwl, hwk, hws⟩ := h.linked.appendChild (by omega) (by omega) hbelow
  refine ⟨w, hw, hwl, ?_, hws⟩
  rw [hwk, without_eq_self hfresh, hkids]

/-- A new node above a forest that was planted below it, and then the rest of a forest after it. -/
theorem node {content : Content} {w x : Tree} (hl : t.Linked) (hk : v.kids = t.kids) (hz : v.size = t.size + 1)
    (hv : Retains t.size t v) (hc : v.content? (some t.size) = some content) (hb : Planted t.size f v w)
    (hp : p < t.size) (hx : x.kids = setList w.kids p (t.kids p ++ [t.size])) (hs : w.SameData x)
    (hr : Planted p f' x u) : Planted p (.node content f f') t u := by
  obtain ⟨gb, hgb, hbfits, hbmap, hbnew⟩ := hb.grown
  obtain ⟨gr, hgr, hrfits, hrmap, hrnew⟩ := hr.grown
  have hwx := Retains.of_sameData w.size hb.retains.stored hs
  have hwu := hwx.trans hr.retains hwx.size
  have hvu := hb.retains.trans hwu hb.retains.size
  have hvw : v.size ≤ w.size := hb.retains.size
  have hwz : w.size ≤ x.size := hwx.size
  have hnil : v.kids t.size = [] := by rw [hk, hl.links.eq_nil_of_le (Nat.le_refl _)]
  have hroots : w.kids t.size = gb.roots := by rw [hgb, hnil, List.nil_append]
  -- apart from the list of `p` nothing changed since the forest below the new node was planted
  have hkids : ∀ {y}, y < w.size → y ≠ p → u.kids y = w.kids y := fun hy hne => by
    rw [hr.kids (hs.size ▸ hy) hne, hx, setList_of_ne _ hne]
  have hblt : ∀ y ∈ gb.toList, y < w.size := fun y hy =>
    hb.linked.lt_of_mem_toList hbfits (fun z hz => hroots ▸ hz) hy
  have hkidsp : x.kids p = t.kids p ++ [t.size] := by rw [hx, setList_self]
  have hsize : x.size = t.size + 1 + f.size := by rw [hs.size, hb.size, hz]
  refine ⟨hr.linked, hv.trans hvu hv.size, ?_, fun {y} hy hne => ?_, fun {q y} hq hy => ?_, .node t.size gb gr, ?_, ?_,
    ?_, ?_⟩
  · rw [hr.size, hsize, Forest.size]
    omega
  · rw [hkids (by omega) hne, hb.kids (by omega) hy.ne, hk]
  · have hq' := hr.stood hq (by omega)
    by_cases hqp : q = p
    · subst hqp
      rw [hkidsp] at hq'
      exact (List.mem_append.1 hq').resolve_right fun he => hy.ne (List.mem_singleton.1 he)
    · rw [hx, setList_of_ne _ hqp] at hq'
      exact hk ▸ hb.stood hq' (by omega)
  · rw [hgr, hkidsp, List.append_assoc]
    rfl
  · refine ⟨?_, hbfits.congr fun y hy => ?_, hrfits⟩
    · rw [hkids (by omega) hp.ne', hroots]
    · have hle := le_of_mem hbnew hy
      exact hkids (hblt y hy) (by omega)
  · have hcontent : u.contentOf t.size = content := by
      rw [contentOf, hvu.content (by omega), hc]
      rfl
    have hbelow : gb.map u.contentOf = gb.map w.contentOf := Forest.map_congr fun y hy => hwu.contentOf (hblt y hy)
    rw [Forest.map, hcontent, hbelow, hbmap, hrmap]
  · -- the number of the node, those of the forest below it, and those of the rest follow on each other
    rw [Forest.toList, hbnew, hrnew, hz, hsize, Forest.size, List.range'_append_1, ← List.range'_succ]

end Planted

/-- Planting a forest of copies never fails. -/
theorem Linked.plant (hl : t.Linked) (hs : t.Stored) (hp : p < t.size) (f : Forest Content) :
    ∃ u, Edit.plant Edit.copy (some p) f t = (.ok (), u) ∧ Planted p f t u := by
  induction f generalizing t p with
  | nil => exact ⟨t, rfl, .nil hl hs p⟩
  | node content below rest ihb ihr =>
    obtain ⟨v, hv, hvl, hvk, hvz, hvr, hvc⟩ := hl.copy hs content
    obtain ⟨w, hw, hb⟩ := ihb hvl hvr.stored (by omega : t.size < v.size)
    obtain ⟨x, hx, hxl, hxk, hxs⟩ := hb.attach hl hvk hvz hp
    have hwx := Retains.of_sameData w.size hb.retains.stored hxs
    have hsize := hb.retains.size
    obtain ⟨u, hu, hr⟩ := ihr hxl hwx.stored (by rw [hxs.size]; omega : p < x.size)
    refine ⟨u, ?_, ?_⟩
    · rw [Edit.plant, bind_ok hv, bind_ok hw, bind_ok (Edit.ofExcept_ok hx)]
      exact hu
    · exact .node hl hvk hvz hvr hvc hb hp hxk hxs hr

namespace Planted

/-- Below a node that had no children there is now what was planted, and all of it is new. -/
theorem below (h : Planted p f t u) (hp : t.kids p = []) :
    u.contentBelow (some p) = f ∧ (u.below (some p)).toList = List.range' t.size f.size := by
  obtain ⟨g, hg, hfits, hmap, hnew⟩ := h.grown
  have hbelow : u.below (some p) = g := h.linked.below_eq hfits (by rw [hg, hp, List.nil_append])
  rw [contentBelow, hbelow]
  exact ⟨hmap, hnew⟩

theorem documentElement (h : Planted p f t u) (hl : t.Linked) (hz : 0 < t.size) (hp : p ≠ 0) :
    u.documentElement = t.documentElement := by
  refine documentElement_congr (h.kids hz hp.symm) fun x hx => ?_
  have hlt := hl.child_lt hx
  have hc := content_of_lt hlt
  rw [kind_eq_of_content hc, kind_eq_of_content ((h.retains.content hlt).trans hc)]

end Planted

end RichText.Tree
