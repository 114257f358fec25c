import RichText.Proofs.Tree.Evolution
import RichText.Proofs.Tree.Renewal

/-!
Where a visit stands.

A visit begins at a node of some child list. While it goes on, its delegate is that node or a new one that
replaced it, and stands in the place of the node or in no list at all. Every edit that a proxy makes leads
from one such state to another, and so does a walk through the children of the delegate.
-/

namespace RichText

open RichText.Tree
open Relation (TransGen ReflTransGen)

/-- A node ahead in a child list, with what is below it and what follows. -/
structure Cursor where
  tree : Tree
  parent : Nat
  before : List Nat
  node : Nat
  below : Forest Nat
  rest : Forest Nat

/-- What is ahead of a walk at this node. -/
def Cursor.ahead (o : Cursor) : Forest Nat := .node o.node o.below o.rest

/-- A node that stands in no list is none of the nodes that a visit works on, unless the visit is in its list. -/
theorem Tree.Ahead.apex_not_mem {o : Cursor} {r : Nat} (h : o.tree.Ahead o.parent o.before o.ahead)
    (hr : ∀ q, r ∉ o.tree.kids q) (hp : o.parent ≠ r) : r ∉ {x | x = o.parent ∨ x ∈ o.node :: o.below.toList} := by
  rintro (he | hm)
  · exact hp he.symm
  · have hmem : r ∈ o.ahead.toList := by
      rcases List.mem_cons.1 hm with he | hm
      · exact he ▸ List.mem_cons_self
      · exact Forest.mem_toList_below hm _ _
    obtain ⟨x, hx⟩ := h.stands hmem
    exact hr x hx

/-- Whether the delegate of a visit still stands in its place; if not, what stands there. -/
inductive Place where
  | attached
  | vacated (present : Forest Nat)

namespace Place

/-- The forest in the place of the visited node, for a delegate `d` with `below` below it. -/
def seat (d : Nat) (below : Forest Nat) : Place → Forest Nat
  | attached => .node d below .nil
  | vacated present => present

/-- The place after the delegate left it to `heirs`, unless it had left it before. -/
def leave (heirs : Forest Nat) : Place → Place
  | attached => .vacated heirs
  | vacated present => .vacated present

end Place

/-- A delegate that left its place stands in no list, and no node below it stands in its old place. -/
structure Left (o : Cursor) (t : Tree) (d : Nat) (below present : Forest Nat) : Prop where
  orphan : ∀ q, d ∉ t.kids q
  source : ∀ {x}, x ∈ present.toList → x ∈ o.below.toList ∨ o.tree.size ≤ x
  apart : ∀ {x}, x ∈ present.toList → x ∉ below.toList
  size : present.size ≤ o.below.size

/-- A visit that began at `o` stands at a tree `t` with the delegate `d`, below which there is `below`. -/
structure Visiting (o : Cursor) (t : Tree) (d : Nat) (below : Forest Nat) (place : Place) : Prop where
  start : o.tree.Ahead o.parent o.before o.ahead
  evolves : Evolves {x | x = o.parent ∨ x ∈ o.node :: o.below.toList} o.tree t
  ahead : t.Ahead o.parent o.before (place.seat d below ++ o.rest)
  inner : t.Ahead d [] below
  kind : t.kind? (some d) = o.tree.kind? (some o.node)
  own : d = o.node ∨ o.tree.size ≤ d
  source : ∀ {x}, x ∈ below.toList → x ∈ o.below.toList ∨ o.tree.size ≤ x
  size : below.size ≤ o.below.size
  left : ∀ {present}, place = .vacated present → Left o t d below present

variable {o : Cursor} {t u : Tree} {d : Nat} {below below' present g : Forest Nat} {place : Place}

namespace Visiting

/-- A visit begins with the node itself. -/
theorem begin (h : o.tree.Ahead o.parent o.before o.ahead) :
    Visiting o o.tree o.node o.below .attached where
  start := h
  evolves := .refl _ h.linked
  ahead := h
  inner := ⟨h.linked, h.fits.1.symm, h.fits.2.1⟩
  kind := rfl
  own := .inl rfl
  source := .inl
  size := Nat.le_refl _
  left := nofun

theorem parent_lt (h : Visiting o t d below place) : o.parent < o.tree.size :=
  h.start.linked.parent_lt (h.start.roots_subset List.mem_cons_self)

theorem parent_ne (h : Visiting o t d below place) : o.parent ≠ d := by
  rintro rfl
  rcases h.own with he | hle
  · exact h.start.not_mem (he ▸ List.mem_cons_self)
  · have := h.parent_lt
    omega

theorem parent_not_mem (h : Visiting o t d below place) : o.parent ∉ below.toList := by
  intro hm
  rcases h.source hm with hb | hle
  · exact h.start.not_mem (Forest.mem_toList_below hb _ _)
  · have := h.parent_lt
    omega

/-- What follows the visited node is none of the nodes that the visit works on. -/
theorem rest_apart (h : Visiting o t d below place) {x : Nat} (hx : x ∈ o.rest.toList) :
    x ≠ o.parent ∧ x ≠ d ∧ x ∉ below.toList := by
  have hmem : x ∈ o.ahead.toList := Forest.mem_toList_rest hx _ _
  have hlt := h.start.lt hmem
  obtain ⟨hnode, hn⟩ := List.nodup_cons.1 h.start.nodup
  refine ⟨?_, ?_, fun hb => ?_⟩
  · rintro rfl
    exact h.start.not_mem hmem
  · rintro rfl
    rcases h.own with he | hle
    · exact hnode (he ▸ List.mem_append_right _ hx)
    · omega
  · rcases h.source hb with hb | hle
    · exact (List.nodup_append.1 hn).2.2 x hb x hx rfl
    · omega

theorem delegate_lt (h : Visiting o t d below place) : d < t.size := by
  have hn : o.node < o.tree.size := h.start.lt List.mem_cons_self
  obtain ⟨n, hn⟩ := exists_node? hn
  have hk : t.kind? (some d) = some n.data.kind := by
    rw [h.kind, kind?, data?, hn]
    rfl
  exact lt_of_kind hk

/-- Every node in the old place of a delegate that left it is none of the nodes that the visit works on. -/
theorem present_apart (h : Visiting o t d below (.vacated present)) {x : Nat} (hx : x ∈ present.toList) :
    x ≠ o.parent ∧ x ≠ d ∧ x ∉ below.toList := by
  have hmem : x ∈ (present ++ o.rest).toList := Forest.mem_toList_append.2 (.inl hx)
  refine ⟨?_, ?_, (h.left rfl).apart hx⟩
  · rintro rfl
    exact h.ahead.not_mem hmem
  · rintro rfl
    obtain ⟨q, hq⟩ := h.ahead.stands hmem
    exact (h.left rfl).orphan q hq

/-! ### Steps of a visit -/

/-- One step of a visit, which works on the parent, the delegate and what is below it alone. -/
theorem step (h : Visiting o t d below place) {S : Set Nat} (he : Evolves S t u)
    (hS : ∀ x ∈ S, x < t.size → x = o.parent ∨ x = d ∨ x ∈ below.toList) {d' : Nat} {place' : Place}
    (hlist : u.kids o.parent = o.before ++ ((place'.seat d' below').roots ++ o.rest.roots))
    (hseat : (place'.seat d' below').Fits u.kids) (hinner : u.Ahead d' [] below')
    (hkind : u.kind? (some d') = t.kind? (some d)) (hown : d' = d ∨ t.size ≤ d')
    (hsource : ∀ x ∈ below'.toList, x ∈ below.toList ∨ t.size ≤ x) (hsize : below'.size ≤ below.size)
    (hleft : ∀ {present}, place' = .vacated present → Left o u d' below' present) :
    Visiting o u d' below' place' where
  start := h.start
  evolves := h.evolves.trans he fun x hx hlt => by
    have hle := h.evolves.size
    rcases hS x hx (by omega) with rfl | rfl | hb
    · exact .inl rfl
    · rcases h.own with rfl | hge
      · exact .inr List.mem_cons_self
      · omega
    · rcases h.source hb with hb | hge
      · exact .inr (List.mem_cons_of_mem _ hb)
      · omega
  ahead := by
    refine ⟨he.linked, by rw [hlist, Forest.roots_append], Forest.fits_append.2 ⟨hseat, ?_⟩⟩
    -- what follows the node is not among the nodes that change
    have hrest := (Forest.fits_append.1 h.ahead.fits).2
    refine hrest.congr fun x hx => he.kids ?_ fun hxS => ?_
    · exact h.ahead.lt_rest hx
    · obtain ⟨hp, hd, hb⟩ := h.rest_apart hx
      have hlt : x < t.size := h.ahead.lt_rest hx
      rcases hS x hxS hlt with hx | hx | hx
      · exact hp hx
      · exact hd hx
      · exact hb hx
  inner := hinner
  kind := hkind.trans h.kind
  own := by
    have hle := h.evolves.size
    rcases hown with rfl | hge
    · exact h.own
    · exact .inr (by omega)
  source hx := by
    have hle := h.evolves.size
    rcases hsource _ hx with hb | hge
    · exact h.source hb
    · exact .inr (by omega)
  size := hsize.trans h.size
  left := hleft

/-- The forest in the place of the node still fits where only other nodes changed. -/
theorem present_fits (h : Visiting o t d below (.vacated present)) {S : Set Nat} (he : Evolves S t u)
    (hS : ∀ x ∈ S, x < t.size → x = o.parent ∨ x = d ∨ x ∈ below.toList) : present.Fits u.kids := by
  refine (Forest.fits_append.1 h.ahead.fits).1.congr fun x hx => ?_
  have hlt : x < t.size := h.ahead.lt_front hx
  obtain ⟨hp, hd, hb⟩ := h.present_apart hx
  refine he.kids hlt fun hxS => ?_
  rcases hS x hxS hlt with hx | hx | hx
  · exact hp hx
  · exact hd hx
  · exact hb hx

/-- A delegate that left its place goes on beside it: whatever is done to the delegate and below it, the
place stays as it is. -/
theorem step_left (h : Visiting o t d below (.vacated present)) {S : Set Nat} (he : Evolves S t u)
    (hS : ∀ x ∈ S, x < t.size → x = d ∨ x ∈ below.toList) {d' : Nat} (hinner : u.Ahead d' [] below')
    (hkind : u.kind? (some d') = t.kind? (some d)) (hown : d' = d ∨ t.size ≤ d') (horphan : ∀ q, d' ∉ u.kids q)
    (hsource : ∀ x ∈ below'.toList, x ∈ below.toList ∨ t.size ≤ x) (hsize : below'.size ≤ below.size) :
    Visiting o u d' below' (.vacated present) := by
  have hl := h.left rfl
  have hp : o.parent < t.size := h.parent_lt.trans_le h.evolves.size
  have hkids : u.kids o.parent = t.kids o.parent := he.kids hp fun hm => by
    rcases hS _ hm hp with he | hb
    · exact h.parent_ne he
    · exact h.parent_not_mem hb
  have hS' : ∀ x ∈ S, x < t.size → x = o.parent ∨ x = d ∨ x ∈ below.toList := fun x hx hlt => .inr (hS x hx hlt)
  refine h.step he hS' ?_ (h.present_fits he hS') hinner hkind hown hsource hsize ?_
  · rw [hkids, h.ahead.list, Forest.roots_append]
    rfl
  · rintro _ ⟨⟩
    -- what came newly below the delegate cannot have been in its old place before
    refine ⟨horphan, hl.source, fun {x} hx hb => ?_, hl.size⟩
    rcases hsource x hb with hb | hge
    · exact hl.apart hx hb
    · have hlt : x < t.size := h.ahead.lt_front hx
      omega

/-- The children of a delegate in its place are those of the tree that stands there. -/
theorem list_attached (h : Visiting o t d below .attached) : t.kids o.parent = o.before ++ d :: o.rest.roots :=
  h.ahead.list

/-- A change below the delegate. -/
theorem step_below (h : Visiting o t d below place) {S : Set Nat} (he : Evolves S t u)
    (hS : ∀ x ∈ S, x < t.size → x = d ∨ x ∈ below.toList) (hinner : u.Ahead d [] below')
    (hsource : ∀ x ∈ below'.toList, x ∈ below.toList ∨ t.size ≤ x) (hsize : below'.size ≤ below.size) :
    Visiting o u d below' place := by
  cases place with
  | vacated present =>
    have horphan := he.orphan h.delegate_lt (h.left rfl).orphan
    exact h.step_left he hS hinner (he.kind h.delegate_lt) (.inl rfl) horphan hsource hsize
  | attached =>
    have hp : o.parent < t.size := h.parent_lt.trans_le h.evolves.size
    have hkids : u.kids o.parent = t.kids o.parent := he.kids hp fun hm => by
      rcases hS _ hm hp with he | hb
      · exact h.parent_ne he
      · exact h.parent_not_mem hb
    refine h.step he (fun x hx hlt => .inr (hS x hx hlt)) ?_ ?_ hinner (he.kind h.delegate_lt) (.inl rfl) hsource
      hsize nofun
    · exact hkids.trans h.list_attached
    · exact ⟨hinner.list.symm, hinner.fits, trivial⟩

/-- Other data in nodes of the same kind. -/
theorem write (h : Visiting o t d below place) (hs : t.SameShape u) : Visiting o u d below place := by
  have he := Evolves.of_sameShape ∅ h.ahead.linked hs
  refine h.step_below he (fun _ hx => hx.elim) (h.inner.evolve he ?_ fun _ _ => id) (fun _ => .inl) (Nat.le_refl _)
  rw [he.kids h.delegate_lt id, h.inner.list]

/-- A walk through the children of the delegate. -/
theorem descend (h : Visiting o t d below place) (ht : t.Turned d [] below u below') :
    Visiting o u d below' place :=
  h.step_below ht.evolves (fun _ hx _ => hx) ht.ahead (fun _ => ht.source) ht.size

/-- Detaching all children of the delegate. -/
theorem clear (h : Visiting o t d below place) :
    ∃ u, t.removeChildren (some d) = .ok u ∧ Visiting o u d .nil place := by
  obtain ⟨u, hu, hul, huk, hus⟩ := h.ahead.linked.removeChildren d
  have he : Evolves {d} t u := by
    refine .of_sameData hul hus (fun x hx => ?_) fun {q x} hx => ⟨q, ?_⟩
    · rw [huk, setList_of_ne _ hx]
    · by_cases hq : q = d
      · rw [huk, hq, setList_self] at hx
        exact absurd hx List.not_mem_nil
      · rwa [huk, setList_of_ne _ hq] at hx
  refine ⟨u, hu, h.step_below he (fun x hx _ => .inl hx) ⟨hul, ?_, trivial⟩ nofun (Nat.zero_le _)⟩
  rw [huk, setList_self]
  rfl

/-- Detaching the delegate. -/
theorem remove (h : Visiting o t d below place) :
    ∃ u, t.detach (some d) = .ok u ∧ Visiting o u d below (place.leave .nil) := by
  obtain ⟨u, hu, hul, huk, hus⟩ := h.ahead.linked.detach h.delegate_lt
  refine ⟨u, hu, ?_⟩
  have hstood : ∀ {q x}, x ∈ u.kids q → ∃ q', x ∈ t.kids q' := fun {q x} hx => ⟨q, mem_of_mem_without (huk ▸ hx)⟩
  cases place with
  | vacated present =>
    have hk : u.kids = t.kids := huk.trans (without_eq_self (h.left rfl).orphan)
    have he : Evolves ∅ t u := .of_sameData hul hus (fun x _ => by rw [hk]) hstood
    exact h.step_below he (fun _ hx => hx.elim) (h.inner.evolve he (hk ▸ h.inner.list) fun _ _ => id)
      (fun _ => .inl) (Nat.le_refl _)
  | attached =>
    have hk := huk.trans (h.ahead.linked.separate.without_eq h.list_attached)
    have he : Evolves {o.parent} t u :=
      .of_sameData hul hus (fun x hx => by rw [hk, setList_of_ne _ hx]) hstood
    refine h.step he (fun x hx _ => .inl hx) ?_ trivial ?_ (he.kind h.delegate_lt) (.inl rfl) (fun _ => .inl)
      (Nat.le_refl _) ?_
    · rw [hk, setList_self]
      rfl
    · refine h.inner.evolve he ?_ fun x hx hp => h.parent_not_mem (hp ▸ hx)
      rw [hk, setList_of_ne _ h.parent_ne.symm, h.inner.list]
    · rintro _ ⟨⟩
      exact ⟨fun q hq => h.ahead.linked.separate.not_mem_without d q (huk ▸ hq), nofun, nofun, Nat.zero_le _⟩

theorem parent_of_left (h : Visiting o t d below (.vacated present)) : t.parent (some d) = none :=
  h.ahead.linked.orphan_iff.2 (h.left rfl).orphan

/-- Where the children of the delegate took its place, it stands in no list, and nothing else came into one. -/
theorem stood_of_unwrapped (h : Visiting o t d below .attached)
    (huk : u.kids = setList (setList t.kids d []) o.parent (o.before ++ t.kids d ++ o.rest.roots)) {q x : Nat}
    (hx : x ∈ u.kids q) : x ≠ d ∧ ∃ q', x ∈ t.kids q' := by
  have hlist := h.list_attached
  have hdp : d ∈ t.kids o.parent := hlist ▸ by simp
  by_cases hq : q = o.parent
  · rw [huk, hq, setList_self, List.append_assoc, List.mem_append, List.mem_append] at hx
    have hn := h.ahead.linked.nodup o.parent
    rw [hlist, List.nodup_append, List.nodup_cons] at hn
    rcases hx with hx | hx | hx
    · exact ⟨hn.2.2 x hx d List.mem_cons_self, _, hlist ▸ List.mem_append_left _ hx⟩
    · exact ⟨fun e => h.ahead.linked.not_child_self (e ▸ hx), d, hx⟩
    · refine ⟨fun e => hn.2.1.1 (e ▸ hx), o.parent, ?_⟩
      rw [hlist]
      exact List.mem_append_right _ (List.mem_cons_of_mem _ hx)
  · rw [huk, setList_of_ne _ hq] at hx
    by_cases hqd : q = d
    · rw [hqd, setList_self] at hx
      exact absurd hx List.not_mem_nil
    · rw [setList_of_ne _ hqd] at hx
      exact ⟨fun e => hq (h.ahead.linked.separate.eq_of_mem (e ▸ hx) hdp), q, hx⟩

/-- Unwrapping a delegate in its place leaves its children there. -/
theorem unwrap (h : Visiting o t d below .attached) :
    ∃ u, t.unwrap (some d) = .ok u ∧ Visiting o u d .nil (.vacated below) := by
  have hd : t.kids d = below.roots := h.inner.list
  obtain ⟨u, hu, hul, huk, hus⟩ := h.ahead.linked.unwrap h.list_attached
  have he : Evolves {x | x = o.parent ∨ x = d} t u := by
    refine .of_sameData hul hus (fun x hx => ?_) fun hx => (h.stood_of_unwrapped huk hx).2
    rw [huk, setList_of_ne _ fun e => hx (.inl e), setList_of_ne _ fun e => hx (.inr e)]
  -- the children change their parent, but nothing changes below them
  have hout : ∀ {x}, x ∈ below.toList → x ∉ {x | x = o.parent ∨ x = d} := by
    rintro x hx (rfl | rfl)
    · exact h.parent_not_mem hx
    · exact h.inner.not_mem hx
  refine ⟨u, hu, h.step he (fun x hx _ => hx.imp_right .inl) ?_ ?_ ⟨hul, ?_, trivial⟩ (he.kind h.delegate_lt)
    (.inl rfl) nofun (Nat.zero_le _) ?_⟩
  · rw [huk, setList_self, hd, List.append_assoc]
    rfl
  · exact h.inner.fits.congr fun x hx => he.kids (h.inner.lt hx) (hout hx)
  · rw [huk, setList_of_ne _ h.parent_ne.symm, setList_self]
    rfl
  · rintro _ ⟨⟩
    exact ⟨fun q hq => (h.stood_of_unwrapped huk hq).1 rfl, h.source, fun _ => List.not_mem_nil, h.size⟩

/-- A new node that was given the children of the delegate has the same forest below it. -/
theorem handed_over (h : Visiting o t d below place) (hu : u.Linked) (hroots : u.kids t.size = below.roots)
    (hkids : ∀ {x}, x < t.size → x ≠ o.parent → x ≠ d → u.kids x = t.kids x) : u.Ahead t.size [] below := by
  refine ⟨hu, hroots, h.inner.fits.congr fun x hx => hkids (h.inner.lt hx) ?_ ?_⟩
  · rintro rfl
    exact h.parent_not_mem hx
  · rintro rfl
    exact h.inner.not_mem hx

theorem renew_left (h : Visiting o t d below (.vacated present)) (hd : t.kind? (some d) = some .element)
    (namespaces : NamespaceTable) (space name : String) (entries : List (String × Option String)) :
    ∃ u, Edit.renew namespaces (some d) space name entries t = (.ok t.size, u) ∧
      Visiting o u t.size below (.vacated present) := by
  obtain ⟨u, hu, hul, huk, hus, hukind⟩ :=
    h.ahead.linked.renew_of_orphan h.delegate_lt (h.left rfl).orphan namespaces space name entries
  have hkids : ∀ {x}, x < t.size → x ≠ d → u.kids x = t.kids x := fun hx hn => by
    rw [huk, handedOver_of_ne hn hx.ne]
  have hstood : ∀ {q x}, x ∈ u.kids q → ∃ q', x ∈ t.kids q' := fun hx => stood_of_handedOver (huk ▸ hx)
  have he : Evolves {d} t u :=
    ⟨hul, by omega, fun hx => by rw [hukind, if_neg hx.ne], fun hge hlt => by rw [hukind, if_pos (by omega)],
      fun hx hn => hkids hx hn, fun hx => .inl (hstood hx)⟩
  have hroots : u.kids t.size = below.roots := by
    rw [huk, handedOver, setList_self, h.inner.list]
    rfl
  have hin : u.Ahead t.size [] below := h.handed_over hul hroots fun hx _ hn => hkids hx hn
  refine ⟨u, hu, h.step_left he (fun x hx _ => .inl hx) hin ?_ (.inr (Nat.le_refl _)) (fun q hq => ?_)
    (fun _ => .inl) (Nat.le_refl _)⟩
  · rw [hukind, if_pos rfl, hd]
  · -- the new element was in no list of the old tree, and no list has grown
    obtain ⟨q', hq'⟩ := hstood hq
    exact Nat.lt_irrefl _ (h.ahead.linked.child_lt hq')

theorem renew_attached (h : Visiting o t d below .attached) (hd : t.kind? (some d) = some .element)
    (namespaces : NamespaceTable) (space name : String) (entries : List (String × Option String)) :
    ∃ u, Edit.renew namespaces (some d) space name entries t = (.ok t.size, u) ∧
      Visiting o u t.size below .attached := by
  obtain ⟨u, hu, hul, huk, hus, hukind⟩ := h.ahead.linked.renew h.list_attached namespaces space name entries
  have hp : o.parent < t.size := h.parent_lt.trans_le h.evolves.size
  have hkids : ∀ {x}, x < t.size → x ≠ o.parent → x ≠ d → u.kids x = t.kids x := fun hx hn hn' => by
    rw [huk, setList_of_ne _ hn, handedOver_of_ne hn' hx.ne]
  have hstood : ∀ {q x}, x ∈ u.kids q → (∃ q', x ∈ t.kids q') ∨ t.size ≤ x := by
    intro q x hx
    by_cases hq : q = o.parent
    · rw [huk, hq, setList_self, List.mem_append, List.mem_cons] at hx
      rcases hx with hx | rfl | hx
      · exact .inl ⟨_, h.list_attached ▸ List.mem_append_left _ hx⟩
      · exact .inr (Nat.le_refl _)
      · refine .inl ⟨o.parent, ?_⟩
        rw [h.list_attached]
        exact List.mem_append_right _ (List.mem_cons_of_mem _ hx)
    · rw [huk, setList_of_ne _ hq] at hx
      exact .inl (stood_of_handedOver hx)
  have he : Evolves {x | x = o.parent ∨ x = d} t u :=
    ⟨hul, by omega, fun hx => by rw [hukind, if_neg hx.ne], fun hge hlt => by rw [hukind, if_pos (by omega)],
      fun hx hn => hkids hx (fun e => hn (.inl e)) fun e => hn (.inr e), hstood⟩
  have hroots : u.kids t.size = below.roots := by
    rw [huk, setList_of_ne _ hp.ne', handedOver, setList_self, h.inner.list]
    rfl
  have hin : u.Ahead t.size [] below := h.handed_over hul hroots hkids
  refine ⟨u, hu, h.step he (fun x hx _ => hx.imp_right .inl) ?_ ⟨hroots.symm, hin.fits, trivial⟩ hin ?_
    (.inr (Nat.le_refl _)) (fun _ => .inl) (Nat.le_refl _) fun hp => by cases hp⟩
  · rw [huk, setList_self]
    rfl
  · rw [hukind, if_pos rfl, hd]

/-- Renewing the delegate makes the new element the delegate. -/
theorem renew (h : Visiting o t d below place) (hd : t.kind? (some d) = some .element)
    (namespaces : NamespaceTable) (space name : String) (entries : List (String × Option String)) :
    ∃ u, Edit.renew namespaces (some d) space name entries t = (.ok t.size, u) ∧
      Visiting o u t.size below place := by
  cases place with
  | vacated present => exact h.renew_left hd namespaces space name entries
  | attached => exact h.renew_attached hd namespaces space name entries

/-! ### After a visit -/

theorem seat_source (h : Visiting o t d below place) {x : Nat} (hx : x ∈ (place.seat d below).toList) :
    x ∈ o.node :: o.below.toList ∨ o.tree.size ≤ x := by
  cases place with
  | vacated present => exact ((h.left rfl).source hx).imp_left (List.mem_cons_of_mem _)
  | attached =>
    rcases List.mem_cons.1 hx with rfl | hx
    · rcases h.own with rfl | hge
      · exact .inl List.mem_cons_self
      · exact .inr hge
    · rw [Forest.toList, List.append_nil] at hx
      exact (h.source hx).imp_left (List.mem_cons_of_mem _)

theorem seat_size (h : Visiting o t d below place) : (place.seat d below).size ≤ o.below.size + 1 := by
  cases place with
  | vacated present => exact (h.left rfl).size.trans (Nat.le_succ _)
  | attached => exact Nat.succ_le_succ h.size

theorem evolves_ahead (h : Visiting o t d below place) :
    Evolves {x | x = o.parent ∨ x ∈ o.ahead.toList} o.tree t := by
  refine h.evolves.mono fun x hx => hx.imp_right fun hx => ?_
  rcases List.mem_cons.1 hx with rfl | hx
  · exact List.mem_cons_self
  · exact Forest.mem_toList_below hx _ _

/-- The walk went on after the place of the node. -/
theorem turned_rest (h : Visiting o t d below place)
    (hw : t.Turned o.parent (o.before ++ (place.seat d below).roots) o.rest u g) :
    o.tree.Turned o.parent o.before o.ahead u (place.seat d below ++ g) where
  evolves := h.evolves_ahead.trans hw.evolves fun x hx _ => hx.imp_right fun hx =>
    Forest.mem_toList_rest hx _ _
  ahead := h.ahead.front_of_turned hw
  source {x} hx := by
    rw [Forest.mem_toList_append] at hx
    have hle := h.evolves.size
    rcases hx with hx | hx
    · refine (h.seat_source hx).imp_left fun hm => ?_
      rcases List.mem_cons.1 hm with rfl | hm
      · exact List.mem_cons_self
      · exact Forest.mem_toList_below hm _ _
    · rcases hw.source hx with hx | hx
      · exact .inl (Forest.mem_toList_rest hx _ _)
      · exact .inr (by omega)
  size := by
    have hs := h.seat_size
    have hg := hw.size
    rw [Forest.size_append, Cursor.ahead, Forest.size]
    omega

/-- The visit ended the walk. -/
theorem turned (h : Visiting o t d below place) :
    o.tree.Turned o.parent o.before o.ahead t (place.seat d below ++ o.rest) :=
  h.turned_rest (.refl h.ahead.after)

/-- The walk went on at the nodes that took the place of the delegate. -/
theorem turned_again (h : Visiting o t d below (.vacated present))
    (hw : t.Turned o.parent o.before (present ++ o.rest) u g) :
    o.tree.Turned o.parent o.before o.ahead u g := by
  have hv := h.turned
  refine ⟨hv.evolves.trans hw.evolves fun x hx hlt => hx.imp_right fun hx => ?_, hw.ahead, fun {x} hx => ?_,
    hw.size.trans hv.size⟩
  · rcases hv.source hx with hx | hge
    · exact hx
    · have := hv.evolves.size
      omega
  · have hle := hv.evolves.size
    rcases hw.source hx with hx | hge
    · exact hv.source hx
    · exact .inr (by omega)

/-- The walk went on below a delegate that had left its place. -/
theorem turned_below (h : Visiting o t d below (.vacated present)) (hw : t.Turned d [] below u g) :
    o.tree.Turned o.parent o.before o.ahead u (present ++ o.rest) :=
  (h.descend hw).turned

end Visiting

end RichText
