import RichText.Proofs.Tree.Moves

/-!
Well-linked trees, and inserting nodes in them.

A tree is `Linked` if its links are those of its own child lists and no node is below itself. Both are kept
when a node is detached, and when one is inserted that is no ancestor of its new parent. `new` nodes, which
stand in no list, keep them too.
-/

namespace RichText.Tree

open Relation (TransGen ReflTransGen)

variable {t u : Tree} {k k' : Nat → List Nat} {p c : Nat} {l r : List Nat}

/-! ### Being below a node -/

/-- `c` stands in the child list of `p`. -/
def Child (k : Nat → List Nat) (p c : Nat) : Prop := c ∈ k p

/-- No node is below itself. -/
def Acyclic (k : Nat → List Nat) : Prop := ∀ x, ¬ TransGen (Child k) x x

theorem Acyclic.mono (h : Acyclic k) (hk : ∀ {p c}, c ∈ k' p → c ∈ k p) : Acyclic k' :=
  fun x hx => h x (TransGen.mono (fun _ _ hc => hk hc : Child k' ≤ Child k) x x hx)

/-- One more child `c` of `p` makes no cycle unless `p` is below `c` already. -/
theorem Acyclic.insert (h : Acyclic k) (hk : ∀ {a b}, b ∈ k' a → b ∈ k a ∨ (a = p ∧ b = c))
    (hp : ¬ ReflTransGen (Child k) c p) : Acyclic k' := by
  -- a new path is an old one, or it leads through the new child
  have hpath : ∀ {a b}, TransGen (Child k') a b →
      TransGen (Child k) a b ∨ (ReflTransGen (Child k) a p ∧ ReflTransGen (Child k) c b) := by
    intro a b hab
    induction hab with
    | single hb =>
      rcases hk hb with hb | ⟨rfl, rfl⟩
      · exact .inl (.single hb)
      · exact .inr ⟨.refl, .refl⟩
    | tail _ hb ih =>
      rcases hk hb with hb | ⟨rfl, rfl⟩
      · exact ih.imp (fun h => h.tail hb) fun h => ⟨h.1, h.2.tail hb⟩
      · rcases ih with ih | ih
        · exact .inr ⟨ih.to_reflTransGen, .refl⟩
        · exact absurd ih.2 hp
  intro x hx
  rcases hpath hx with hx | ⟨hxp, hcx⟩
  · exact h x hx
  · exact hp (hcx.trans hxp)

/-! ### Well-linked trees -/

/-- The child list of a node. -/
def kids (t : Tree) (p : Nat) : List Nat := t.children (some p)

/-- The links of a tree are those of its child lists, and no node is below itself. -/
structure Linked (t : Tree) : Prop where
  links : t.LinkedAs t.kids
  acyclic : Acyclic t.kids

theorem LinkedAs.length_le (h : t.LinkedAs k) (p : Nat) : (k p).length ≤ t.size := by
  have hsub : k p ⊆ List.range t.size := fun c hc => List.mem_range.2 (h.child_lt hc)
  simpa using ((h.nodup p).subperm hsub).length_le

theorem LinkedAs.siblingsFrom (h : t.LinkedAs k) {fuel : Nat} (hp : k p = l ++ r) (hf : r.length ≤ fuel) :
    t.siblingsFrom fuel r.head? = r := by
  induction fuel generalizing l r with
  | zero =>
    obtain rfl := List.length_eq_zero_iff.1 (Nat.le_zero.1 hf)
    rfl
  | succ fuel ih =>
    cases r with
    | nil => rfl
    | cons c r =>
      have hr := ih (hp.trans (List.append_cons l c r)) (Nat.le_of_succ_le_succ hf)
      rw [List.head?_cons, Tree.siblingsFrom, h.nextSibling hp, hr]

/-- The child lists of a tree are those its links stand for. -/
theorem LinkedAs.kids_eq (h : t.LinkedAs k) : t.kids = k := by
  funext p
  rw [kids, children, h.firstChild]
  exact h.siblingsFrom (List.nil_append _).symm (h.length_le p)

theorem LinkedAs.linked (h : t.LinkedAs k) (ha : Acyclic k) : t.Linked := by
  obtain rfl := h.kids_eq
  exact ⟨h, ha⟩

namespace Linked

theorem separate (h : t.Linked) : Separate t.kids := h.links.separate

theorem nodup (h : t.Linked) (p : Nat) : (t.kids p).Nodup := h.links.nodup p

theorem parent_iff (h : t.Linked) : t.parent (some c) = some p ↔ c ∈ t.kids p := h.links.parent

theorem orphan_iff (h : t.Linked) : t.parent (some c) = none ↔ ∀ p, c ∉ t.kids p := by
  rw [Option.eq_none_iff_forall_ne_some]
  exact forall_congr' fun p => not_congr h.parent_iff

theorem child_lt (h : t.Linked) (hc : c ∈ t.kids p) : c < t.size := h.links.child_lt hc

theorem parent_lt (h : t.Linked) (hc : c ∈ t.kids p) : p < t.size := h.links.parent_lt hc

theorem firstChild (h : t.Linked) (p : Nat) : t.firstChild (some p) = (t.kids p).head? := h.links.firstChild p

theorem nextSibling (h : t.Linked) (hp : t.kids p = l ++ c :: r) : t.nextSibling (some c) = r.head? :=
  h.links.nextSibling hp

theorem not_child_self (h : t.Linked) : c ∉ t.kids c := fun hc => h.acyclic c (.single hc)

/-- A child is another node than its parent. -/
theorem ne_of_child (h : t.Linked) (hc : c ∈ t.kids p) : p ≠ c := by
  rintro rfl
  exact h.not_child_self hc

/-- A node stands in the list that it stood in, if that list stays and no other list takes the node up. -/
theorem mem_kids_congr {u : Tree} (hu : u.Linked) (hk : ∀ {q}, c ∈ t.kids q → u.kids q = t.kids q)
    (hs : ∀ {q}, c ∈ u.kids q → ∃ q', c ∈ t.kids q') : c ∈ u.kids p ↔ c ∈ t.kids p := by
  refine ⟨fun hp => ?_, fun hp => hk hp ▸ hp⟩
  obtain ⟨q, hq⟩ := hs hp
  obtain rfl := hu.separate.eq_of_mem hp (hk hq ▸ hq)
  exact hq

/-- A node keeps its parent and its neighbours in the list that stays. -/
theorem neighbours_congr {u : Tree} (h : t.Linked) (hu : u.Linked) (hk : ∀ {q}, c ∈ t.kids q → u.kids q = t.kids q)
    (hs : ∀ {q}, c ∈ u.kids q → ∃ q', c ∈ t.kids q') :
    u.parent (some c) = t.parent (some c) ∧ u.prevSibling (some c) = t.prevSibling (some c) ∧
      u.nextSibling (some c) = t.nextSibling (some c) := by
  have hparent : u.parent (some c) = t.parent (some c) :=
    Option.ext fun q => by rw [hu.parent_iff, h.parent_iff, hu.mem_kids_congr hk hs]
  refine ⟨hparent, ?_⟩
  cases hp : t.parent (some c) with
  | none =>
    obtain ⟨hprev, hnext⟩ := h.links.orphan hp
    obtain ⟨hprev', hnext'⟩ := hu.links.orphan (hparent.trans hp)
    rw [hprev, hnext, hprev', hnext']
    exact ⟨rfl, rfl⟩
  | some p =>
    have hc : c ∈ t.kids p := h.parent_iff.1 hp
    obtain ⟨l, r, hlr⟩ := List.append_of_mem hc
    have hlr' : u.kids p = l ++ c :: r := (hk hc).trans hlr
    rw [hu.links.prevSibling hlr', h.links.prevSibling hlr, hu.nextSibling hlr', h.nextSibling hlr]
    exact ⟨rfl, rfl⟩

/-- A node whose list stays keeps its first and its last child. -/
theorem ends_congr {u : Tree} (h : t.Linked) (hu : u.Linked) (hk : u.kids p = t.kids p) :
    u.firstChild (some p) = t.firstChild (some p) ∧ u.lastChild (some p) = t.lastChild (some p) := by
  rw [hu.firstChild, h.firstChild, hu.links.lastChild, h.links.lastChild, hk]
  exact ⟨rfl, rfl⟩

end Linked

/-! ### Ancestors -/

theorem Linked.below_of_mem_pathFrom (h : t.Linked) {fuel x : Nat} (hx : x ∈ t.pathFrom fuel (some p)) :
    ReflTransGen (Child t.kids) x p := by
  induction fuel generalizing p with
  | zero => simp [pathFrom] at hx
  | succ fuel ih =>
    rw [pathFrom, List.mem_cons] at hx
    rcases hx with rfl | hx
    · exact .refl
    · cases hp : t.parent (some p) with
      | none => simp [hp, pathFrom] at hx
      | some q => exact (ih (hp ▸ hx)).tail (h.parent_iff.1 hp)

theorem Linked.isAncestorOrSelf_eq_false (h : t.Linked) (hp : ¬ ReflTransGen (Child t.kids) c p) :
    t.isAncestorOrSelf (some c) (some p) = false := by
  rw [isAncestorOrSelf, List.any_eq_false]
  intro x hx he
  obtain rfl : x = c := by simpa using he
  exact hp (h.below_of_mem_pathFrom hx)

/-! ### Detaching and inserting -/

theorem Linked.detach (h : t.Linked) (hc : c < t.size) :
    ∃ u, t.detach (some c) = .ok u ∧ u.Linked ∧ u.kids = without t.kids c ∧ t.SameData u := by
  obtain ⟨u, hu, hk, hd⟩ := h.links.detach hc
  exact ⟨u, hu, hk.linked (h.acyclic.mono mem_of_mem_without), hk.kids_eq, hd⟩

theorem mem_setList_without {a b : Nat} (hp : without k c p = l ++ r)
    (hb : b ∈ setList (without k c) p (l ++ c :: r) a) : b ∈ k a ∨ (a = p ∧ b = c) := by
  by_cases ha : a = p
  · subst ha
    rw [setList_self, List.mem_append, List.mem_cons, or_left_comm, ← List.mem_append, ← hp] at hb
    exact hb.symm.imp mem_of_mem_without fun e => ⟨rfl, e⟩
  · rw [setList_of_ne _ ha] at hb
    exact .inl (mem_of_mem_without hb)

/-- Linking a node anew after it was detached. -/
theorem Linked.link_detached (h : t.Linked) {d : Tree} (hd : d.LinkedAs (without t.kids c)) (hs : t.SameData d)
    (hp : p < t.size) (hc : c < t.size) (ha : ¬ ReflTransGen (Child t.kids) c p)
    (hlr : without t.kids c p = l ++ r) :
    (d.link (some p) (some c) l.getLast? r.head?).Linked ∧
      (d.link (some p) (some c) l.getLast? r.head?).kids = setList (without t.kids c) p (l ++ c :: r) ∧
      t.SameData (d.link (some p) (some c) l.getLast? r.head?) := by
  have hk := hd.link hlr (h.separate.not_mem_without c) (hs.size ▸ hc) (hs.size ▸ hp)
  exact ⟨hk.linked (h.acyclic.insert (mem_setList_without hlr) ha), hk.kids_eq, hs.trans (.link _ _)⟩

/-- Inserting before a node puts the child right before it and takes it from where it stood. -/
theorem Linked.insertBefore (h : t.Linked) {x : Nat} (hc : c < t.size)
    (ha : ¬ ReflTransGen (Child t.kids) c p) (hx : without t.kids c p = l ++ x :: r) :
    ∃ u, t.insertBefore (some p) (some c) (some (some x)) = .ok u ∧ u.Linked ∧
      u.kids = setList (without t.kids c) p (l ++ c :: x :: r) ∧ t.SameData u := by
  obtain ⟨d, hd, hdk, hds⟩ := h.links.detach hc
  have hmem : x ∈ without t.kids c p := by simp [hx]
  obtain ⟨hxc, hxp⟩ := h.separate.mem_without_iff.1 hmem
  have hp := h.parent_lt hxp
  obtain ⟨n, hn⟩ := exists_node? hp
  obtain ⟨m, hm⟩ := exists_node? hc
  refine ⟨_, ?_, h.link_detached hdk hds hp hc ha hx⟩
  have hpx := h.parent_iff.2 hxp
  simp [Tree.insertBefore, hn, hm, h.isAncestorOrSelf_eq_false ha, hpx, hxc, hd, hdk.prevSibling hx]

/-- Appending a child puts it at the end of the list and takes it from where it stood. -/
theorem Linked.appendChild (h : t.Linked) (hp : p < t.size) (hc : c < t.size)
    (ha : ¬ ReflTransGen (Child t.kids) c p) :
    ∃ u, t.appendChild (some p) (some c) = .ok u ∧ u.Linked ∧
      u.kids = setList (without t.kids c) p (without t.kids c p ++ [c]) ∧ t.SameData u := by
  obtain ⟨d, hd, hdk, hds⟩ := h.links.detach hc
  obtain ⟨n, hn⟩ := exists_node? hp
  obtain ⟨m, hm⟩ := exists_node? hc
  refine ⟨_, ?_, h.link_detached hdk hds hp hc ha (List.append_nil _).symm⟩
  simp [Tree.appendChild, Tree.insertBefore, hn, hm, h.isAncestorOrSelf_eq_false ha, hd, hdk.lastChild]

end RichText.Tree
