import RichText.Proofs.Tree.Insertion
import RichText.Proofs.Effects

/-!
The ancestor check, and moves whose arguments are not known to be sound.

In a well-linked tree the check says exactly which nodes are above another one, since no path to the top is longer
than the arena. Therefore a move that is not refused keeps a tree well linked, whatever nodes it was asked for.
-/

namespace RichText.Tree

open Effects
open Relation (ReflTransGen)

variable {t u : Tree} {c p x : Nat}

/-! ### Paths to the top -/

theorem pathFrom_take (t : Tree) (fuel more : Nat) (r : Ref) :
    t.pathFrom fuel r = (t.pathFrom (fuel + more) r).take fuel := by
  induction fuel generalizing r with
  | zero => cases r <;> simp [pathFrom]
  | succ fuel ih =>
    cases r with
    | none => simp [pathFrom]
    | some p => rw [Nat.succ_add, pathFrom, pathFrom, List.take_succ_cons, ← ih]

/-- Some path that is long enough leads from a node to every node above it. -/
theorem Linked.exists_mem_pathFrom (h : t.Linked) (hx : ReflTransGen (Child t.kids) x p) :
    ∃ fuel, x ∈ t.pathFrom fuel (some p) := by
  induction hx with
  | refl => exact ⟨1, List.mem_cons_self⟩
  | tail _ hc ih =>
    obtain ⟨fuel, hm⟩ := ih
    refine ⟨fuel + 1, ?_⟩
    rw [pathFrom, h.parent_iff.2 hc]
    exact List.mem_cons_of_mem _ hm

theorem Linked.nodup_pathFrom (h : t.Linked) (fuel : Nat) (r : Ref) : (t.pathFrom fuel r).Nodup := by
  induction fuel generalizing r with
  | zero => cases r <;> exact List.nodup_nil
  | succ fuel ih =>
    cases r with
    | none => exact List.nodup_nil
    | some p =>
      rw [pathFrom, List.nodup_cons]
      refine ⟨fun hm => ?_, ih _⟩
      cases hq : t.parent (some p) with
      | none =>
        rw [hq] at hm
        cases fuel <;> exact absurd hm List.not_mem_nil
      | some q =>
        rw [hq] at hm
        exact h.acyclic p (.tail' (h.below_of_mem_pathFrom hm) (h.parent_iff.1 hq))

theorem Linked.pathFrom_subset (h : t.Linked) (hp : p < t.size) (fuel : Nat) :
    t.pathFrom fuel (some p) ⊆ List.range t.size := by
  intro x hx
  rw [List.mem_range]
  rcases (h.below_of_mem_pathFrom hx).cases_head with rfl | ⟨y, hy, _⟩
  · exact hp
  · exact h.parent_lt hy

/-- A path without repetitions has no more nodes than the arena, whatever it starts at. -/
theorem Linked.length_pathFrom_le (h : t.Linked) (hs : 0 < t.size) (fuel : Nat) (r : Ref) :
    (t.pathFrom fuel r).length ≤ t.size := by
  cases r with
  | none => cases fuel <;> exact Nat.zero_le _
  | some p =>
    by_cases hp : p < t.size
    · have hsub := (h.nodup_pathFrom fuel (some p)).subperm (h.pathFrom_subset hp _)
      simpa using hsub.length_le
    -- an unknown node has no parent, so that it is the whole path
    · have hparent : t.parent (some p) = none := by
        rw [parent, node?_eq_none_iff.2 (Nat.le_of_not_lt hp)]
        rfl
      cases fuel with
      | zero => exact Nat.zero_le _
      | succ fuel =>
        rw [pathFrom, hparent]
        cases fuel <;> exact hs

/-- A path to the top that is longer than the arena is not found. -/
theorem Linked.pathFrom_eq (h : t.Linked) (hs : 0 < t.size) {fuel : Nat} (hf : t.size ≤ fuel) (r : Ref) :
    t.pathFrom fuel r = t.ancestorsOrSelf r := by
  obtain ⟨more, rfl⟩ := Nat.exists_eq_add_of_le hf
  rw [ancestorsOrSelf, pathFrom_take t t.size more, List.take_of_length_le (h.length_pathFrom_le hs _ r)]

/-- The ancestors of a node and the node itself are all the nodes that it is below or equal to. -/
theorem Linked.mem_ancestorsOrSelf_iff (h : t.Linked) (hp : p < t.size) :
    x ∈ t.ancestorsOrSelf (some p) ↔ ReflTransGen (Child t.kids) x p := by
  refine ⟨h.below_of_mem_pathFrom, fun hx => ?_⟩
  obtain ⟨fuel, hm⟩ := h.exists_mem_pathFrom hx
  rw [pathFrom_take t fuel t.size] at hm
  rw [← h.pathFrom_eq (Nat.zero_lt_of_lt hp) (Nat.le_add_left t.size fuel)]
  exact List.mem_of_mem_take hm

/-- Above a child there are the child, its parent and what is above that. -/
theorem Linked.ancestorsOrSelf_child (h : t.Linked) (hc : c ∈ t.kids p) :
    t.ancestorsOrSelf (some c) = c :: t.ancestorsOrSelf (some p) := by
  have hs : 0 < t.size := Nat.zero_lt_of_lt (h.parent_lt hc)
  rw [← h.pathFrom_eq hs (Nat.le_succ t.size), pathFrom, h.parent_iff.2 hc, ancestorsOrSelf]

/-- The nodes above a node are those of another tree in which each of them has the parent that it has there. -/
theorem pathFrom_congr (fuel : Nat) (r : Ref)
    (hu : ∀ x ∈ t.pathFrom fuel r, u.parent (some x) = t.parent (some x)) : u.pathFrom fuel r = t.pathFrom fuel r := by
  induction fuel generalizing r with
  | zero => cases r <;> rfl
  | succ fuel ih =>
    cases r with
    | none => rfl
    | some x =>
      rw [pathFrom, pathFrom, hu x List.mem_cons_self]
      rw [pathFrom] at hu
      rw [ih _ fun y hy => hu y (List.mem_cons_of_mem _ hy)]

theorem Linked.isAncestorOrSelf_iff (h : t.Linked) (hp : p < t.size) :
    t.isAncestorOrSelf (some c) (some p) = true ↔ ReflTransGen (Child t.kids) c p := by
  rw [← h.mem_ancestorsOrSelf_iff hp, isAncestorOrSelf, List.any_eq_true]
  simp

/-! ### Moves that are not refused -/

theorem lt_of_node? {n : Node} (h : t.node? (some x) = some n) : x < t.size := by
  by_contra hx
  rw [node?_eq_none_iff.2 (Nat.le_of_not_lt hx)] at h
  cases h

theorem Linked.of_detach (h : t.Linked) {r : Ref} (hu : t.detach r = .ok u) : u.Linked := by
  cases hn : t.node? r with
  | none => simp [Tree.detach, hn] at hu
  | some n =>
    obtain ⟨c, rfl⟩ : ∃ c, r = some c := by
      cases r with
      | none => cases hn
      | some c => exact ⟨c, rfl⟩
    obtain ⟨v, hv, hvl, -⟩ := h.detach (lt_of_node? hn)
    rw [hv] at hu
    cases hu
    exact hvl

/-- What is known of the arguments of an insertion that is not refused. -/
theorem insertBefore_ok {parent child : Ref} {reference : Option Ref}
    (hu : t.insertBefore parent child reference = .ok u) :
    ∃ p c, parent = some p ∧ child = some c ∧ p < t.size ∧ c < t.size ∧
      t.isAncestorOrSelf (some c) (some p) = false := by
  have hsome : ∀ {r : Ref}, ¬ (t.node? r).isNone = true → ∃ x, r = some x ∧ x < t.size := by
    intro r hr
    cases r with
    | none => exact absurd rfl hr
    | some x =>
      cases hn : t.node? (some x) with
      | none => exact absurd (by rw [hn]; rfl) hr
      | some n => exact ⟨x, rfl, lt_of_node? hn⟩
  unfold Tree.insertBefore at hu
  split at hu
  · cases hu
  rename_i hparent
  split at hu
  · cases hu
  rename_i hchild
  obtain ⟨p, rfl, hp⟩ := hsome hparent
  obtain ⟨c, rfl, hc⟩ := hsome hchild
  split at hu
  · cases hu
  rename_i ha
  exact ⟨p, c, rfl, rfl, hp, hc, Bool.eq_false_iff.2 ha⟩

theorem Linked.of_insertBefore (h : t.Linked) {parent child : Ref} {reference : Option Ref}
    (hu : t.insertBefore parent child reference = .ok u) : u.Linked := by
  obtain ⟨p, c, rfl, rfl, hp, hc, ha⟩ := insertBefore_ok hu
  have hup : ¬ ReflTransGen (Child t.kids) c p := fun hr => by
    rw [(h.isAncestorOrSelf_iff hp).2 hr] at ha
    cases ha
  cases reference with
  | none =>
    obtain ⟨v, hv, hvl, -⟩ := h.appendChild hp hc hup
    rw [← Tree.appendChild, hv] at hu
    cases hu
    exact hvl
  | some r =>
    obtain ⟨n, hn⟩ := exists_node? hp
    obtain ⟨m, hm⟩ := exists_node? hc
    simp only [Tree.insertBefore, hn, hm, ha, Option.isNone_some, Bool.false_eq_true, if_false] at hu
    split at hu
    · cases hu
    rename_i hpar
    split at hu
    · cases hu
      exact h
    rename_i hne
    -- the reference is a child of the parent other than the node that moves
    obtain ⟨x, rfl⟩ : ∃ x, r = some x := by
      cases r with
      | none => exact absurd (show none = some p from not_ne_iff.1 hpar) (Option.some_ne_none p).symm
      | some x => exact ⟨x, rfl⟩
    have hx : x ∈ without t.kids c p :=
      h.separate.mem_without_iff.2 ⟨fun e => hne (by rw [e]), h.parent_iff.1 (not_ne_iff.1 hpar)⟩
    obtain ⟨l, r, hl⟩ := List.append_of_mem hx
    obtain ⟨v, hv, hvl, -⟩ := h.insertBefore hc hup hl
    rw [Tree.insertBefore] at hv
    simp only [hn, hm, ha, Option.isNone_some, Bool.false_eq_true, if_false, hpar, hne] at hv
    rw [hv] at hu
    cases hu
    exact hvl

end RichText.Tree
