import RichText.Proofs.Tree.Below

/-!
Checking the links of a tree node by node.

A tree in which every child has a higher number than its parent is well linked if its links agree with its
child lists. For a given tree this can be evaluated.
-/

namespace RichText.Tree

open Relation (TransGen)

variable {t : Tree} {k : Nat → List Nat}

instance (p : Nat) (left right : Ref) : Decidable (t.Joined p left right) :=
  inferInstanceAs (Decidable (_ ∧ _))

/-- Where children have higher numbers than their parents no node is below itself. -/
theorem acyclic_of_lt (h : ∀ p c, c ∈ k p → p < c) : Acyclic k := by
  have hlt : ∀ {x y}, TransGen (Child k) x y → x < y := by
    intro x y hxy
    induction hxy with
    | single hc => exact h _ _ hc
    | tail _ hc ih => exact ih.trans (h _ _ hc)
  intro x hx
  exact Nat.lt_irrefl x (hlt hx)

/-- The links of every node agree with the child lists, and children have higher numbers than their parents. -/
def Agrees (t : Tree) : Prop :=
  (∀ p < t.size, (t.kids p).Nodup ∧ (∀ c ∈ t.kids p, p < c ∧ t.parent (some c) = some p) ∧
    ∀ i ≤ (t.kids p).length, t.Joined p ((t.kids p).take i).getLast? ((t.kids p).drop i).head?) ∧
  ∀ c < t.size, match t.parent (some c) with
    | some p => p < t.size ∧ c ∈ t.kids p
    | none => t.prevSibling (some c) = none ∧ t.nextSibling (some c) = none

instance : Decidable t.Agrees :=
  have (c : Nat) : Decidable (match t.parent (some c) with
      | some p => p < t.size ∧ c ∈ t.kids p
      | none => t.prevSibling (some c) = none ∧ t.nextSibling (some c) = none) :=
    match t.parent (some c) with
    | some p => inferInstanceAs (Decidable (p < t.size ∧ c ∈ t.kids p))
    | none => inferInstanceAs (Decidable (t.prevSibling (some c) = none ∧ t.nextSibling (some c) = none))
  inferInstanceAs (Decidable (_ ∧ _))

theorem kids_of_le {p : Nat} (h : t.size ≤ p) : t.kids p = [] := by
  rw [kids, children, firstChild, node?_eq_none_iff.2 h]
  cases t.size <;> rfl

theorem Agrees.linkedAs (h : t.Agrees) : t.LinkedAs t.kids := by
  obtain ⟨hlists, hparents⟩ := h
  have hlt : ∀ {p c}, c ∈ t.kids p → p < t.size := by
    intro p c hc
    by_contra hp
    rw [kids_of_le (Nat.le_of_not_lt hp)] at hc
    exact absurd hc List.not_mem_nil
  constructor
  · intro p l r hp
    by_cases hps : p < t.size
    · have hj := (hlists p hps).2.2 l.length (by simp [hp])
      rwa [hp, List.take_left, List.drop_left] at hj
    -- beyond the nodes of the tree there are neither links nor children
    · have hnil := kids_of_le (Nat.le_of_not_lt hps)
      obtain ⟨rfl, rfl⟩ := List.append_eq_nil_iff.1 (hp.symm.trans hnil)
      have hn := node?_eq_none_iff.2 (Nat.le_of_not_lt hps)
      simp [Joined, firstChild, lastChild, hn]
  · intro p c
    constructor
    · intro hc
      by_cases hcs : c < t.size
      · have hm := hparents c hcs
        rw [hc] at hm
        exact hm.2
      · rw [parent, node?_eq_none_iff.2 (Nat.le_of_not_lt hcs)] at hc
        cases hc
    · exact fun hc => ((hlists p (hlt hc)).2.1 c hc).2
  · intro c hc
    by_cases hcs : c < t.size
    · have hm := hparents c hcs
      rwa [hc] at hm
    · simp [prevSibling, nextSibling, node?_eq_none_iff.2 (Nat.le_of_not_lt hcs)]
  · intro p
    by_cases hps : p < t.size
    · exact (hlists p hps).1
    · rw [kids_of_le (Nat.le_of_not_lt hps)]
      exact List.nodup_nil

/-- A tree whose links agree is well linked. -/
theorem Agrees.linked (h : t.Agrees) : t.Linked := by
  refine ⟨h.linkedAs, acyclic_of_lt fun p c hc => ?_⟩
  exact ((h.1 p (h.linkedAs.parent_lt hc)).2.1 c hc).1

/-- An element `div` with an element `b` around a text, and a comment after it. -/
def sample : Tree where
  nodes := #[
    { first := some 1, last := some 1, data := .document },
    { parent := some 0, first := some 2, last := some 4, data := .element ⟨0, 0, 1⟩ [] },
    { parent := some 1, next := some 4, first := some 3, last := some 3, data := .element ⟨0, 0, 2⟩ [] },
    { parent := some 2, data := .text "x" },
    { parent := some 1, prev := some 2, data := .comment "y" }]
  symbols := ⟨#["", "div", "b"]⟩

theorem linked_sample : sample.Linked := Agrees.linked (by decide)

end RichText.Tree
