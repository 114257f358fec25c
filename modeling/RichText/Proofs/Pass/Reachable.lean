import RichText.Proofs.Pass.Content
import RichText.Proofs.Tree.Calls
import RichText.Proofs.Tree.Contents

/-!
The trees that calls and passes lead to.

Every such tree has the link invariant: neither a refused call, whatever nodes it names, nor a pass that a rule's
error ends leaves it broken.
-/

namespace RichText

open RichText.Tree
open Relation (ReflTransGen)

variable {κ σ : Type} {t : Tree}

namespace Tree

/-- What calls and passes make of an empty tree, in any order, and whether they succeed or fail. -/
inductive Reachable : Tree → Prop
  | empty : Reachable empty
  | call {t : Tree} (h : Reachable t) (call : Call) : Reachable (call.after t)
  | pass {t : Tree} (h : Reachable t) {κ σ : Type} {f : Filter κ σ} (hf : f.ThroughProxies) (start : Ref)
      (journal : σ) : Reachable (f.apply start t journal).2.1

theorem linked_empty : Tree.empty.Linked := Agrees.linked (by decide)

/-- A pass leaves a well-linked tree well linked. -/
theorem Linked.pass (h : t.Linked) {f : Filter κ σ} (hf : f.ThroughProxies) (start : Ref) (journal : σ) :
    (f.apply start t journal).2.1.Linked := by
  cases start with
  | none => exact f.apply_none t journal ▸ h
  | some start =>
    obtain ⟨_, hg, -⟩ := f.apply_keeps hf.respects h start journal
    exact hg.ahead.linked

theorem Reachable.linked (h : t.Reachable) : t.Linked := by
  induction h with
  | empty => exact linked_empty
  | call _ call ih => exact ih.call call
  | pass _ hf start journal ih => exact ih.pass hf start journal

/-- No edit takes nodes out of the arena. -/
theorem invariant_size_pos : Invariant fun t => 0 < t.size where
  store _ h := h
  attributes r new h := (size_putAttributes r new).symm ▸ h
  detach hu h := (sameData_of_detach hu).size.symm ▸ h
  insertBefore hu h := (sameData_of_insertBefore hu).size.symm ▸ h
  push data _ := size_push data ▸ Nat.succ_pos _
  setText hu h := (sameShape_of_setText hu).size.symm ▸ h

theorem Reachable.size_pos (h : t.Reachable) : 0 < t.size := by
  induction h with
  | empty => decide
  | call _ call ih => exact invariant_size_pos.call call _ ih
  | @pass t h _ _ f hf start journal ih =>
    cases start with
    | none => exact f.apply_none t journal ▸ ih
    | some start =>
      obtain ⟨_, hg, -⟩ := f.apply_keeps hf.respects h.linked start journal
      exact ih.trans_le hg.evolves.size

theorem Reachable.calls (h : t.Reachable) (calls : List Call) :
    (calls.foldl (fun t call => call.after t) t).Reachable := by
  induction calls generalizing t with
  | nil => exact h
  | cons call calls ih => exact ih (h.call call)

/-- Every tree that calls and passes lead to has the link invariant. -/
theorem linkInvariant_of_reachable (h : t.Reachable) : t.LinkInvariant := h.linked.linkInvariant

/-- Calls some of which are refused: for an unknown node, and for a node that is to go below itself. -/
def history : List Call :=
  [.createElement "" "div", .createElement "" "b", .appendChild (some 0) (some 1), .appendChild (some 7) (some 1),
    .copyFrom sample (some 1), .insertBefore (some 1) (some 3) none, .appendChild (some 4) (some 3),
    .replaceChild (some 1) (some 2) (some 3), .setAttribute (some 1) "id" "x", .setText none "y"]

/-- Unwraps every `b`. -/
def unbold : Filter Unit Unit where
  rules := { elements := [("b", Rule.unwrapElement)] }
  context := ()

theorem linkInvariant_of_history :
    (unbold.apply (some 0) (history.foldl (fun t call => call.after t) .empty) ()).2.1.LinkInvariant := by
  have hb : unbold.Buffers := by
    refine ⟨fun hr => RuleSet.forall_element ?_ hr, fun hr => nomatch hr⟩
    intro entry he
    rw [List.mem_singleton.1 he]
    exact Rule.buffers_unwrapElement ()
  exact linkInvariant_of_reachable ((Reachable.empty.calls history).pass hb.throughProxies (some 0) ())

end Tree

end RichText
