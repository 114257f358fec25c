import RichText.Proofs.Pass.Rules
import RichText.Proofs.Tree.Check

/-!
A pass and the nodes that are no elements.

Elements come and go in a pass, but texts, comments, processing instructions and doctypes are the nodes that
they were: a pass neither copies one nor moves one past another, and loses none unless a rule asks for it.
-/

namespace RichText.Filter

open RichText.Tree

variable {κ σ : Type} {drops : Prop} {f : Filter κ σ} {t : Tree}

/-- A pass whose rules respect their visits keeps what is no element, even where a rule fails. -/
theorem apply_keeps (hf : f.Respects drops) (ht : t.Linked) (start : Nat) (journal : σ) :
    t.Goes drops start [] (t.below (some start)) (f.apply (some start) t journal).2.1 := by
  have ha := Ahead.of_below ht start
  have hw := walk_ends hf ha ha.size_le journal
  rw [f.apply_some ht]
  rcases hr : f.walk t.size _ (t, journal) with ⟨e | a, s⟩
  · rw [hr] at hw
    exact hw.2
  · rw [hr] at hw
    exact hw

/-- What is no element below the start node is afterwards a part of what it was, in the same order and without
repetitions; and all of it where no rule requests that nodes go. -/
theorem others_apply (hf : f.Buffers) (ht : t.Linked) (start : Ref) (journal : σ) :
    let after := (f.apply start t journal).2.1
    List.Sublist (after.others (after.below start)) (t.others (t.below start)) ∧
      (after.others (after.below start)).Nodup ∧
      (f.Spares → after.others (after.below start) = t.others (t.below start)) := by
  intro after
  cases start with
  | none =>
    have ha : after = t := congrArg (fun r => r.2.1) (f.apply_none t journal)
    have hb : t.others (t.below none) = [] := by rw [below_none]; rfl
    rw [ha, hb]
    exact ⟨.refl _, List.nodup_nil, fun _ => rfl⟩
  | some start =>
    have hkept : ∀ {drops}, f.Respects drops →
        Kept drops (t.others (t.below (some start))) (after.others (after.below (some start))) := by
      intro drops hr
      obtain ⟨g, hg, hk⟩ := apply_keeps hr ht start journal
      rw [hg.ahead.below_eq, hg.evolves.others]
      exact hk
    -- that nothing repeats holds of every forest that fits the lists
    have hall : f.Respects True := hf.respects fun h => absurd trivial h
    obtain ⟨g, hg, -⟩ := apply_keeps hall ht start journal
    refine ⟨(hkept hall).1, ?_, fun hs => (hkept (hf.respects fun _ => hs)).2 id⟩
    rw [hg.ahead.below_eq]
    exact hg.ahead.nodup.filter _

/-- Unwraps every `b`, and renames every element after its children. -/
def loosening : Filter Unit Unit where
  rules := { elements := [("b", Rule.unwrapElement), ("$$", Rule.renameTo "P")] }
  context := ()

theorem others_loosening :
    let after := (loosening.apply (some 1) sample ()).2.1
    List.Sublist (after.others (after.below (some 1))) (sample.others (sample.below (some 1))) ∧
      (after.others (after.below (some 1))).Nodup ∧
      after.others (after.below (some 1)) = sample.others (sample.below (some 1)) := by
  have hb : loosening.Buffers := by
    refine ⟨fun hr => RuleSet.forall_element ?_ hr, fun hr => nomatch hr⟩
    intro entry he
    simp only [loosening, List.mem_cons, List.not_mem_nil, or_false] at he
    rcases he with rfl | rfl
    · exact Rule.buffers_unwrapElement ()
    · exact Rule.buffers_renameTo () "P"
  have hs : loosening.Spares := by
    refine ⟨fun hr => RuleSet.forall_element ?_ hr, fun hr => nomatch hr⟩
    intro entry he
    simp only [loosening, List.mem_cons, List.not_mem_nil, or_false] at he
    rcases he with rfl | rfl
    · exact Rule.spares_unwrapElement ()
    · exact Rule.spares_renameTo () "P"
  obtain ⟨h, hn, he⟩ := others_apply hb linked_sample (some 1) ()
  exact ⟨h, hn, he hs⟩

end RichText.Filter
