import RichText.Proofs.Pass.Rules
import RichText.Proofs.Tree.Check

/-!
A pass always ends.

The walk is written with a bound on its length. No bound from the size of the tree on is ever reached, and all
such bounds give the same run: the walk comes to the end of the child list, or a rule's error ends it.
-/

namespace RichText.Filter

open RichText.Tree Effects
open Relation (ReflTransGen)

variable {κ σ : Type} {f : Filter κ σ} {t : Tree}

/-! ### Larger bounds -/

/-- `y` does what `x` does wherever `x` does not run out of fuel. -/
def Extends {P α : Type} (x y : Action Halt σ P α) : Prop :=
  ∀ s, (x s).1 ≠ .error .outOfFuel → y s = x s

namespace Extends

variable {P α β : Type} {x y : Action Halt σ P α}

theorem refl (x : Action Halt σ P α) : Extends x x := fun _ _ => rfl

theorem trans {z : Action Halt σ P α} (h : Extends x y) (h' : Extends y z) : Extends x z := by
  intro s hs
  have hy := h s hs
  exact (h' s (hy ▸ hs)).trans hy

theorem bind {g g' : α → Action Halt σ P β} (h : Extends x y) (hg : ∀ a, Extends (g a) (g' a)) :
    Extends (x >>= g) (y >>= g') := by
  intro s hs
  rw [run_bind] at hs
  rw [run_bind, run_bind]
  rcases hx : x s with ⟨e | a, s'⟩
  · have he : e ≠ .outOfFuel := fun he => hs (by rw [hx, he])
    have hy := h s (by rw [hx]; simpa using he)
    rw [hy, hx]
  · have hy := h s (by rw [hx]; exact nofun)
    rw [hx] at hs
    rw [hy, hx]
    exact hg a s' hs

theorem runStages (persist : Action Halt σ P Response) (finish : Action Halt σ P Ref)
    {stages stages' : List (Action Halt σ P Unit)} (h : List.Forall₂ Extends stages stages') :
    Extends (runStages persist finish stages) (RichText.runStages persist finish stages') := by
  induction h with
  | nil => exact refl _
  | cons hx _ ih =>
    refine hx.bind fun _ => (refl persist).bind fun response => ?_
    cases response with
    | proceed => exact ih
    | stop => exact refl _
    | restart node => exact refl _

theorem onTree {part part' : Ref → Pass σ Unit} (h : ∀ r, Extends (part r) (part' r)) :
    Extends (onTree part) (Filter.onTree part') := by
  rintro ⟨q, j⟩ hs
  have hp := h q.delegate (q.tree, j) hs
  simp only [Filter.onTree, hp]

end Extends

theorem visitElement_extends {descend descend' : Ref → Pass σ Unit} (h : ∀ r, Extends (descend r) (descend' r))
    (node : Nat) : Extends (f.visitElement descend node) (f.visitElement descend' node) := by
  rintro ⟨t, j⟩ hs
  let q := ElementProxy.ofNode t (some node) f.namespaces
  have hsame : ∀ l : List (Action Halt σ ElementProxy Unit), List.Forall₂ Extends l l := fun l =>
    List.forall₂_same.2 fun x _ => .refl x
  have hstages : List.Forall₂ Extends (f.stages descend q.currentName) (f.stages descend' q.currentName) :=
    List.rel_append (hsame _) (.cons (.onTree h) (hsame _))
  have hrun : f.elementStages descend' node t j = f.elementStages descend node t j :=
    Extends.runStages _ _ hstages (q, j) hs
  rw [run_visitElement, run_visitElement, hrun]

theorem visit_extends {descend descend' : Ref → Pass σ Unit} (h : ∀ r, Extends (descend r) (descend' r))
    (node : Nat) : Extends (f.visit descend node) (f.visit descend' node) := by
  refine (Extends.refl get).bind fun s => ?_
  obtain ⟨t, j⟩ := s
  dsimp only
  split
  · exact (visitElement_extends h node).bind fun _ => .refl _
  · exact .refl _
  · exact .refl _

theorem walk_extends (f : Filter κ σ) (fuel : Nat) (r : Ref) : Extends (f.walk fuel r) (f.walk (fuel + 1) r) := by
  induction fuel generalizing r with
  | zero =>
    cases r with
    | none => exact .refl _
    | some node => exact fun s hs => absurd rfl hs
  | succ fuel ih =>
    cases r with
    | none => exact .refl _
    | some node =>
      -- one more unit of fuel is one more for the walks below the node and for the walk after it
      have hinside : ∀ parent, Extends (fromFirst (fun _ => f.walk fuel) parent)
          (fromFirst (fun _ => f.walk (fuel + 1)) parent) := fun parent =>
        (Extends.refl _).bind fun s => ih (s.1.firstChild parent)
      exact (visit_extends hinside node).bind fun next => ih next

theorem walk_of_le {fuel fuel' : Nat} (h : fuel ≤ fuel') (r : Ref) : Extends (f.walk fuel r) (f.walk fuel' r) := by
  induction h with
  | refl => exact .refl _
  | step _ ih => exact ih.trans (f.walk_extends _ r)

/-- A pass over a well-linked tree ends, whatever its rules do through their proxies: every bound from the size
of the tree on gives the run of the pass, and it succeeds or fails with an error that a rule raised. -/
theorem apply_ends (hf : f.ThroughProxies) (ht : t.Linked) (start : Ref) (journal : σ) :
    (∀ fuel, t.size ≤ fuel → f.walk fuel (t.firstChild start) (t, journal) = f.apply start t journal) ∧
      ((f.apply start t journal).1 = .ok () ∨
        ∃ e, (f.apply start t journal).1 = .error (.failed e) ∧ f.Raised e (f.apply start t journal).2) := by
  have hrun : f.apply start t journal = f.walk t.size (t.firstChild start) (t, journal) := rfl
  have hend : (f.apply start t journal).1 = .ok () ∨
      ∃ e, (f.apply start t journal).1 = .error (.failed e) ∧ f.Raised e (f.apply start t journal).2 := by
    cases start with
    | none => exact .inl (congrArg Prod.fst (f.apply_none t journal))
    | some start =>
      have ha := Ahead.of_below ht start
      have hw := walk_ends hf.respects ha ha.size_le journal
      rw [← f.apply_some ht] at hw
      rcases hr : f.apply (some start) t journal with ⟨halt | ⟨⟨⟩⟩, s⟩
      · rw [hr] at hw
        obtain ⟨⟨e, rfl, he⟩, -⟩ := hw
        exact .inr ⟨e, rfl, he⟩
      · exact .inl rfl
  refine ⟨fun fuel hle => ?_, hend⟩
  rw [hrun]
  -- a run that does not exhaust its bound is the same for every larger one
  refine walk_of_le hle _ _ ?_
  rw [← hrun]
  rcases hend with he | ⟨e, he, -⟩
  · rw [he]
    exact nofun
  · rw [he]
    exact nofun

/-- Replaces every `b` whenever it is visited. -/
def replaceAnew : ElementRule Unit Unit := fun _ _ => do
  let _ ← Rule.onProxy (ElementProxy.replaceBy "b" none)

/-- Replaces every `b` whenever it is visited, and unwraps every element after its children. -/
def restless : Filter Unit Unit where
  rules := { elements := [("b", replaceAnew), ("$$", Rule.unwrapElement)] }
  context := ()

theorem restless_ends :
    (∀ fuel, sample.size ≤ fuel →
        restless.walk fuel (sample.firstChild (some 0)) (sample, ()) = restless.apply (some 0) sample ()) ∧
      ((restless.apply (some 0) sample ()).1 = .ok () ∨
        ∃ e, (restless.apply (some 0) sample ()).1 = .error (.failed e) ∧
          restless.Raised e (restless.apply (some 0) sample ()).2) := by
  have hreplace : ThroughElement () replaceAnew := by
    intro q j
    have hq : (replaceAnew () Rule.noop (q, j)).2.1 = (ElementProxy.replaceBy "b" none q).2 := by
      simp only [replaceAnew, run_bind, Rule.onProxy]
      rcases ElementProxy.replaceBy "b" none q with ⟨_ | _, _⟩ <;> rfl
    exact hq ▸ .single (.replaceBy q "b" none)
  have hunwrap : ThroughElement () (Rule.unwrapElement : ElementRule Unit Unit) := by
    intro q j
    obtain ⟨fate, pendingName, overrides, hq⟩ := Rule.buffers_unwrapElement () q j
    exact hq ▸ .single (.buffer q fate pendingName overrides)
  have hf : restless.ThroughProxies := by
    refine ⟨fun hr => RuleSet.forall_element ?_ hr, fun hr => (Option.some_ne_none _ hr.symm).elim⟩
    intro entry he
    simp only [restless, List.mem_cons, List.not_mem_nil, or_false] at he
    rcases he with rfl | rfl
    · exact hreplace
    · exact hunwrap
  exact apply_ends hf linked_sample (some 0) ()

end RichText.Filter
