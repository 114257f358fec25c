import RichText.Configuration
import Mathlib.Logic.Basic

/-!
Rules layered over one another, and the chains that view rules are filed in.
-/

namespace RichText

variable {κ σ P : Type}

/-! ### Layers -/

/-- Rules in the order in which they were added, each layered over the ones before it, and the first of them over
`below`. -/
def stackOver (below : Option (Rule κ σ P)) (rules : List (Rule κ σ P)) : Option (Rule κ σ P) :=
  rules.foldl (fun below rule => some (layer rule below)) below

/-- Rules in the order in which they were added, each layered over the ones before it. -/
def stack (rules : List (Rule κ σ P)) : Option (Rule κ σ P) := stackOver none rules

theorem stackOver_append (below : Option (Rule κ σ P)) (lower upper : List (Rule κ σ P)) :
    stackOver below (lower ++ upper) = stackOver (stackOver below lower) upper := List.foldl_append

theorem isSome_stackOver (below : Option (Rule κ σ P)) (rules : List (Rule κ σ P)) :
    (stackOver below rules).isSome ↔ below.isSome ∨ rules ≠ [] := by
  induction rules generalizing below with
  | nil => simp [stackOver]
  | cons rule rules ih =>
    have hrest := ih (some (layer rule below))
    simpa [stackOver] using hrest

/-- The rule does the same whatever it is layered over: it does not run its parent. -/
def Rule.IgnoresParent (rule : Rule κ σ P) : Prop := ∀ context parent, rule context parent = rule context Rule.noop

theorem Rule.IgnoresParent.layer_eq {rule : Rule κ σ P} (h : rule.IgnoresParent) (below : Option (Rule κ σ P)) :
    layer rule below = rule := by
  cases below with
  | none => rfl
  | some parent =>
    funext context other
    exact (h context _).trans (h context other).symm

/-- A rule that does not run its parent hides all rules that it is layered over. -/
theorem stack_hides {rule : Rule κ σ P} (h : rule.IgnoresParent) (before after : List (Rule κ σ P)) :
    stack (before ++ rule :: after) = stack (rule :: after) := by
  simp only [stack, stackOver, List.foldl_append, List.foldl_cons, h.layer_eq]

/-! ### Chains -/

namespace Buckets

/-- The rule that is filed for a target and an origin. -/
def chain? (buckets : Buckets κ σ) (target : String) (origin : Origin) : Option (ElementRule κ σ) :=
  (buckets.lookup target).bind fun origins => origins.lookup origin

/-- Adding a view rule layers it over the chain of its target and origin, and leaves the others alone. -/
theorem chain?_add (buckets : Buckets κ σ) (target target' : String) (origin origin' : Origin)
    (rule : ElementRule κ σ) :
    (buckets.add target' origin' rule).chain? target origin =
      if target = target' ∧ origin = origin' then some (layer rule (buckets.chain? target origin))
      else buckets.chain? target origin := by
  have hempty : ((buckets.lookup target').getD []).lookup origin' = buckets.chain? target' origin' := by
    rw [chain?]
    cases buckets.lookup target' <;> rfl
  rw [chain?, add, Keyed.lookup_alter]
  by_cases ht : target = target'
  · subst ht
    rw [if_pos rfl, Option.bind_some, Keyed.lookup_alter]
    by_cases ho : origin = origin'
    · subst ho
      rw [if_pos rfl, if_pos ⟨rfl, rfl⟩, hempty]
    · rw [if_neg ho, if_neg fun h => ho h.2, chain?]
      cases buckets.lookup target <;> rfl
  · rw [if_neg ht, if_neg fun h => ht h.1]
    rfl

end Buckets

end RichText
