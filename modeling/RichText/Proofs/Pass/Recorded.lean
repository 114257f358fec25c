import RichText.Proofs.Pass.Shadow

/-!
A pass that records the calls of its rules.

A call is recorded with the proxy that the rule was given and the one that it left. `Filter.Runs` says how a pass gets
from one tree to another: by calls on proxies in which nothing is buffered, each of which is persisted before the next
one, and by persisting proxies in which nothing is buffered.
-/

namespace RichText

open Effects

variable {κ σ P : Type}

/-- A call of a rule, with the proxy that the rule was given and the one that it left. -/
inductive RuleCall where
  | element (key : String) (given left : ElementProxy)
  | text (given left : TextProxy)

namespace RuleCall

/-- The key of the rule; the text rule has none. -/
def key : RuleCall → Option String
  | element key _ _ => some key
  | text .. => none

/-- What the rule was given, whatever kind of node that is. -/
def given : RuleCall → NodeProxy
  | element _ given _ => given.toNodeProxy
  | text given _ => given.toNodeProxy

end RuleCall

/-- A rule whose calls are recorded. -/
def Rule.recorded (call : P → P → RuleCall) (rule : Rule κ σ P) : Rule κ (σ × List RuleCall) P :=
  fun context _ => Action.noted (rule context noop) fun p _ p' => call p p'

/-- Rules whose calls are recorded. -/
def RuleSet.recorded (rules : RuleSet κ σ) : RuleSet κ (σ × List RuleCall) :=
  rules.exchange (fun key => Rule.recorded (.element key)) (Rule.recorded .text)

namespace Filter

/-- A filter whose calls of rules are recorded. -/
def recorded (f : Filter κ σ) : Filter κ (σ × List RuleCall) := { f with rules := f.rules.recorded }

/-- Filters a tree and gives the calls of the rules as well, in order. -/
def applyRecorded (f : Filter κ σ) (start : Ref) (tree : Tree) (journal : σ) :
    (Except Halt Unit × Tree × σ) × List RuleCall :=
  let (answer, tree, journal, calls) := f.recorded.apply start tree (journal, [])
  ((answer, tree, journal), calls)

end Filter

/-! ### Without the record -/

theorem RuleSet.element?_recorded (rules : RuleSet κ σ) (key : String) :
    rules.recorded.element? key = (rules.element? key).map (Rule.recorded (.element key)) :=
  rules.element?_exchange _ _ key

theorem Rule.run_recorded (call : P → P → RuleCall) {rule : Rule κ σ P} {context : κ} {p p' : P} {j j' : σ}
    {answer : Except FilterError Unit} (h : rule context noop (p, j) = (answer, p', j')) (calls : List RuleCall) :
    rule.recorded call context noop (p, j, calls) = (answer, p', j', calls ++ [call p p']) := by
  simp only [recorded, Action.noted, h]

theorem Rule.shadows_recorded (call : P → P → RuleCall) (rule : Rule κ σ P) (context : κ) :
    Rule.Shadows context (rule.recorded call) rule := .noted _ _

namespace Filter

/-- Without its record a pass that keeps one is the pass itself. -/
theorem applyRecorded_fst (f : Filter κ σ) (start : Ref) (t : Tree) (journal : σ) :
    (f.applyRecorded start t journal).1 = f.apply start t journal := by
  have hplain : f.applyRecorded start t journal = f.recorded.applyBy .plain start t journal [] := by
    rw [applyBy, walkBy_plain]
    rfl
  have hrules : f.recorded.Overlays f :=
    f.overlays_exchange (fun key rule => rule.shadows_recorded (.element key) f.context)
      fun rule => rule.shadows_recorded .text f.context
  rw [hplain]
  exact hrules.applyBy_fst Writers.plain_shadow start t journal []

end Filter

/-! ### From call to call -/

/-- Nothing is buffered for the element. -/
structure ElementProxy.Blank (p : ElementProxy) : Prop where
  fate : p.fate = .keep
  pendingName : p.pendingName = none
  overrides : p.overrides = []

/-- Nothing is buffered for the text. -/
structure TextProxy.Blank (p : TextProxy) : Prop where
  fate : p.fate = .keep
  pendingText : p.pendingText = none

/-- The calls lead from one tree and journal to another one. Each rule is given a proxy in which nothing is buffered,
of the tree that is left once the former call is persisted, and what the rule leaves is persisted in its turn. Beside
that only proxies in which nothing is buffered are persisted. -/
inductive Filter.Runs (f : Filter κ σ) : Tree × σ → List RuleCall → Tree × σ → Prop
  | done (s : Tree × σ) : f.Runs s [] s
  | idle {q q' : ElementProxy} {j : σ} {calls : List RuleCall} {s : Tree × σ} :
    q.Blank → ElementProxy.persist q = (.ok .proceed, q') → f.Runs (q'.tree, j) calls s → f.Runs (q.tree, j) calls s
  | element {key : String} {rule : ElementRule κ σ} {given left q : ElementProxy} {j j' : σ} {calls : List RuleCall}
      {s : Tree × σ} :
    f.rules.element? key = some rule → given.Blank → rule f.context Rule.noop (given, j) = (.ok (), left, j') →
      ElementProxy.persist left = (.ok .proceed, q) → f.Runs (q.tree, j') calls s →
      f.Runs (given.tree, j) (.element key given left :: calls) s
  | text {rule : TextRule κ σ} {given left q : TextProxy} {j j' : σ} {calls : List RuleCall} {s : Tree × σ} :
    f.rules.text = some rule → given.Blank → rule f.context Rule.noop (given, j) = (.ok (), left, j') →
      TextProxy.persist left = (.ok .proceed, q) → f.Runs (q.tree, j') calls s →
      f.Runs (given.tree, j) (.text given left :: calls) s

theorem Filter.Runs.append {f : Filter κ σ} {s s' s'' : Tree × σ} {calls calls' : List RuleCall}
    (h : f.Runs s calls s') (h' : f.Runs s' calls' s'') : f.Runs s (calls ++ calls') s'' := by
  induction h with
  | done => exact h'
  | idle hb hq _ ih => exact .idle hb hq (ih h')
  | element hr hb hrun hq _ ih => exact .element hr hb hrun hq (ih h')
  | text hr hb hrun hq _ ih => exact .text hr hb hrun hq (ih h')

end RichText
