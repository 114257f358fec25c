import RichText.Proxy.ClassList
import RichText.Proxy.Text

/-!
Filter rules and their composition.

A rule acts on one proxy. It is given a context that is the same for all rules of a pass, and the rule it was
layered over, which it runs itself or leaves out. Beside the proxy it may write to a journal `σ`, of which
nothing else takes notice.
-/

namespace RichText

/-- What runs during a pass: it fails with an `ε` or succeeds, and in both cases leaves a proxy of type `P` and
a journal. -/
abbrev Action (ε σ P : Type) := ExceptT ε (StateM (P × σ))

/-- What a rule does. -/
abbrev RuleM (σ P : Type) := Action FilterError σ P

/-- A rule: from a context and the rule below it to what it does. -/
abbrev Rule (κ σ P : Type) := κ → RuleM σ P Unit → RuleM σ P Unit

/-- A rule for elements. -/
abbrev ElementRule (κ σ : Type) := Rule κ σ ElementProxy

/-- A rule for text nodes. -/
abbrev TextRule (κ σ : Type) := Rule κ σ TextProxy

namespace Rule

variable {κ σ P : Type}

/-- A proxy's operation as what a rule does; the journal stays as it is. -/
def onProxy {α : Type} (action : ProxyM P α) : RuleM σ P α := fun (proxy, journal) =>
  let (answer, proxy) := action proxy
  (answer, proxy, journal)

/-- Doing nothing, which is what lies below a rule that is layered over no other. -/
def noop : RuleM σ P Unit := pure ()

/-- Layers `child` over `parent`. Only `child` runs, and may run `parent`, which in turn is layered over
nothing. -/
def chain (parent child : Rule κ σ P) : Rule κ σ P := fun context _ => child context (parent context noop)

/-- Runs actions in order up to the first that fails. -/
def inOrder {ε : Type} : List (Action ε σ P Unit) → Action ε σ P Unit
  | [] => pure ()
  | action :: rest => do action; inOrder rest

/-- Runs independent rules one after another on the same node. -/
def sequence : List (Rule κ σ P) → Rule κ σ P
  | [rule] => rule
  | rules => fun context parent => inOrder (rules.map fun rule => rule context parent)

/-! ### Rules ready for use -/

/-- Renames every element it meets. -/
def renameTo (name : String) : ElementRule κ σ := fun _ _ => onProxy (ElementProxy.setName name)

/-- Removes every element it meets, with all that is below it. -/
def removeElement : ElementRule κ σ := fun _ _ =>
  onProxy (ElementProxy.onNode (NodeProxy.setRemove true))

/-- Puts the children of every element it meets in its place. -/
def unwrapElement : ElementRule κ σ := fun _ _ =>
  onProxy (ElementProxy.onNode (NodeProxy.setReplaceByChildren true))

/-- Whether a node counts as content: an element does, and a text that is not all white space. -/
def isContent (tree : Tree) (node : Nat) : Bool :=
  match tree.data? (some node) with
  | some (.element ..) => true
  | some (.text content) => !Text.allBlank content
  | _ => false

/-- Removes every element it meets that has no content. It is meant to run after the children. -/
def removeIfEmpty : ElementRule κ σ := fun _ _ => do
  let (proxy, _) ← get
  if proxy.isEmptyBy isContent then onProxy (ElementProxy.onNode (NodeProxy.setRemove true))

end Rule

/-- Runs the stages of one visit in order and persists the proxy after each. Where a stage leaves nothing to
go on with, the visit ends with the node to restart at; else `finish` says where to go on. -/
def runStages {ε σ P : Type} (persist : Action ε σ P Response) (finish : Action ε σ P Ref) :
    List (Action ε σ P Unit) → Action ε σ P Ref
  | [] => finish
  | stage :: rest => do
    stage
    match ← persist with
    | .proceed => runStages persist finish rest
    | .stop => return none
    | .restart node => return some node

/-- Where the walk goes on after an element whose stages all ran: after its replacement, if it has one. -/
def ElementProxy.successor {ε σ : Type} : Action ε σ ElementProxy Ref := do
  let (proxy, _) ← get
  return proxy.replacement.bind fun new => proxy.tree.nextSibling (some new)

/-- Runs rules in order on an element and persists its proxy after each. The answer is the node at which the
walk has to go on, or `none` if it is the sibling that followed before. -/
def ElementProxy.applyRules {κ σ : Type} (context : κ) (rules : List (ElementRule κ σ)) :
    RuleM σ ElementProxy Ref :=
  runStages (Rule.onProxy persist) successor (rules.map fun rule => rule context Rule.noop)

/-- Runs rules in order on a text node and persists its proxy after each. -/
def TextProxy.applyRules {κ σ : Type} (context : κ) (rules : List (TextRule κ σ)) :
    RuleM σ TextProxy Ref :=
  runStages (Rule.onProxy persist) (pure none) (rules.map fun rule => rule context Rule.noop)

end RichText
