import RichText.RuleSet

/-!
Filtering: one pass of a rule set over a tree.

The pass visits what is below a start node, depth first. Each element and each text node is given to its
rules through a proxy, and its children are one more stage between the rules. After a visit the walk goes on
where the visit says, else at the sibling that followed before it: nodes that took the place of an unwrapped
element are visited in their turn. The first error ends the pass, and the tree keeps what was written so far.
-/

namespace RichText

/-- A rule set with what its pass needs. -/
structure Filter (κ σ : Type) where
  rules : RuleSet κ σ
  /-- The prefixes that are resolved when attributes are written. -/
  namespaces : NamespaceTable := .standard
  /-- What every rule is given. -/
  context : κ

/-- Why a pass ended early. -/
inductive Halt where
  /-- The bound on the length of the walk was too small. -/
  | outOfFuel
  | failed (error : FilterError)
  deriving DecidableEq, Repr

/-- A pass or a part of it: it acts on a tree and on the journal of the rules. -/
abbrev Pass (σ : Type) := Action Halt σ Tree

namespace Filter

variable {κ σ : Type}

/-- What a rule does, as a stage of a visit. -/
def stage {P α : Type} (action : RuleM σ P α) : Action Halt σ P α := ExceptT.adapt .failed action

/-- A part of the pass on the tree under an element's proxy, as a stage of its visit. -/
def onTree (part : Ref → Pass σ Unit) : Action Halt σ ElementProxy Unit := fun (proxy, journal) =>
  let (answer, tree, journal) := part proxy.delegate (proxy.tree, journal)
  (answer, { proxy with tree }, journal)

/-- A visit to an element. `descend` walks the children of a node. -/
def visitElement (f : Filter κ σ) (descend : Ref → Pass σ Unit) (element : Nat) : Pass σ Ref :=
  fun (tree, journal) =>
    let proxy := ElementProxy.ofNode tree (some element) f.namespaces
    let run (rule : ElementRule κ σ) := stage (rule f.context Rule.noop)
    let stages := (f.rules.opening proxy.currentName).map run ++ onTree descend :: f.rules.closing.map run
    let (answer, proxy, journal) :=
      runStages (stage (Rule.onProxy ElementProxy.persist)) ElementProxy.successor stages (proxy, journal)
    (answer, proxy.tree, journal)

/-- A visit to a text node. -/
def visitText (f : Filter κ σ) (text : Nat) : Pass σ Ref := fun (tree, journal) =>
  match f.rules.text with
  | none => (.ok none, tree, journal)
  | some rule =>
    let (answer, proxy, journal) :=
      stage (TextProxy.applyRules f.context [rule]) (TextProxy.ofNode tree (some text), journal)
    (answer, proxy.tree, journal)

/-- A visit to any node, with the node at which the walk goes on. -/
def visit (f : Filter κ σ) (descend : Ref → Pass σ Unit) (node : Nat) : Pass σ Ref := do
  let (tree, _) ← get
  let following := tree.nextSibling (some node)
  let restart ←
    match tree.kind? (some node) with
    | some .element => f.visitElement descend node
    | some .text => f.visitText node
    | _ => pure none
  return restart <|> following

/-- Visits `node` and all that comes after it below the same parent. Each visit and each descent takes one
from `fuel`. -/
def walk (f : Filter κ σ) : Nat → Ref → Pass σ Unit
  | _, none => pure ()
  | 0, some _ => throw .outOfFuel
  | fuel + 1, some node => do
    let next ← f.visit
      (fun parent => do
        let (tree, _) ← get
        f.walk fuel (tree.firstChild parent))
      node
    f.walk fuel next

/-- Filters all that is below `start`, which itself is not visited. The nodes ahead of the walk become fewer
with every visit, so the size of the arena bounds the walk. -/
def run (f : Filter κ σ) (start : Ref) : Pass σ Unit := do
  let (tree, _) ← get
  f.walk tree.size (tree.firstChild start)

/-- Filters a tree. -/
def apply (f : Filter κ σ) (start : Ref) (tree : Tree) (journal : σ) : Except Halt Unit × Tree × σ :=
  f.run start (tree, journal)

/-- A summary of the filter: its rule set and its namespace table. -/
def summary (f : Filter κ σ) : String :=
  let entry := fun (nsPrefix, uri) => "(" ++ Text.quote nsPrefix ++ ", " ++ Text.quote uri ++ ")"
  "HtmlFilter \x7b rules: " ++ f.rules.summary
    ++ ", options: FilterOptions \x7b namespaces: NamespaceTable \x7b entries: ["
    ++ ", ".intercalate (f.namespaces.entries.map entry) ++ "] \x7d \x7d, .. \x7d"

end Filter

end RichText
