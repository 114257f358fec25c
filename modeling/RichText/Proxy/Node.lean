import RichText.Proxy.Basic
import RichText.Text.LowerCase
import RichText.Tree.Links

/-!
Proxies of single nodes.

A node proxy reads the live tree and records a fate. Nothing is written before `persist`, and a read-only
proxy never writes.
-/

namespace RichText

/-- Moves the children of a node to its own place and detaches it. A node without a parent stays as it is. -/
def Tree.unwrap (t : Tree) (r : Ref) : Except TreeError Tree :=
  if (t.parent r).isNone then .ok t
  else do
    let t ← (t.children r).foldlM
      (fun t' child => t'.insertBefore (t.parent r) (some child) (some r)) t
    t.detach r

/-- The buffered changes of one node of a tree. -/
structure NodeProxy where
  tree : Tree
  /-- The node; once an element is replaced, its replacement. -/
  delegate : Ref
  isMutable : Bool
  fate : Fate := .keep
  deriving DecidableEq, Repr

namespace NodeProxy

/-- A proxy that may change its node. -/
def ofNode (tree : Tree) (delegate : Ref) : NodeProxy := { tree, delegate, isMutable := true }

/-- A read-only proxy. -/
def readOnly (tree : Tree) (delegate : Ref) : NodeProxy := { tree, delegate, isMutable := false }

/-! ### Reading -/

/-- The name of the node: the lower-cased tag of an element, and a name of its own for every other kind. -/
def name (p : NodeProxy) : String :=
  match p.tree.content? p.delegate with
  | some (.element name _) => Text.lowerCase name.written
  | some (.text _) => "#text"
  | some (.comment _) => "#comment"
  | some .document => "#document"
  | some (.doctype name _ _) => name
  | some (.instruction target _) => target
  | none => ""

/-- Whether the node is the only child of its parent. -/
def isSingleton (p : NodeProxy) : Bool :=
  match p.tree.parent p.delegate with
  | some parent => (p.tree.children (some parent)).length == 1
  | none => false

/-- Whether the node has no children. -/
def isEmpty (p : NodeProxy) : Bool := (p.tree.firstChild p.delegate).isNone

/-- Whether no child counts as content. -/
def isEmptyBy (p : NodeProxy) (counts : Tree → Nat → Bool) : Bool :=
  !(p.tree.children p.delegate).any (counts p.tree)

/-- The first child that meets a condition. -/
def findFirst (p : NodeProxy) (condition : Tree → Nat → Bool) : Option Nat :=
  (p.tree.children p.delegate).find? (condition p.tree)

/-- Whether the node has no sibling after it. -/
def isLast (p : NodeProxy) : Bool := (p.tree.nextSibling p.delegate).isNone

/-- A read-only proxy of the parent. -/
def parentNode (p : NodeProxy) : Option NodeProxy :=
  (p.tree.parent p.delegate).map fun parent => readOnly p.tree (some parent)

/-! ### Recording a fate -/

/-- Refuses an operation on a read-only proxy. -/
def requireMutable (operation : Operation) : ProxyM NodeProxy Unit := do
  if !(← get).isMutable then throw (.immutable operation)

/-- Records a fate, or takes it back if it is the one recorded. -/
def toggle (fate : Fate) (on : Bool) (operation : Operation) : ProxyM NodeProxy Unit := do
  requireMutable operation
  modify fun p =>
    if on then { p with fate } else if p.fate = fate then { p with fate := .keep } else p

/-- Records, or takes back, that the node is to go with all that is below it. -/
def setRemove (on : Bool) : ProxyM NodeProxy Unit := toggle .remove on .setRemove

/-- Records, or takes back, that the children are to go. -/
def setRemoveChildren (on : Bool) : ProxyM NodeProxy Unit := toggle .clear on .setRemoveChildren

/-- Records, or takes back, that the children are to take the node's place. -/
def setReplaceByChildren (on : Bool) : ProxyM NodeProxy Unit := toggle .unwrap on .setReplaceByChildren

/-! ### Writing to the tree -/

/-- Edits the tree under a proxy. -/
def edit {α : Type} (action : Tree.Edit α) : ProxyM NodeProxy α := fun p =>
  let (answer, tree) := action p.tree
  (answer.mapError FilterError.tree, { p with tree })

/-- Carries out the fate of the node. The answer is `none` if the node stays, so that its other changes are
still to be written. -/
def settle : ProxyM NodeProxy (Option Response) := do
  let p ← get
  match p.fate with
  | .keep => return none
  | .remove => do
    edit (.ofExcept (·.detach p.delegate))
    return some .stop
  | .unwrap => do
    edit (.ofExcept (·.unwrap p.delegate))
    match p.tree.firstChild p.delegate with
    | some child => return some (.restart child)
    | none => return some .stop
  | .clear => do
    edit (.ofExcept (·.removeChildren p.delegate))
    return none

/-- Writes the recorded fate to the tree. -/
def persist : ProxyM NodeProxy Response := do
  if !(← get).isMutable then return .proceed
  return (← settle).getD .proceed

end NodeProxy

end RichText
