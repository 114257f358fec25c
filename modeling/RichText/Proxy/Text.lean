import RichText.Proxy.Node

/-!
Proxies of text nodes: buffered text.
-/

namespace RichText

/-- The buffered changes of one text node. -/
structure TextProxy extends NodeProxy where
  /-- The text that the node is to have. -/
  pendingText : Option String := none
  deriving DecidableEq, Repr

namespace TextProxy

/-- A proxy that may change its text. -/
def ofNode (tree : Tree) (delegate : Ref) : TextProxy := { NodeProxy.ofNode tree delegate with }

/-- A read-only proxy. -/
def readOnly (tree : Tree) (delegate : Ref) : TextProxy := { NodeProxy.readOnly tree delegate with }

/-- An operation on the node alone. -/
def onNode {α : Type} (action : ProxyM NodeProxy α) : ProxyM TextProxy α := fun p =>
  let (answer, node) := action p.toNodeProxy
  (answer, { p with toNodeProxy := node })

/-- The text: the buffered one, else that of the live node. -/
def text (p : TextProxy) : String := p.pendingText.getD ((p.tree.text? p.delegate).getD "")

/-- Buffers a text. -/
def setText (text : String) : ProxyM TextProxy Unit := do
  onNode (NodeProxy.requireMutable .setTextContent)
  modify ({ · with pendingText := some text })

/-- Writes the buffered text if it differs from the live one. -/
def persistContent : ProxyM TextProxy Response := do
  let p ← get
  set { p with pendingText := none }
  if let some text := p.pendingText then
    if p.tree.text? p.delegate ≠ some text then
      onNode (NodeProxy.edit (.ofExcept (·.setText p.delegate text)))
  return .proceed

/-- Writes all buffered changes to the tree. -/
def persist : ProxyM TextProxy Response := do
  if !(← get).isMutable then return .proceed
  match ← onNode NodeProxy.settle with
  | some response => return response
  | none => persistContent

end TextProxy

end RichText
