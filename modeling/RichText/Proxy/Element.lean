import RichText.Namespaces
import RichText.Proxy.Node

/-!
Proxies of elements: buffered names and attributes.

Reading merges the buffered values with those of the live element; writing touches the buffer alone. When the
proxy is persisted, the buffer is written to the element, or the element is replaced by a new one where its
name or its namespace has to change.
-/

namespace RichText

/-- Moves all children of one node to the end of the child list of another. -/
def Tree.moveChildren (t : Tree) (source target : Ref) : Except TreeError Tree :=
  (t.children source).foldlM (fun t child => t.appendChild target (some child)) t

/-- The buffered changes of one element. -/
structure ElementProxy extends NodeProxy where
  namespaces : NamespaceTable
  /-- The name that the element is to have. -/
  pendingName : Option String := none
  /-- The attributes that were written, in the order of their first write; `none` marks a deletion. -/
  overrides : List (String × Option String) := []
  /-- The element that replaced the delegate of old. -/
  replacement : Ref := none
  deriving DecidableEq, Repr

namespace ElementProxy

/-- A proxy that may change its element. -/
def ofNode (tree : Tree) (delegate : Ref) (namespaces : NamespaceTable) : ElementProxy :=
  { NodeProxy.ofNode tree delegate with namespaces }

/-- A read-only proxy. -/
def readOnly (tree : Tree) (delegate : Ref) (namespaces : NamespaceTable) : ElementProxy :=
  { NodeProxy.readOnly tree delegate with namespaces }

/-- An operation on the node alone. -/
def onNode {α : Type} (action : ProxyM NodeProxy α) : ProxyM ElementProxy α := fun p =>
  let (answer, node) := action p.toNodeProxy
  (answer, { p with toNodeProxy := node })

/-! ### Reading -/

/-- The lower-cased tag of the live element. -/
def liveName (p : ElementProxy) : String := Text.lowerCase ((p.tree.tag? p.delegate).getD "")

/-- The name of the element: the buffered one, else the live one. -/
def currentName (p : ElementProxy) : String := p.pendingName.getD p.liveName

/-- The value of an attribute: the buffered one, else the live one. A deleted attribute has none. -/
def attribute? (p : ElementProxy) (key : String) : Option String :=
  match p.overrides.lookup key with
  | some value => value
  | none => p.tree.attribute? p.delegate key

/-- Whether an attribute has a value, buffered or live. -/
def hasAttribute (p : ElementProxy) (key : String) : Bool := (p.attribute? key).isSome

/-- Adds those keys to a list of names that have a value and are not in it yet. -/
def addNew (names : List String) : List (String × Option String) → List String
  | [] => names
  | (key, value) :: rest =>
    addNew (if value.isSome && key ∉ names then names ++ [key] else names) rest

/-- The names of the attributes: those of the live element in document order, then those that were added;
deleted ones are left out. -/
def attributeNames (p : ElementProxy) : List String :=
  addNew ((p.tree.attributeNames p.delegate).filter fun name => p.overrides.lookup name ≠ some none)
    p.overrides

/-! ### Buffering changes -/

/-- Buffers a new name, lower-cased. -/
def setName (name : String) : ProxyM ElementProxy Unit := do
  onNode (NodeProxy.requireMutable .setName)
  modify ({ · with pendingName := some (Text.lowerCase name) })

/-- Buffers the value of an attribute. -/
def setAttribute (key value : String) : ProxyM ElementProxy Unit := do
  onNode (NodeProxy.requireMutable .setAttribute)
  modify fun p => { p with overrides := Keyed.put key (some value) p.overrides }

/-- Buffers the deletion of an attribute. -/
def deleteAttribute (key : String) : ProxyM ElementProxy Unit := do
  onNode (NodeProxy.requireMutable .deleteAttribute)
  modify fun p => { p with overrides := Keyed.put key none p.overrides }

/-- Collapses several spellings of an attribute into the key `target`. The first of `target` and the aliases
that has a value wins; all other spellings are deleted. -/
def collapseAliases (target : String) (aliases : List String) : ProxyM ElementProxy (Option String) := do
  let value := (target :: aliases).findSome? (← get).attribute?
  for key in aliases do
    if key ≠ target then deleteAttribute key
  if let some value := value then setAttribute target value
  return value

/-! ### Writing to the tree -/

/-- The namespace that a buffered `xmlns` asks for. -/
def pendingNamespace (p : ElementProxy) : Option String := (p.overrides.lookup "xmlns").join

/-- Replaces the element by a new one with the given name, which takes over the merged attributes and all
children. Its namespace is the given one, else that of a buffered `xmlns`, else the default namespace. -/
def replaceBy (name : String) (space : Option String) : ProxyM ElementProxy Response := do
  onNode (NodeProxy.requireMutable .replaceElement)
  let p ← get
  let old := p.delegate
  let space := (space <|> p.pendingNamespace).getD p.tree.defaultNamespace
  let entries := p.attributeNames.map fun key => (key, p.attribute? key)
  let new ← onNode <| NodeProxy.edit do
    let new ← Tree.Edit.createElement space name
    Tree.Edit.writeAttributes p.namespaces (some new) entries
    Tree.Edit.ofExcept (·.moveChildren old (some new))
    Tree.Edit.ofExcept fun t =>
      if (t.parent old).isNone then .ok t else t.replaceChild (t.parent old) (some new) old
    return new
  modify ({ · with delegate := some new, replacement := some new })
  return .proceed

/-- Writes the buffered attributes. An element outside the default namespace, or with a buffered `xmlns`, is
replaced. -/
def persistAttributes : ProxyM ElementProxy Response := do
  let p ← get
  let foreign := (p.tree.namespace? p.delegate).getD "" ≠ p.tree.defaultNamespace
  if foreign || p.pendingNamespace.isSome then replaceBy p.currentName none
  else do
    onNode (NodeProxy.edit (Tree.Edit.writeAttributes p.namespaces p.delegate p.overrides))
    return .proceed

/-- Writes the buffered name and attributes, after which the buffer is empty. A new name replaces the
element. -/
def persistContent : ProxyM ElementProxy Response := do
  let name := (← get).pendingName
  modify ({ · with pendingName := none })
  let response ←
    match name with
    | some name => do
      if name ≠ (← get).liveName then replaceBy name none else persistAttributes
    | none => persistAttributes
  modify ({ · with overrides := [] })
  return response

/-- Writes all buffered changes to the tree. -/
def persist : ProxyM ElementProxy Response := do
  if !(← get).isMutable then return .proceed
  match ← onNode NodeProxy.settle with
  | some response => return response
  | none => persistContent

end ElementProxy

/-- A read-only proxy of the parent, if that is an element. -/
def NodeProxy.parentElement (p : NodeProxy) : Option ElementProxy :=
  match p.tree.parent p.delegate with
  | some parent =>
    if p.tree.kind? (some parent) = some .element then
      some (.readOnly p.tree (some parent) .standard)
    else none
  | none => none

end RichText
