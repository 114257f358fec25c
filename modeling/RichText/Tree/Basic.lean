import RichText.Symbols

/-!
Document trees, kept as an arena of linked nodes.

A node is known by its place in the arena, which never shrinks: a node that leaves the document keeps its
number. Node 0 is the document. This module holds the data of nodes, the arena and what can be read from it;
`Tree.Links` moves nodes, `Tree.Attributes` writes their data.
-/

namespace RichText

/-- One attribute of an element. -/
structure Attribute (σ : Type) where
  name : QualifiedName σ
  value : String
  deriving DecidableEq, Repr, Inhabited

/-- What a node is, apart from its place. `σ` is the kind of string its names are made of. -/
inductive NodeData (σ : Type) where
  | document
  | doctype (name publicId systemId : String)
  | element (name : QualifiedName σ) (attributes : List (Attribute σ))
  | text (content : String)
  | comment (content : String)
  | instruction (target content : String)
  deriving DecidableEq, Repr, Inhabited

/-- The kinds of nodes. -/
inductive NodeKind where
  | document
  | doctype
  | element
  | text
  | comment
  | instruction
  deriving DecidableEq, Repr

namespace NodeData

/-- Applies a function to every string that is part of a name. -/
def map {σ τ : Type} (f : σ → τ) : NodeData σ → NodeData τ
  | document => .document
  | doctype name publicId systemId => .doctype name publicId systemId
  | element name attributes => .element (name.map f) (attributes.map fun a => ⟨a.name.map f, a.value⟩)
  | text content => .text content
  | comment content => .comment content
  | instruction target content => .instruction target content

/-- The kind of node. -/
def kind {σ : Type} : NodeData σ → NodeKind
  | document => .document
  | doctype .. => .doctype
  | element .. => .element
  | text _ => .text
  | comment _ => .comment
  | instruction .. => .instruction

/-- The attributes of an element; no other node has any. -/
def attributes {σ : Type} : NodeData σ → List (Attribute σ)
  | element _ attributes => attributes
  | _ => []

/-- The name of an element. -/
def name? {σ : Type} : NodeData σ → Option (QualifiedName σ)
  | element name _ => some name
  | _ => none

/-- The content of a text node. -/
def text? {σ : Type} : NodeData σ → Option String
  | text content => some content
  | _ => none

end NodeData

/-- A node of some tree by its number, or no node at all. -/
abbrev Ref := Option Nat

/-- How messages show a node. -/
def Ref.shown : Ref → String
  | some id => s!"#{id}"
  | none => "#none"

/-- A node of the arena with its links; `none` is the missing neighbour. -/
structure Node where
  parent : Ref := none
  prev : Ref := none
  next : Ref := none
  first : Ref := none
  last : Ref := none
  data : NodeData Symbol
  deriving DecidableEq, Repr, Inhabited

/-- Why an edit of a tree is refused. -/
inductive TreeError where
  /-- The node is not in the arena, or not of the kind that can be written to. -/
  | notFound (node : Ref)
  /-- The child is the parent itself or one of its ancestors. -/
  | hierarchy (parent child : Ref)
  /-- The node is not a child of the given parent. -/
  | notAChild (parent child : Ref)
  /-- Attributes were written to a node that is no element. -/
  | notAnElement (node : Ref)
  deriving DecidableEq, Repr

/-- The text of an error. -/
def TreeError.message : TreeError → String
  | notFound node => s!"Node {Ref.shown node} not found"
  | hierarchy parent child =>
    s!"Hierarchy request error: cannot insert {Ref.shown child} into {Ref.shown parent}"
  | notAChild parent child => s!"Node {Ref.shown child} is not a child of {Ref.shown parent}"
  | notAnElement node => s!"Node {Ref.shown node} is not an element"

/-- A document tree: the arena of its nodes and the strings of its names. -/
structure Tree where
  nodes : Array Node
  symbols : SymbolTable
  deriving DecidableEq, Repr, Inhabited

namespace Tree

/-- A tree that holds the document node alone. -/
def empty : Tree := ⟨#[{ data := .document }], .initial⟩

/-- The document node. -/
def root : Ref := some 0

/-- Number of nodes in the arena, attached or not. -/
def size (t : Tree) : Nat := t.nodes.size

/-! ### Reading nodes -/

/-- The node with this number. -/
def node? (t : Tree) (r : Ref) : Option Node := r.bind (t.nodes[·]?)

/-- The node of whose child list this one is part. -/
def parent (t : Tree) (r : Ref) : Ref := (t.node? r).bind Node.parent

/-- The first node of the child list. -/
def firstChild (t : Tree) (r : Ref) : Ref := (t.node? r).bind Node.first

/-- The last node of the child list. -/
def lastChild (t : Tree) (r : Ref) : Ref := (t.node? r).bind Node.last

/-- The node right after this one in the same child list. -/
def nextSibling (t : Tree) (r : Ref) : Ref := (t.node? r).bind Node.next

/-- The node right before this one in the same child list. -/
def prevSibling (t : Tree) (r : Ref) : Ref := (t.node? r).bind Node.prev

/-- The nodes met by following sibling links from `r`, at most `fuel` many. -/
def siblingsFrom (t : Tree) : Nat → Ref → List Nat
  | fuel + 1, some id => id :: t.siblingsFrom fuel (t.nextSibling (some id))
  | _, _ => []

/-- The children of a node in order. No child list is longer than the arena. -/
def children (t : Tree) (r : Ref) : List Nat := t.siblingsFrom t.size (t.firstChild r)

/-- The nodes met by following parent links from `r`, at most `fuel` many, `r` first. -/
def pathFrom (t : Tree) : Nat → Ref → List Nat
  | fuel + 1, some id => id :: t.pathFrom fuel (t.parent (some id))
  | _, _ => []

/-- A node and its ancestors, innermost first. No path through the arena
is longer than the arena, and an unknown node has itself alone. -/
def ancestorsOrSelf (t : Tree) (r : Ref) : List Nat := t.pathFrom t.size r

/-- Whether `ancestor` is `node` itself or one of its ancestors. The missing node has none. -/
def isAncestorOrSelf (t : Tree) (ancestor node : Ref) : Bool :=
  (t.ancestorsOrSelf node).any fun id => some id == ancestor

/-! ### Reading data -/

/-- The data of a node, with names as symbols. -/
def data? (t : Tree) (r : Ref) : Option (NodeData Symbol) := (t.node? r).map Node.data

/-- The data of a node, with names in plain strings. -/
def content? (t : Tree) (r : Ref) : Option (NodeData String) :=
  (t.data? r).map (NodeData.map t.symbols.resolve)

/-- The kind of a node. -/
def kind? (t : Tree) (r : Ref) : Option NodeKind := (t.data? r).map NodeData.kind

/-- The name of an element. -/
def name? (t : Tree) (r : Ref) : Option Name := (t.content? r).bind NodeData.name?

/-- The tag of an element as it is stored: the written form of its name. -/
def tag? (t : Tree) (r : Ref) : Option String := (t.name? r).map QualifiedName.written

/-- The local part of an element's name. -/
def localName? (t : Tree) (r : Ref) : Option String := (t.name? r).map QualifiedName.localPart

/-- The namespace of an element. -/
def namespace? (t : Tree) (r : Ref) : Option String := (t.name? r).map QualifiedName.space

/-- The content of a text node. -/
def text? (t : Tree) (r : Ref) : Option String := (t.data? r).bind NodeData.text?

/-- The attributes of an element in document order; other nodes have none. -/
def attributes (t : Tree) (r : Ref) : List (Attribute String) :=
  ((t.content? r).map NodeData.attributes).getD []

/-- The written names of an element's attributes in document order. -/
def attributeNames (t : Tree) (r : Ref) : List String := (t.attributes r).map (·.name.written)

/-- The value of the first attribute with this written name. -/
def attribute? (t : Tree) (r : Ref) (written : String) : Option String :=
  ((t.attributes r).find? (·.name.written == written)).map Attribute.value

/-- The symbols of a namespace and a local part; `none` if one of them stands for nothing yet. -/
def findSymbols? (t : Tree) (space localPart : String) : Option (Symbol × Symbol) :=
  match t.symbols.find? space, t.symbols.find? localPart with
  | some s, some l => some (s, l)
  | _, _ => none

/-- The attributes of an element, with names as symbols. -/
def symbolicAttributes (t : Tree) (r : Ref) : List (Attribute Symbol) :=
  ((t.data? r).map NodeData.attributes).getD []

/-- The value of the attribute with this namespace and local part. -/
def attributeNS? (t : Tree) (r : Ref) (space localPart : String) : Option String := do
  let (s, l) ← t.findSymbols? space localPart
  let a ← (t.symbolicAttributes r).find? fun a => a.name.space == s && a.name.localPart == l
  return a.value

/-- The document element: the first element among the children of the document. -/
def documentElement (t : Tree) : Ref :=
  (t.children root).find? fun id => t.kind? (some id) == some .element

/-- The namespace of the document element, in which new elements are made. -/
def defaultNamespace (t : Tree) : String := (t.namespace? t.documentElement).getD ""

/-! ### New nodes -/

/-- Adds a detached node to the arena. -/
def push (t : Tree) (data : NodeData Symbol) : Nat × Tree :=
  (t.size, { t with nodes := t.nodes.push { data } })

/-- Adds a detached element without attributes. -/
def createElement (t : Tree) (space written : String) : Nat × Tree :=
  let (name, symbols) := t.symbols.internName (.ofWritten space written)
  { t with symbols }.push (.element name [])

/-- Changes one node; an unknown node changes nothing. -/
def update (t : Tree) (r : Ref) (f : Node → Node) : Tree :=
  match r with
  | some id => { t with nodes := t.nodes.modify id f }
  | none => t

end Tree

end RichText
