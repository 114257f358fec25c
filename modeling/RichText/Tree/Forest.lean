import RichText.Tree.Links
import RichText.Tree.Attributes

/-!
Ordered forests: what stands below a node, as a value of its own.

A tree's links are read into a forest of node numbers, from which the forest of their contents follows.
Printing, text extraction and copying are structural recursions on that value. `plant` goes the other way and
adds a forest to a tree.
-/

namespace RichText

/-- An ordered forest: its first tree, given by a label and the forest below it, and its further trees. -/
inductive Forest (α : Type) where
  | nil
  | node (label : α) (below rest : Forest α)
  deriving DecidableEq, Repr, Inhabited

/-- The content of a node, with names in plain strings. -/
abbrev Content := NodeData String

namespace Forest

variable {α β : Type}

/-- Applies a function to every label. -/
def map (f : α → β) : Forest α → Forest β
  | nil => nil
  | node label below rest => .node (f label) (below.map f) (rest.map f)

/-- The labels in document order: every node before what is below it, and that before its siblings. -/
def toList : Forest α → List α
  | nil => []
  | node label below rest => label :: (below.toList ++ rest.toList)

/-- The trees of one forest, then those of another. -/
def append : Forest α → Forest α → Forest α
  | nil, other => other
  | node label below rest, other => .node label below (rest.append other)

instance : Append (Forest α) := ⟨append⟩

/-- Number of nodes. -/
def size : Forest α → Nat
  | nil => 0
  | node _ below rest => below.size + rest.size + 1

theorem length_toList (f : Forest α) : f.toList.length = f.size := by
  induction f with
  | nil => rfl
  | node label below rest ihb ihr => simp [toList, size, ihb, ihr]

theorem toList_map (g : α → β) (f : Forest α) : (f.map g).toList = f.toList.map g := by
  induction f with
  | nil => rfl
  | node label below rest ihb ihr => simp [map, toList, ihb, ihr]

theorem toList_append (f g : Forest α) : (f ++ g).toList = f.toList ++ g.toList := by
  show (f.append g).toList = _
  induction f with
  | nil => rfl
  | node label below rest _ ihr => simp [append, toList, ihr]

/-- The texts of a forest in document order. Nothing below a text node counts. -/
def text : Forest Content → String
  | nil => ""
  | node (.text content) _ rest => content ++ rest.text
  | node _ below rest => below.text ++ rest.text

end Forest

namespace Tree

/-- The forest of `r`, its following siblings and all that is below them, at most `fuel` links deep. -/
def forestFrom (t : Tree) : Nat → Ref → Forest Nat
  | fuel + 1, some id =>
    .node id (t.forestFrom fuel (t.firstChild (some id))) (t.forestFrom fuel (t.nextSibling (some id)))
  | _, _ => .nil

/-- The nodes below `r`. No chain of links in the arena is longer than the arena. -/
def below (t : Tree) (r : Ref) : Forest Nat := t.forestFrom t.size (t.firstChild r)

/-- The content of a node; an unknown node counts as an empty text. -/
def contentOf (t : Tree) (id : Nat) : Content := (t.content? (some id)).getD (.text "")

/-- The contents of the nodes below `r`. -/
def contentBelow (t : Tree) (r : Ref) : Forest Content := (t.below r).map t.contentOf

/-- A node and all that is below it; nothing for an unknown node. -/
def branch (t : Tree) (r : Ref) : Forest Content :=
  match t.content? r with
  | some content => .node content (t.contentBelow r) .nil
  | none => .nil

/-- The texts of a node and of all that is below it, in document order. -/
def textContent (t : Tree) (r : Ref) : String := (t.branch r).text

namespace Edit

/-- Adds a detached node with the given content, and with the names as they are. -/
def copy (content : Content) : Edit Nat := do
  match content with
  | .element name attributes => do
    let name ← internName name
    let attributes ← attributes.mapM fun a => return ⟨← internName a.name, a.value⟩
    modifyGet (·.push (.element name attributes))
  | .document => modifyGet (·.push .document)
  | .doctype name publicId systemId => modifyGet (·.push (.doctype name publicId systemId))
  | .text content => modifyGet (·.push (.text content))
  | .comment content => modifyGet (·.push (.comment content))
  | .instruction target content => modifyGet (·.push (.instruction target content))

/-- Adds a detached node with the given content, reading the names from their written forms: an element's
name is split at its first colon, and so is that of an attribute in a namespace; any other attribute is
plain. -/
def make (content : Content) : Edit Nat := do
  match content with
  | .element name attributes => do
    let id ← createElement name.space name.written
    for a in attributes do
      if a.name.space = "" then setAttribute (some id) a.name.written a.value
      else setAttributeNS (some id) a.name.space a.name.written a.value
    return id
  | other => copy other

/-- Adds the trees of a forest after the last child of `parent`, node by node in document order. `create`
makes the single nodes. -/
def plant (create : Content → Edit Nat) (parent : Ref) : Forest Content → Edit Unit
  | .nil => pure ()
  | .node content below rest => do
    let id ← create content
    plant create (some id) below
    ofExcept fun t => t.appendChild parent (some id)
    plant create parent rest

/-- Copies a node of another tree with all that is below it. The copy is detached, and its nodes take the
next numbers in document order. -/
def copyFrom (source : Tree) (r : Ref) : Edit Nat := do
  match source.content? r with
  | none => throw (.notFound r)
  | some content => do
    let id ← copy content
    plant copy (some id) (source.contentBelow r)
    return id

/-- Copies the children of a node of another tree to the end of the child list of `parent`. -/
def copyChildren (source : Tree) (container parent : Ref) : Edit Unit :=
  plant copy parent (source.contentBelow container)

end Edit

/-- The tree whose document holds a forest, with numbers in document order. -/
def ofForest (forest : Forest Content) : Tree := (Edit.plant Edit.make root forest empty).2

end Tree

end RichText
