import RichText.Html.Element
import RichText.Html.Token
import RichText.Tree.Forest

/-!
The draft of a document: the tree read so far, with the elements that are still open.

This module holds the state of reading and the operations on it that several kinds of content share: where
new nodes go, which elements are closed, and which formatting is taken up again.
-/

namespace RichText.Html

/-- Which part of a document is being read. -/
inductive Mode where
  | initial
  | beforeHtml
  | beforeHead
  | inHead
  | afterHead
  | inBody
  | text
  | inTable
  | inTableText
  | inCaption
  | inColumnGroup
  | inTableBody
  | inRow
  | inCell
  | inSelect
  | inSelectInTable
  | inTemplate
  | afterBody
  | inFrameset
  | afterFrameset
  | afterAfterBody
  | afterAfterFrameset
  deriving DecidableEq, Repr

/-- A document that is being read. -/
structure Draft where
  tree : Tree := .empty
  mode : Mode := .initial
  /-- The mode to go back to after raw text or the text of a table. -/
  returnMode : Mode := .initial
  /-- The modes of the open templates, innermost first. -/
  templateModes : List Mode := []
  /-- The open elements, innermost first. -/
  stack : List Element := []
  /-- The formatting that is in force, latest first; `none` is a boundary that it does not cross. -/
  formatting : List (Option Element) := []
  head : Option Nat := none
  form : Option Nat := none
  /-- Whether a frameset may still take the place of the body. -/
  framesetOk : Bool := true
  /-- Whether the document follows the rules of old. -/
  oldRules : Bool := false
  /-- Whether content is to be moved out of tables. -/
  fostering : Bool := false
  /-- Whether a line feed at the start of the next text is dropped. -/
  skipNewline : Bool := false
  /-- The text read in a table, latest first. -/
  tableText : List Token := []
  reading : TextMode := .content

/-- Where a new node goes. -/
inductive Place where
  /-- After the last child of a node. -/
  | inside (parent : Nat)
  /-- Before a sibling. -/
  | before (sibling : Nat)
  deriving DecidableEq, Repr

namespace Draft

/-! ### Nodes -/

/-- Takes over an edit of the tree; an edit that is refused changes nothing. -/
def edited (d : Draft) : Except TreeError Tree → Draft
  | .ok tree => { d with tree }
  | .error _ => d

/-- Adds a detached node. -/
def create (d : Draft) (content : Content) : Nat × Draft :=
  (d.tree.size, { d with tree := (Tree.Edit.copy content d.tree).2 })

/-- The innermost open element. -/
def current? (d : Draft) : Option Element := d.stack.head?

/-- Whether the innermost open element is the HTML element with this tag. -/
def atElement (d : Draft) (tag : String) : Bool := d.current?.any (·.is tag)

/-- Whether the innermost open element is an HTML element with one of these tags. -/
def atOneOf (d : Draft) (tags : List String) : Bool := d.current?.any (·.isOneOf tags)

/-- Whether an HTML element with this tag is open. -/
def hasOpen (d : Draft) (tag : String) : Bool := d.stack.any (·.is tag)

/-- Where content goes that has no place in a table: before the table, or into the innermost template if that
is opened later. The elements are the open ones, innermost first. -/
def fosterPlace (d : Draft) : List Element → Place
  | [] => .inside 0
  | [e] => .inside e.id
  | e :: outer :: rest =>
    if e.is "template" then .inside e.id
    else if e.is "table" then
      if (d.tree.parent (some e.id)).isSome then .before e.id else .inside outer.id
    else d.fosterPlace (outer :: rest)

/-- Where a new node goes that is meant for `target`. -/
def placeFor (d : Draft) (target : Element) : Place :=
  if d.fostering && target.isOneOf tableParts then d.fosterPlace d.stack else .inside target.id

/-- Where a new node goes. -/
def place (d : Draft) : Place :=
  match d.current? with
  | some e => d.placeFor e
  | none => .inside 0

/-- Puts a node at a place, taking it away from where it is. -/
def put (d : Draft) (place : Place) (node : Nat) : Draft :=
  match place with
  | .inside parent => d.edited (d.tree.appendChild (some parent) (some node))
  | .before sibling =>
    d.edited (d.tree.insertBefore (d.tree.parent (some sibling)) (some node) (some (some sibling)))

/-- Puts text at a place. Text joins a text node right before it. -/
def putText (d : Draft) (place : Place) (text : List Char) : Draft :=
  let previous :=
    match place with
    | .inside parent => d.tree.lastChild (some parent)
    | .before sibling => d.tree.prevSibling (some sibling)
  match d.tree.text? previous with
  | some content => d.edited (d.tree.setText previous (content ++ String.ofList text))
  | none =>
    let (id, d) := d.create (.text (String.ofList text))
    d.put place id

/-- Puts text where new nodes go. -/
def insertText (d : Draft) (text : List Char) : Draft := d.putText d.place text

/-- Puts a comment where new nodes go. -/
def insertComment (d : Draft) (content : String) : Draft :=
  let place := d.place
  let (id, d) := d.create (.comment content)
  d.put place id

/-- Puts a comment after the last child of a node. -/
def appendComment (d : Draft) (parent : Nat) (content : String) : Draft :=
  let (id, d) := d.create (.comment content)
  d.put (.inside parent) id

/-- The attributes of a tag; none of them has a namespace. -/
def plainAttributes (tag : Tag) : List (Attribute String) :=
  tag.attributes.map fun (name, value) => ⟨⟨"", "", name⟩, value⟩

/-- Adds a detached element. -/
def createElement (d : Draft) (space tag : String) (attributes : List (Attribute String)) :
    Element × Draft :=
  let (id, d) := d.create (.element ⟨space, "", tag⟩ attributes)
  (⟨id, space, tag, attributes⟩, d)

/-- Puts a new element where new nodes go, and opens it. -/
def insertElement (d : Draft) (space tag : String) (attributes : List (Attribute String)) :
    Element × Draft :=
  let place := d.place
  let (e, d) := d.createElement space tag attributes
  let d := d.put place e.id
  (e, { d with stack := e :: d.stack })

/-- Opens a new HTML element for a tag. -/
def insert (d : Draft) (tag : Tag) : Draft :=
  (d.insertElement Uri.xhtml tag.name (plainAttributes tag)).2

/-- Opens a new HTML element without attributes. -/
def insertBare (d : Draft) (tag : String) : Draft := d.insert { name := tag }

/-- Closes the innermost open element. -/
def pop (d : Draft) : Draft := { d with stack := d.stack.tail }

/-- Puts a new HTML element for a tag, without opening it. -/
def insertClosed (d : Draft) (tag : Tag) : Draft := (d.insert tag).pop

/-- Adds those attributes of a tag to an element that it does not have yet. -/
def addAttributes (d : Draft) (element : Nat) (tag : Tag) : Draft :=
  tag.attributes.foldl (fun d (name, value) =>
    if (d.tree.attribute? (some element) name).isSome then d
    else { d with tree := (Tree.Edit.setAttribute (some element) name value d.tree).2 }) d

/-! ### Closing elements -/

/-- Closes elements up to and with the first that is wanted. -/
def closeThrough (wanted : Element → Bool) : List Element → List Element
  | [] => []
  | e :: rest => if wanted e then rest else closeThrough wanted rest

/-- Closes elements up to and with the HTML element with this tag. -/
def popThrough (d : Draft) (tag : String) : Draft := { d with stack := closeThrough (·.is tag) d.stack }

/-- Closes elements up to and with an HTML element with one of these tags. -/
def popThroughOneOf (d : Draft) (tags : List String) : Draft :=
  { d with stack := closeThrough (·.isOneOf tags) d.stack }

/-- Closes elements up to an HTML element with one of these tags, which stays open. -/
def popTo (d : Draft) (tags : List String) : Draft :=
  { d with stack := d.stack.dropWhile fun e => !e.isOneOf tags }

/-- Closes elements whose end tags are implied, except those with the tag `kept`. -/
def closeImplied (d : Draft) (kept : String) : Draft :=
  { d with stack := d.stack.dropWhile fun e => e.isOneOf impliedTags && !e.is kept }

/-- Closes an element whose end tag is met, with all that is open within it. -/
def close (d : Draft) (tag : String) : Draft := (d.closeImplied "").popThrough tag

/-- Whether an HTML element with this tag is open within a scope. -/
def isInScope (d : Draft) (boundary : Element → Bool) (tag : String) : Bool :=
  hasInScope boundary (·.is tag) d.stack

/-- Whether an HTML element with one of these tags is open within a scope. -/
def isOneInScope (d : Draft) (boundary : Element → Bool) (tags : List String) : Bool :=
  hasInScope boundary (·.isOneOf tags) d.stack

/-- Closes an open paragraph. -/
def closeParagraph (d : Draft) : Draft :=
  if d.isInScope inButton "p" then (d.closeImplied "p").popThrough "p" else d

/-! ### Formatting -/

/-- Marks a boundary that formatting does not cross. -/
def pushBoundary (d : Draft) : Draft := { d with formatting := none :: d.formatting }

/-- Forgets the formatting up to and with the latest boundary. -/
def clearFormatting (d : Draft) : Draft :=
  { d with formatting := (d.formatting.dropWhile Option.isSome).tail }

/-- The formatting since the latest boundary, latest first. -/
def recentFormatting (d : Draft) : List Element := (d.formatting.takeWhile Option.isSome).filterMap id

/-- Whether a node is among the open elements. -/
def isOpen (d : Draft) (id : Nat) : Bool := d.stack.any (·.id == id)

/-- Removes an element from the formatting in force. -/
def dropFormatting (d : Draft) (id : Nat) : Draft :=
  { d with formatting := d.formatting.filter fun entry => !entry.any (·.id == id) }

/-- Removes an element from the open ones. -/
def dropOpen (d : Draft) (id : Nat) : Draft := { d with stack := d.stack.filter (·.id != id) }

/-- Puts one element in the place of another in the formatting in force. -/
def exchangeFormatting (d : Draft) (old : Nat) (new : Element) : Draft :=
  { d with formatting := d.formatting.map fun entry => if entry.any (·.id == old) then some new else entry }

/-- Takes up again the formatting whose elements were closed by others. -/
def reopenFormatting (d : Draft) : Draft :=
  let closed := d.recentFormatting.takeWhile fun e => !d.isOpen e.id
  closed.reverse.foldl (fun d e =>
    let (new, d) := d.insertElement e.space e.tag e.attributes
    d.exchangeFormatting e.id new) d

/-- Whether two elements have the same tag and the same attributes in any order. -/
def sameFormatting (a b : Element) : Bool :=
  a.space == b.space && a.tag == b.tag && a.attributes.length == b.attributes.length
    && a.attributes.all b.attributes.contains

/-- Opens a formatting element and puts its formatting in force. Of more than three alike, the earliest is
forgotten. -/
def insertFormatting (d : Draft) (tag : Tag) : Draft :=
  let new : Element := ⟨0, Uri.xhtml, tag.name, plainAttributes tag⟩
  let alike := d.recentFormatting.filter (sameFormatting new)
  let d := if alike.length ≥ 3 then (alike.getLast?.map fun e => d.dropFormatting e.id).getD d else d
  let (e, d) := d.insertElement new.space new.tag new.attributes
  { d with formatting := some e :: d.formatting }

/-! ### Modes -/

/-- Reads the content of an element as text of the given kind. -/
def readText (d : Draft) (tag : Tag) (reading : TextMode) : Draft :=
  let d := d.insert tag
  { d with reading, returnMode := d.mode, mode := .text }

/-- The mode that the open elements ask for, innermost first. -/
def modeFor (d : Draft) : List Element → Mode
  | [] => .inBody
  | e :: rest =>
    if e.is "select" then
      match rest.find? (·.isOneOf ["template", "table"]) with
      | some outer => if outer.is "table" then .inSelectInTable else .inSelect
      | none => .inSelect
    else if e.isOneOf ["td", "th"] && !rest.isEmpty then .inCell
    else if e.is "tr" then .inRow
    else if e.isOneOf ["tbody", "thead", "tfoot"] then .inTableBody
    else if e.is "caption" then .inCaption
    else if e.is "colgroup" then .inColumnGroup
    else if e.is "table" then .inTable
    else if e.is "template" then d.templateModes.headD .inBody
    else if e.is "head" && !rest.isEmpty then .inHead
    else if e.is "body" then .inBody
    else if e.is "frameset" then .inFrameset
    else if e.is "html" then (if d.head.isNone then .beforeHead else .afterHead)
    else d.modeFor rest

/-- Goes to the mode that the open elements ask for. -/
def resetMode (d : Draft) : Draft := { d with mode := d.modeFor d.stack }

end Draft

/-- What reading a token leads to: it is dealt with, or it is to be read again in the mode that the draft is
in now. -/
inductive Outcome where
  | done (d : Draft)
  | again (d : Draft) (token : Token)

end RichText.Html
