import RichText.Tree.Forest
import RichText.Xml.Portion
import RichText.Xml.Token.Read

/-!
Reading whole XML documents.

Reading never fails. A document ends with its first root element: comments and processing instructions may
follow, and all else around the root is dropped. Namespace declarations are resolved and do not stay
attributes. What follows a script in the same portion of the text is put off to the next portion.
-/

namespace RichText.Xml

/-- An element that is open. -/
structure Frame where
  name : Name
  attributes : List (Attribute String)
  /-- The namespaces that it declares, by prefix; the empty prefix is that of the default namespace. -/
  bindings : List (String × String)
  /-- Its children so far, the last one first, each with what is below it. -/
  children : List (Content × Forest Content) := []

/-- Which part of a document is being read. -/
inductive Part where
  | prolog
  | content
  | epilog
  deriving DecidableEq, Repr

/-- A document that is being read. -/
structure Draft where
  part : Part := .prolog
  /-- The open elements, innermost first. -/
  stack : List Frame := []
  /-- The nodes of the document so far, the last one first. -/
  top : List (Content × Forest Content) := []
  /-- The attribute value that is left over. -/
  held : List Char := []

/-- The forest of some trees, of which the last one is given first. -/
def forestOf (trees : List (Content × Forest Content)) : Forest Content :=
  trees.foldl (fun rest (content, below) => .node content below rest) .nil

namespace Draft

/-- Adds a node where the reading is. Text joins a text right before it. -/
def add (d : Draft) (content : Content) (below : Forest Content) : Draft :=
  match d.stack with
  | [] => { d with top := (content, below) :: d.top }
  | frame :: rest =>
    let children :=
      match content, frame.children with
      | .text more, (.text text, _) :: before => (.text (text ++ more), .nil) :: before
      | _, before => (content, below) :: before
    { d with stack := { frame with children } :: rest }

/-- Closes the innermost open element. -/
def pop (d : Draft) : Draft :=
  match d.stack with
  | [] => d
  | frame :: rest =>
    { d with stack := rest }.add (.element frame.name frame.attributes) (forestOf frame.children)

/-- Ends the content of the document if no element is open any more. -/
def settled (d : Draft) : Draft := if d.stack.isEmpty then { d with part := .epilog } else d

/-! ### Namespaces -/

/-- The namespaces that are known from the start. -/
def knownBindings : List (String × String) := [("", ""), ("xml", Uri.xml), ("xmlns", Uri.xmlns)]

/-- The namespace of a prefix under the given declarations and those of the open elements. An unknown prefix
has none. -/
def uriOf (d : Draft) (bindings : List (String × String)) (nsPrefix : String) : String :=
  ((bindings ++ d.stack.flatMap Frame.bindings ++ knownBindings).lookup nsPrefix).getD ""

/-- The prefix that a declaration binds, if it may: the prefix `xml` keeps its namespace, `xmlns` cannot be
declared, and neither can its namespace. -/
def declared? (name : WrittenName) (uri : String) : Option String :=
  if uri = Uri.xmlns then none
  else
    match name.nsPrefix with
    | none => some ""
    | some "xmlns" => if name.localPart = "xml" || name.localPart = "xmlns" then none else some name.localPart
    | some _ => none

/-- Adds a declaration to those of the same tag. A prefix that is bound there already can be unbound, and not
bound again. -/
def declare (bindings : List (String × String)) (name : WrittenName) (uri : String) :
    List (String × String) :=
  match declared? name uri with
  | none => bindings
  | some nsPrefix =>
    if uri ≠ "" && (bindings.lookup nsPrefix).isSome then bindings else (nsPrefix, uri) :: bindings

/-- The name that a written name stands for; without a prefix, it is in the namespace `unprefixed`. -/
def resolved (d : Draft) (bindings : List (String × String)) (unprefixed : String) (name : WrittenName) :
    Name :=
  match name.nsPrefix with
  | some nsPrefix => ⟨d.uriOf bindings nsPrefix, nsPrefix, name.localPart⟩
  | none => ⟨unprefixed, "", name.localPart⟩

/-- The name of an element. -/
def elementName (d : Draft) (bindings : List (String × String)) (name : WrittenName) : Name :=
  d.resolved bindings (d.uriOf bindings "") name

/-- Resolves the attributes of a tag that declare nothing. Of several with a prefix and the same namespace
and local part, the first counts. -/
def attributesOf (d : Draft) (bindings : List (String × String)) (written : List (WrittenName × String)) :
    List (Attribute String) :=
  let resolved := written.map fun (name, value) => (⟨d.resolved bindings "" name, value⟩ : Attribute String)
  resolved.foldl (fun kept a =>
    let isRepeated := a.name.nsPrefix ≠ "" && kept.any fun (other : Attribute String) =>
      other.name.nsPrefix ≠ "" && other.name.space = a.name.space && other.name.localPart = a.name.localPart
    if isRepeated then kept else kept ++ [a]) []

/-- The element of a start tag. -/
def frameOf (d : Draft) (name : WrittenName) (attributes : List (WrittenName × String)) : Frame :=
  let (declarations, others) := attributes.partition fun (name, _) => name.isDeclaration
  let bindings := declarations.foldl (fun bindings (name, uri) => declare bindings name uri) []
  { name := d.elementName bindings name, attributes := d.attributesOf bindings others, bindings }

/-! ### Tokens -/

/-- Opens an element, and closes it at once if its tag is its own end tag. -/
def openTag (d : Draft) (name : WrittenName) (attributes : List (WrittenName × String))
    (selfClosing : Bool) : Draft :=
  let d := { d with part := .content, stack := d.frameOf name attributes :: d.stack }
  if selfClosing then d.pop.settled else d

/-- Whether two names have the same namespace and local part. -/
def sameName (a b : Name) : Bool := a.space = b.space && a.localPart = b.localPart

/-- Closes elements up to the first with this local part, at most so many. -/
def popTo (localPart : String) : Nat → Draft → Draft
  | 0, d => d
  | count + 1, d =>
    match d.stack with
    | frame :: _ => if frame.name.localPart = localPart then d else popTo localPart count d.pop
    | [] => d

/-- Closes the element that an end tag names, with all that is open within it. An end tag that names no open
element does not count. -/
def closeTag (d : Draft) (name : WrittenName) : Draft :=
  let name := d.elementName [] name
  if d.stack.any fun frame => sameName frame.name name then
    let d := popTo name.localPart d.stack.length d
    (if d.stack.head?.any fun frame => sameName frame.name name then d.pop else d).settled
  else d

/-- Reads a token. -/
def read (d : Draft) (token : Token) : Draft :=
  match token, d.part with
  | .comment content, _ => d.add (.comment content) .nil
  | .instruction target content, _ => d.add (.instruction target content) .nil
  | .doctype doctype, .prolog =>
    d.add (.doctype (doctype.name.getD "") (doctype.publicId.getD "") (doctype.systemId.getD "")) .nil
  | .startTag name attributes selfClosing, .prolog | .startTag name attributes selfClosing, .content =>
    d.openTag name attributes selfClosing
  | .endTag name, .content => d.closeTag name
  | .shortEndTag, .content => d.pop.settled
  | .text content, .content => if content = "" then d else d.add (.text content) .nil
  | _, _ => d

/-- Whether a token ends a script within the root. -/
def endsScript (d : Draft) (token : Token) : Bool :=
  match token, d.part with
  | .startTag name _ selfClosing, .content => selfClosing && name.localPart = "script"
  | .endTag name, .content => name.localPart = "script"
  | _, _ => false

/-- Reads a text that comes in the given portions, in at most so many steps. Every step takes a character. -/
def readAll : Nat → (portions : List Nat) → Draft → List Char → Draft
  | 0, _, d, _ => d
  | _, _, d, [] => d
  | steps + 1, portions, d, text =>
    let (tokens, held, rest) := readTokens d.held text
    let next := tokens.foldl read { d with held }
    if tokens.any d.endsScript then
      match portionsAfter portions rest.length with
      | [] => next
      | portions => readAll steps portions next rest
    else readAll steps portions next rest

/-- Closes all open elements, at most so many. -/
def closeAll : Nat → Draft → Draft
  | 0, d => d
  | count + 1, d => closeAll count d.pop

end Draft

/-- What an XML text holds. -/
def read (text : String) : Forest Content :=
  let portions := portionEnds portionSize none text.toList
  let text := Markup.withoutMark text
  let d := Draft.readAll text.length portions {} text
  forestOf (Draft.closeAll d.stack.length d).top

end RichText.Xml

namespace RichText.Tree

/-- The document that an XML text holds. -/
def ofXml (text : String) : Tree := ofForest (Xml.read text)

end RichText.Tree
