import Mathlib
import RichText.Xml.Printer

/-!
The start tags of an XML text, and how their names are read.

Printing is split in two: `pieces` says which start tags and which other texts are written, and `text` writes them.
A reader goes through the start tags alone. It knows the declarations that stand on them, each in force from its
tag to the end of the element, and reads a prefix as the namespace that it is declared for.
-/

namespace RichText.Xml

open Markup

/-! ### Pieces of an XML text -/

/-- A start tag: its name, its attributes with their values, and whether the element ends with it. -/
structure StartTag where
  name : String
  attributes : List (String × String)
  closed : Bool
  deriving DecidableEq, Repr

/-- What a text is made of: elements, and whatever else is written between tags. -/
inductive Piece where
  | element (tag : StartTag)
  | other (text : String)
  deriving DecidableEq, Repr

/-- The text of a start tag. -/
def StartTag.text (tag : StartTag) : String :=
  "<" ++ tag.name ++ String.join (tag.attributes.map fun (name, value) => Escape.assigned name value)
    ++ if tag.closed then "/>" else ">"

/-- The text of the end tag, if there is one. -/
def StartTag.endText (tag : StartTag) : String := if tag.closed then "" else "</" ++ tag.name ++ ">"

/-- The text of pieces. Nothing stands below a piece that is no element. -/
def text : Forest Piece → String
  | .nil => ""
  | .node (.element tag) below rest => tag.text ++ text below ++ tag.endText ++ text rest
  | .node (.other content) _ rest => content ++ text rest

theorem text_append (f g : Forest Piece) : text (f ++ g) = text f ++ text g := by
  show text (f.append g) = _
  induction f with
  | nil => simp [Forest.append, text]
  | node piece below rest _ ihr =>
    cases piece with
    | element tag => simp only [Forest.append, text, ihr, String.append_assoc]
    | other content => simp only [Forest.append, text, ihr, String.append_assoc]

/-- The attributes of an element with their written names. -/
def ownAttributes (attributes : List (Attribute String)) : List (String × String) :=
  attributes.map fun a => (a.name.written, a.value)

/-- The start tag of an element: its own attributes come before the declarations that it needs. -/
def startTag (scope : Scope) (name : Name) (attributes : List (Attribute String)) (closed : Bool) : StartTag :=
  ⟨name.written, ownAttributes attributes ++ (scope.declare name attributes).written, closed⟩

/-- Whether a forest has no trees. -/
def isNil : Forest Content → Bool
  | .nil => true
  | .node .. => false

/-- The pieces of the XML text of a forest. -/
def pieces (scope : Scope) : Forest Content → Forest Piece
  | .nil => .nil
  | .node content below rest =>
    let other (text : String) : Forest Piece := .node (.other text) .nil .nil
    let own :=
      match content with
      | .document => pieces scope below
      | .doctype name _ _ => other (Escape.doctype name)
      | .element name attributes =>
        .node (.element (startTag scope name attributes (isNil below)))
          (pieces (scope.declare name attributes).scope below) .nil
      | .text content => other (Escape.text content)
      | .comment content => other (Escape.comment content)
      | .instruction target content => other (Escape.instruction target content)
    own ++ pieces scope rest

/-- What is printed is the text of the pieces. -/
theorem print_eq_text (scope : Scope) (f : Forest Content) : print scope f = text (pieces scope f) := by
  induction f generalizing scope with
  | nil => rfl
  | node content below rest ihb ihr =>
    rw [print.eq_def, pieces.eq_def, text_append]
    simp only [ihr]
    congr 1
    cases content with
    | document => exact ihb scope
    | element name attributes =>
      cases below with
      | nil =>
        simp [text, pieces, isNil, StartTag.text, StartTag.endText, startTag, ownAttributes, Escape.attributes,
          Function.comp_def, String.append_assoc]
      | node _ _ _ =>
        simp [text, isNil, StartTag.text, StartTag.endText, startTag, ownAttributes, Escape.attributes, ihb,
          Function.comp_def, String.append_assoc]
    | _ => simp [text]

/-! ### Reading -/

/-- The prefixes that stand for a namespace without any declaration. -/
def implicitBindings : List (String × String) := [("xml", Uri.xml), ("xmlns", Uri.xmlns)]

namespace Scope

/-- What a prefix is bound to; the empty one stands for the default namespace. -/
def bound? (scope : Scope) (nsPrefix : String) : Option String :=
  if nsPrefix = "" then some scope.default else (scope.bindings ++ implicitBindings).lookup nsPrefix

/-- The namespace that a prefix stands for. One that is bound to the empty string stands for none. -/
def uri? (scope : Scope) (nsPrefix : String) : Option String :=
  (scope.bound? nsPrefix).filter fun uri => nsPrefix = "" || uri ≠ ""

/-- The scope after one attribute: it may declare the default namespace or a prefix. -/
def read (scope : Scope) (declaration : String × String) : Scope :=
  if declaration.1 = "xmlns" then { scope with default := declaration.2 }
  else
    match declaredPrefix? declaration.1 with
    | some nsPrefix => scope.bind nsPrefix declaration.2
    | none => scope

/-- The scope in an element with this start tag, its own name included. -/
def enter (scope : Scope) (tag : StartTag) : Scope := tag.attributes.foldl read scope

end Scope

/-- The start tags in the order of the text, each with the scope in which its names are read. -/
def startTags (scope : Scope) : Forest Piece → List (Scope × StartTag)
  | .nil => []
  | .node (.element tag) below rest =>
    (scope.enter tag, tag) :: (startTags (scope.enter tag) below ++ startTags scope rest)
  | .node (.other _) _ rest => startTags scope rest

theorem startTags_append (scope : Scope) (f g : Forest Piece) :
    startTags scope (f ++ g) = startTags scope f ++ startTags scope g := by
  show startTags scope (f.append g) = _
  induction f with
  | nil => rfl
  | node piece below rest _ ihr =>
    cases piece with
    | element tag => simp only [Forest.append, startTags, ihr, List.cons_append, List.append_assoc]
    | other content => simp only [Forest.append, startTags, ihr]

/-- The elements that are printed, in the order of the text. Only documents and elements print what is below
them. -/
def printedElements : Forest Content → List (Name × List (Attribute String))
  | .nil => []
  | .node content below rest =>
    let own :=
      match content with
      | .document => printedElements below
      | .element name attributes => (name, attributes) :: printedElements below
      | _ => []
    own ++ printedElements rest

end RichText.Xml
