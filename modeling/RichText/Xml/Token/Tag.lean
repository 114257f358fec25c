import RichText.Markup.CharRef
import RichText.Xml.Token

/-!
Tags of XML text.

The text is read one character at a time by an automaton. After a slash that does not end the tag, what
follows is taken for more of the value before it. A value that was read without a name is left over, and goes
to the next attribute, in whatever tag that stands.
-/

namespace RichText.Xml

open Markup

/-- Where in a tag the reading is. What was read of a value since it began is reversed. -/
inductive TagPlace where
  | inTagName
  | beforeName
  | inName
  | afterName
  | beforeValue
  | inQuoted (quote : Char) (text : List Char)
  | inUnquoted (text : List Char)
  | afterSlash
  | finished (selfClosing : Bool)
  deriving DecidableEq, Repr

/-- The reading of a tag. Names are reversed. -/
structure TagReading where
  tagName : List Char
  /-- The completed attributes. Declarations of namespaces come first, the last one foremost. -/
  attributes : List (WrittenName × String) := []
  /-- The name of the attribute that is being read; empty if there is none. -/
  name : List Char := []
  /-- The value of the attribute that is being read. -/
  value : List Char := []
  place : TagPlace := .inTagName
  deriving DecidableEq, Repr

/-- Whether an attribute declares a namespace. -/
def WrittenName.isDeclaration (name : WrittenName) : Bool :=
  name.localPart = "xmlns" || name.nsPrefix = some "xmlns"

namespace TagReading

/-- Completes the attribute that is being read. It does not count if its written name is the local part of
one before it. -/
def completed (r : TagReading) : TagReading :=
  if r.name = [] then r
  else
    let text := r.name.reverse
    let name := WrittenName.ofText text
    let entry := (name, String.ofList r.value)
    let attributes :=
      if r.attributes.any fun (other, _) => other.localPart == String.ofList text then r.attributes
      else if name.isDeclaration then entry :: r.attributes
      else r.attributes ++ [entry]
    { r with attributes, name := [], value := [] }

/-- Begins the name of an attribute, which completes the one before it. -/
def beginName (r : TagReading) (c : Char) : TagReading :=
  { r.completed with name := [cleaned c], place := .inName }

/-- Ends the tag. -/
def finish (r : TagReading) (selfClosing : Bool) : TagReading :=
  { r.completed with place := .finished selfClosing }

/-- Adds a piece to the value that is being read. -/
def addValue (r : TagReading) (text : List Char) (quoted : Bool) : TagReading :=
  let text := text.reverse
  { r with
    value := r.value ++ (if quoted then CharRef.decodeValue text else CharRef.decodeText text)
    place := .beforeName }

/-- One character where a value may begin. -/
def stepBeforeValue (r : TagReading) (c : Char) : TagReading :=
  if isSpace c then { r with place := .beforeValue }
  else if c = '"' || c = '\x27' then { r with place := .inQuoted c [] }
  else if c = '>' then r.finish false
  else { r with place := .inUnquoted [cleaned c] }

/-- Reads one character. -/
def step (r : TagReading) (c : Char) : TagReading :=
  match r.place with
  | .inTagName =>
    if isSpace c then { r with place := .beforeName }
    else if c = '>' then r.finish false
    else if c = '/' then { r with place := .afterSlash }
    else { r with tagName := cleaned c :: r.tagName }
  | .beforeName =>
    if isSpace c || c = ':' then r
    else if c = '>' then r.finish false
    else if c = '/' then { r with place := .afterSlash }
    else r.beginName c
  | .inName =>
    if c = '=' then { r with place := .beforeValue }
    else if c = '>' then r.finish false
    else if isSpace c then { r with place := .afterName }
    else if c = '/' then { r with place := .afterSlash }
    else { r with name := cleaned c :: r.name }
  | .afterName =>
    if isSpace c then r
    else if c = '=' then { r with place := .beforeValue }
    else if c = '>' then r.finish false
    else if c = '/' then { r with place := .afterSlash }
    else r.beginName c
  | .beforeValue => r.stepBeforeValue c
  | .inQuoted quote text =>
    if c = quote then r.addValue text true else { r with place := .inQuoted quote (c :: text) }
  | .inUnquoted text =>
    if c = ' ' || c = '\t' || c = '\n' then r.addValue text false
    else if c = '>' then (r.addValue text false).finish false
    else { r with place := .inUnquoted (c :: text) }
  | .afterSlash => if c = '>' then r.finish true else r.stepBeforeValue c
  | .finished _ => r

/-- The start tag that was read. -/
def token (r : TagReading) (selfClosing : Bool) : Token :=
  .startTag (.ofText r.tagName.reverse) r.attributes selfClosing

/-- Ends the value that is being read, if there is one. -/
def endValue (r : TagReading) : TagReading :=
  match r.place with
  | .inQuoted _ text => r.addValue text true
  | .inUnquoted text => r.addValue text false
  | _ => r

/-- Reads up to the closing bracket: the tag, the value that is left over and the text after the tag. The end
of the text ends the tag too. -/
def read (r : TagReading) : List Char → Token × List Char × List Char
  | [] =>
    let r := r.endValue.finish false
    (r.token false, r.value, [])
  | c :: rest =>
    let r := r.step c
    match r.place with
    | .finished selfClosing => (r.token selfClosing, r.value, rest)
    | _ => r.read rest

end TagReading

/-- Reads an end tag after the first character of its name. -/
def readEndTag (text : List Char) : List Token × List Char :=
  let name := text.takeWhile fun c => !(isSpace c || c = '/' || c = '>')
  match (text.drop name.length).dropWhile (· ≠ '>') with
  | _ :: rest => ([.endTag (.ofText (name.map cleaned))], rest)
  | [] => ([], [])

end RichText.Xml
