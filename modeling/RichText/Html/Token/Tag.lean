import RichText.Html.Token
import RichText.Markup.CharRef

/-!
Tags: what stands between the name of a tag and its closing bracket.

The text is read one character at a time by an automaton. A tag that the end of the text cuts off is no tag.
-/

namespace RichText.Html

open Markup

/-- Where in a tag the reading is. Names and values read so far are reversed. -/
inductive TagPlace where
  | beforeName
  | inName (name : List Char)
  | afterName (name : List Char)
  | beforeValue (name : List Char)
  | inQuoted (quote : Char) (name value : List Char)
  | inUnquoted (name value : List Char)
  | afterValue
  | afterSlash
  | finished (selfClosing : Bool)
  deriving DecidableEq, Repr

/-- The reading of a tag: the attributes so far, and where it is. -/
structure TagReading where
  attributes : List (String × String) := []
  place : TagPlace := .beforeName
  deriving DecidableEq, Repr

namespace TagReading

/-- Completes an attribute. One with a name that is there already does not count. -/
def addAttribute (r : TagReading) (name value : List Char) : List (String × String) :=
  let key := String.ofList (lowered name.reverse)
  if r.attributes.any (·.1 == key) then r.attributes
  else r.attributes ++ [(key, String.ofList (CharRef.decodeValue (value.reverse.map cleaned)))]

/-- Moves on after an attribute. -/
def completed (r : TagReading) (name value : List Char) (place : TagPlace) : TagReading :=
  ⟨r.addAttribute name value, place⟩

/-- One character where an attribute may begin. -/
def stepBeforeName (r : TagReading) (c : Char) : TagReading :=
  if isSpace c then { r with place := .beforeName }
  else if c = '/' then { r with place := .afterSlash }
  else if c = '>' then { r with place := .finished false }
  else { r with place := .inName [c] }

/-- Reads one character. -/
def step (r : TagReading) (c : Char) : TagReading :=
  match r.place with
  | .beforeName => r.stepBeforeName c
  | .inName name =>
    if isSpace c then { r with place := .afterName name }
    else if c = '/' then r.completed name [] .afterSlash
    else if c = '>' then r.completed name [] (.finished false)
    else if c = '=' then { r with place := .beforeValue name }
    else { r with place := .inName (c :: name) }
  | .afterName name =>
    if isSpace c then r
    else if c = '/' then r.completed name [] .afterSlash
    else if c = '>' then r.completed name [] (.finished false)
    else if c = '=' then { r with place := .beforeValue name }
    else r.completed name [] (.inName [c])
  | .beforeValue name =>
    if isSpace c then r
    else if c = '"' || c = '\x27' then { r with place := .inQuoted c name [] }
    else if c = '>' then r.completed name [] (.finished false)
    else { r with place := .inUnquoted name [c] }
  | .inQuoted quote name value =>
    if c = quote then r.completed name value .afterValue
    else { r with place := .inQuoted quote name (c :: value) }
  | .inUnquoted name value =>
    if isSpace c then r.completed name value .beforeName
    else if c = '>' then r.completed name value (.finished false)
    else { r with place := .inUnquoted name (c :: value) }
  | .afterValue => r.stepBeforeName c
  | .afterSlash => if c = '>' then { r with place := .finished true } else r.stepBeforeName c
  | .finished _ => r

/-- Reads up to the closing bracket: the attributes, whether a slash stands before the bracket, and the text
after it. -/
def read? (r : TagReading) : List Char → Option (List (String × String) × Bool × List Char)
  | [] => none
  | c :: rest =>
    let r := r.step c
    match r.place with
    | .finished selfClosing => some (r.attributes, selfClosing, rest)
    | _ => r.read? rest

end TagReading

/-- Whether a character ends the name of a tag. -/
def endsTagName (c : Char) : Bool := isSpace c || c = '/' || c = '>'

/-- Reads a tag whose name begins the text: the tag and the text after it. -/
def Tag.read? (text : List Char) : Option (Tag × List Char) :=
  let name := text.takeWhile fun c => !endsTagName c
  match TagReading.read? {} (text.drop name.length) with
  | some (attributes, selfClosing, rest) =>
    some ({ name := String.ofList (lowered name), attributes, selfClosing }, rest)
  | none => none

end RichText.Html
