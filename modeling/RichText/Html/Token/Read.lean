import RichText.Html.Token.Raw
import RichText.Markup.Comment

/-!
Reading the next tokens of a document's text.

How text is read depends on the elements that are open, so the reader of the tree says which mode applies. A
step takes at least one character.
-/

namespace RichText.Html

open Markup

/-- Text as tokens: runs of white space, runs without it, and single characters with code point 0. -/
def Token.ofText : List Char → List Token
  | [] => []
  | c :: rest =>
    if c = '\x00' then .null :: ofText rest
    else if isSpace c then
      match ofText rest with
      | .space run :: tokens => .space (c :: run) :: tokens
      | tokens => .space [c] :: tokens
    else
      match ofText rest with
      | .text run :: tokens => .text (c :: run) :: tokens
      | tokens => .text [c] :: tokens

/-- Splits a text before the end of a character data section, which is dropped. -/
def splitSection : List Char → List Char × List Char
  | [] => ([], [])
  | ']' :: ']' :: '>' :: rest => ([], rest)
  | c :: rest =>
    let (before, after) := splitSection rest
    (c :: before, after)

/-- Whether a text continues a `<` to markup. -/
def startsMarkup : List Char → Bool
  | '/' :: rest => !rest.isEmpty
  | c :: _ => c.isAlpha || c = '!' || c = '?'
  | [] => false

/-- Splits a text before the first markup or character with code point 0. -/
def splitContent : List Char → List Char × List Char
  | [] => ([], [])
  | c :: rest =>
    if c = '\x00' || (c = '<' && startsMarkup rest) then ([], c :: rest)
    else
      let (before, after) := splitContent rest
      (c :: before, after)

/-- Reads an end tag after `</`. One that the end of the text cuts off is dropped. -/
def readEndTag (text : List Char) : List Token × List Char :=
  match Tag.read? text with
  | some (tag, rest) => ([.endTag tag.name], rest)
  | none => ([], [])

/-- Reads a comment, a document type or a character data section after `<!`. `sections` says whether such
sections count here. -/
def readDeclaration (sections : Bool) (text : List Char) : List Token × List Char :=
  match afterWord? "--".toList text, afterWord? "doctype".toList text with
  | some rest, _ =>
    let (content, rest) := readComment .start [] rest
    ([.comment (String.ofList content)], rest)
  | none, some rest =>
    let (doctype, rest) := Doctype.read rest
    ([.doctype doctype], rest)
  | none, none =>
    match sections, text with
    | true, '[' :: 'C' :: 'D' :: 'A' :: 'T' :: 'A' :: '[' :: rest =>
      let (content, rest) := splitSection rest
      (Token.ofText content, rest)
    | _, _ =>
      let (content, rest) := readBogusComment text
      ([.comment (String.ofList content)], rest)

/-- Reads the markup after `<`. -/
def readMarkup (sections : Bool) : List Char → List Token × List Char
  | '/' :: '>' :: rest => ([], rest)
  | '/' :: c :: rest =>
    if c.isAlpha then readEndTag (c :: rest)
    else
      let (content, rest) := readBogusComment (c :: rest)
      ([.comment (String.ofList content)], rest)
  | '!' :: rest => readDeclaration sections rest
  | c :: rest =>
    if c.isAlpha then
      match Tag.read? (c :: rest) with
      | some (tag, rest) => ([.startTag tag], rest)
      | none => ([], [])
    else
      let (content, rest) := readBogusComment (c :: rest)
      ([.comment (String.ofList content)], rest)
  | [] => ([], [])

/-- Reads ordinary content. -/
def readContent (sections : Bool) (text : List Char) : List Token × List Char :=
  match text with
  | [] => ([], [])
  | c :: rest =>
    if c = '\x00' then ([.null], rest)
    else if c = '<' && startsMarkup rest then readMarkup sections rest
    else
      let (content, rest) := splitContent (c :: rest)
      (Token.ofText (CharRef.decodeText content), rest)

/-- Reads text up to an end tag, or that end tag if it comes first. -/
def readClosed (split : List Char × List Char) (decode : List Char → List Char) : List Token × List Char :=
  match split with
  | ([], '<' :: '/' :: rest) => readEndTag rest
  | (content, rest) => ([.text (decode (content.map cleaned))], rest)

/-- Reads the next tokens of a text that is not empty, and the text after them. -/
def readTokens (mode : TextMode) (sections : Bool) (text : List Char) : List Token × List Char :=
  match mode with
  | .content => readContent sections text
  | .escapable element => readClosed (splitRaw element text) CharRef.decodeText
  | .raw element => readClosed (splitRaw element text) id
  | .script => readClosed (splitScript .outside text) id
  | .plain => ([.text (text.map cleaned)], [])

end RichText.Html
