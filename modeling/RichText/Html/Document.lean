import RichText.Html.Content.Other
import RichText.Html.Token.Read

/-!
Reading whole HTML documents.

Every text is a document: elements that are missing are made up and misplaced ones are moved, so reading
never fails. The nodes of the tree are numbered in document order.
-/

namespace RichText.Html

namespace Draft

/-- Reads a token by the rules of the mode that the draft is in. -/
def readInMode (d : Draft) (token : Token) : Outcome :=
  match d.mode with
  | .initial => d.readInitial token
  | .beforeHtml => d.readBeforeHtml token
  | .beforeHead => d.readBeforeHead token
  | .inHead => d.readInHead token
  | .afterHead => d.readAfterHead token
  | .inBody => d.readInBody token
  | .text => d.readInText token
  | .inTable => d.readInTable token
  | .inTableText => d.readInTableText token
  | .inCaption => d.readInCaption token
  | .inColumnGroup => d.readInColumnGroup token
  | .inTableBody => d.readInTableBody token
  | .inRow => d.readInRow token
  | .inCell => d.readInCell token
  | .inSelect => d.readInSelect token
  | .inSelectInTable => d.readInSelectInTable token
  | .inTemplate => d.readInTemplate token
  | .afterBody => d.readAfterBody token
  | .inFrameset => d.readInFrameset token
  | .afterFrameset => d.readAfterFrameset token
  | .afterAfterBody => d.readAfterAfterBody token
  | .afterAfterFrameset => d.readAfterAfterFrameset token

/-- Reads a token once. -/
def readOnce (d : Draft) (token : Token) : Outcome :=
  if Foreign.isForeign d.current? token then d.readForeign token (·.readInMode token)
  else d.readInMode token

/-- Reads a token until it is dealt with, at most so many times. -/
def readRounds : Nat → Draft → Token → Draft
  | 0, d, _ => d
  | rounds + 1, d, token =>
    match d.readOnce token with
    | .done d => d
    | .again d token => readRounds rounds d token

/-- Drops a line feed from the start of a text. -/
def withoutNewline : Token → Option Token
  | .space ('\n' :: rest) => if rest.isEmpty then none else some (.space rest)
  | .text ('\n' :: rest) => if rest.isEmpty then none else some (.text rest)
  | token => some token

/-- Reads a token. It is read again only after a mode was left or an element closed, which bounds the
rounds. -/
def read (d : Draft) (token : Token) : Draft :=
  let dropping := d.skipNewline
  let d := { d with skipNewline := false }
  match if dropping then withoutNewline token else some token with
  | some token => readRounds (4 * (d.stack.length + d.templateModes.length) + 32) d token
  | none => d

/-- Whether character data sections count at this point. -/
def admitsSections (d : Draft) : Bool := d.current?.any (·.space != Uri.xhtml)

/-- Reads a text, in at most so many steps. Every step takes a character. -/
def readAll : Nat → Draft → List Char → Draft
  | 0, d, _ => d
  | _, d, [] => d
  | steps + 1, d, text =>
    let (tokens, rest) := readTokens d.reading d.admitsSections text
    readAll steps (tokens.foldl read d) rest

end Draft

/-- Drops what is below templates: it is no part of the document. -/
def withoutTemplateContent : Forest Content → Forest Content
  | .nil => .nil
  | .node content below rest =>
    let isTemplate :=
      match content with
      | .element name _ => name.space == Uri.xhtml && name.localPart == "template"
      | _ => false
    .node content (if isTemplate then .nil else withoutTemplateContent below) (withoutTemplateContent rest)

/-- What an HTML text holds. -/
def read (text : String) : Forest Content :=
  let text := Markup.normalizeLines (Markup.withoutMark text)
  let d := (Draft.readAll text.length {} text).read .finish
  withoutTemplateContent (d.tree.contentBelow Tree.root)

end RichText.Html

namespace RichText

/-- Why a text cannot be used as a fragment of a document. -/
inductive FragmentError where
  /-- The document that was read has no such element. -/
  | missingElement (tag : String)
  deriving DecidableEq, Repr

/-- The text of an error. -/
def FragmentError.message : FragmentError → String
  | missingElement tag => "Parsed document has no <" ++ tag ++ "> element"

namespace Tree

/-- The document that an HTML text holds. -/
def ofHtml (text : String) : Tree := ofForest (Html.read text)

/-- The body of a document: the first child of the document element with that local name. -/
def body? (t : Tree) : Ref :=
  (t.children t.documentElement).find? fun id => t.localName? (some id) == some "body"

/-- The document that an HTML text holds, and its body, below which the content of the text stands. -/
def ofFragment (text : String) : Except FragmentError (Tree × Nat) :=
  let t := ofHtml text
  match t.body? with
  | some body => .ok (t, body)
  | none => .error (.missingElement "body")

end Tree

end RichText
