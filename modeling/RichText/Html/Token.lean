import RichText.Markup.Doctype

/-!
Tokens of HTML text.
-/

namespace RichText.Html

/-- A start tag: its lower-cased name, its attributes in order and without repetitions, and whether it ends
in a slash. -/
structure Tag where
  name : String
  attributes : List (String × String) := []
  selfClosing : Bool := false
  deriving DecidableEq, Repr

/-- What the text of a document is made of. -/
inductive Token where
  | doctype (doctype : Markup.Doctype)
  | startTag (tag : Tag)
  | endTag (name : String)
  | comment (content : String)
  /-- White space alone. -/
  | space (text : List Char)
  /-- Text without white space. -/
  | text (text : List Char)
  /-- A character with the code point 0 in ordinary text. -/
  | null
  /-- The end of the document. -/
  | finish
  deriving DecidableEq, Repr

/-- How text is read: which markup and which references count. -/
inductive TextMode where
  /-- Ordinary content with tags and references. -/
  | content
  /-- References count, and no tag but the end tag of the named element. -/
  | escapable (element : String)
  /-- Nothing counts but the end tag of the named element. -/
  | raw (element : String)
  /-- Like raw text, for a script, in which comments can hide end tags. -/
  | script
  /-- Nothing counts to the end of the document. -/
  | plain
  deriving DecidableEq, Repr

end RichText.Html
