/-!
Characters of markup text: white space, line ends, and words whose case does not matter.
-/

namespace RichText.Markup

/-- White space of the markup itself. -/
def isSpace (c : Char) : Bool := c = ' ' || c = '\t' || c = '\n' || c = '\x0c' || c = '\r'

/-- Characters with code point 0 become replacement characters. -/
def cleaned (c : Char) : Char := if c = '\x00' then '\uFFFD' else c

/-- The ASCII letters of a text in lower case. -/
def lowered (text : List Char) : List Char := text.map fun c => cleaned c.toLower

/-- Whether a text begins with a word, whatever the case of its ASCII letters, and the text after it. The
word is given in lower case. -/
def afterWord? : List Char → List Char → Option (List Char)
  | [], text => some text
  | w :: word, c :: text => if c.toLower = w then afterWord? word text else none
  | _ :: _, [] => none

/-- Replaces every line end, `CR LF` or `CR` alone, by a single line feed. -/
def normalizeLines : List Char → List Char
  | [] => []
  | '\r' :: '\n' :: rest => '\n' :: normalizeLines rest
  | '\r' :: rest => '\n' :: normalizeLines rest
  | c :: rest => c :: normalizeLines rest

/-- The characters of a text without a byte order mark at its start. -/
def withoutMark (text : String) : List Char :=
  match text.toList with
  | '\uFEFF' :: rest => rest
  | text => text

end RichText.Markup
