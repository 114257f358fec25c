import RichText.Markup.Characters

/-!
Document types: the name and the two identifiers between `<!DOCTYPE` and the next closing bracket.
-/

namespace RichText.Markup

/-- A document type; what is missing in the text is `none`. -/
structure Doctype where
  name : Option String := none
  publicId : Option String := none
  systemId : Option String := none
  /-- Whether the text of the document type was broken. -/
  broken : Bool := false
  deriving DecidableEq, Repr

/-- The text after the white space at its start. -/
def skipSpace (text : List Char) : List Char := text.dropWhile isSpace

/-- A quoted identifier at the start of a text: the identifier, whether its closing quote is there, and the
text after it. -/
def readQuoted? : List Char → Option (String × Bool × List Char)
  | [] => none
  | c :: rest =>
    if c = '"' || c = '\x27' then
      let content := rest.takeWhile (· ≠ c)
      some (String.ofList (content.map cleaned), content.length < rest.length, rest.drop (content.length + 1))
    else none

namespace Doctype

/-- Reads the system identifier, which has to stand in quotes. -/
def readSystem (d : Doctype) (text : List Char) : Doctype :=
  match readQuoted? (skipSpace text) with
  | some (systemId, closed, _) => { d with systemId := some systemId, broken := d.broken || !closed }
  | none => { d with broken := true }

/-- Reads the public identifier and the system identifier that may follow it. -/
def readPublic (d : Doctype) (text : List Char) : Doctype :=
  match readQuoted? (skipSpace text) with
  | some (publicId, closed, rest) =>
    let d := { d with publicId := some publicId, broken := d.broken || !closed }
    if skipSpace rest = [] then d else d.readSystem rest
  | none => { d with broken := true }

/-- The document type with this text between its keyword and its closing bracket. -/
def ofText (text : List Char) : Doctype :=
  match skipSpace text with
  | [] => { broken := true }
  | text =>
    let name := text.takeWhile fun c => !isSpace c
    let d : Doctype := { name := some (String.ofList (lowered name)) }
    let rest := skipSpace (text.drop name.length)
    if rest = [] then d
    else
      match afterWord? "public".toList rest, afterWord? "system".toList rest with
      | some rest, _ => d.readPublic rest
      | none, some rest => d.readSystem rest
      | none, none => { d with broken := true }

/-- Reads a document type after its keyword: the document type and the text after it. -/
def read (text : List Char) : Doctype × List Char :=
  let content := text.takeWhile (· ≠ '>')
  let d := ofText content
  if content.length < text.length then (d, text.drop (content.length + 1))
  else ({ d with broken := true }, [])

end Doctype

end RichText.Markup
