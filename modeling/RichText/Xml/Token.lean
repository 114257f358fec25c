import RichText.Markup.Doctype

/-!
Tokens of XML text.
-/

namespace RichText.Xml

/-- A name as it is written in a tag, cut at its colon. -/
structure WrittenName where
  nsPrefix : Option String
  localPart : String
  deriving DecidableEq, Repr

/-- Cuts a written name. Only a single colon between two parts cuts; with more colons, or one at an end, the
name is all local part. -/
def WrittenName.ofText (text : List Char) : WrittenName :=
  let before := text.takeWhile (· ≠ ':')
  match before, text.drop before.length with
  | p :: ps, ':' :: l :: ls =>
    if (l :: ls).contains ':' then ⟨none, String.ofList text⟩
    else ⟨some (String.ofList (p :: ps)), String.ofList (l :: ls)⟩
  | _, _ => ⟨none, String.ofList text⟩

/-- What an XML text is made of. -/
inductive Token where
  | doctype (doctype : Markup.Doctype)
  /-- A start tag, or one that is its own end tag. -/
  | startTag (name : WrittenName) (attributes : List (WrittenName × String)) (selfClosing : Bool)
  | endTag (name : WrittenName)
  /-- The end tag without a name, which closes the innermost element. -/
  | shortEndTag
  | comment (content : String)
  | instruction (target content : String)
  | text (content : String)
  deriving DecidableEq, Repr

/-- White space in tags and processing instructions. -/
def isSpace (c : Char) : Bool := c = ' ' || c = '\t' || c = '\n' || c = '\r'

end RichText.Xml
