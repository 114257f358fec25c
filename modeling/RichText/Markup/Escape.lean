import RichText.Tree.Forest

/-!
What HTML and XML write alike: escaped texts and attribute values, attributes, comments, document types and
processing instructions.
-/

namespace RichText.Markup.Escape

/-- How one character of a text is written. -/
def textChar : Char → String
  | '&' => "&amp;"
  | '<' => "&lt;"
  | '>' => "&gt;"
  | c => String.singleton c

/-- How one character of an attribute value is written; the value stands in double quotes. -/
def valueChar : Char → String
  | '&' => "&amp;"
  | '"' => "&quot;"
  | '<' => "&lt;"
  | '>' => "&gt;"
  | c => String.singleton c

/-- A text as it is written between tags. -/
def text (s : String) : String := String.join (s.toList.map textChar)

/-- A value as it is written between quotes. -/
def value (s : String) : String := String.join (s.toList.map valueChar)

/-- A written name and a value as they stand in a start tag, after a space. -/
def assigned (written content : String) : String := " " ++ written ++ "=\"" ++ value content ++ "\""

/-- The attributes of an element as they stand in its start tag. -/
def attributes (as : List (Attribute String)) : String :=
  String.join (as.map fun a => assigned a.name.written a.value)

/-- A comment. -/
def comment (content : String) : String := "<!--" ++ content ++ "-->"

/-- A document type; only its name is written. -/
def doctype (name : String) : String := "<!DOCTYPE " ++ name ++ ">"

/-- A processing instruction; a space stands before content that is not empty. -/
def instruction (target content : String) : String :=
  if content = "" then "<?" ++ target ++ "?>" else "<?" ++ target ++ " " ++ content ++ "?>"

end RichText.Markup.Escape
