import RichText.Markup.Comment
import RichText.Xml.Token.Tag

/-!
Reading the next tokens of an XML text. A step takes at least one character.
-/

namespace RichText.Xml

open Markup

/-- Characters as they stand in comments, processing instructions and character data sections. -/
def plain (text : List Char) : String := String.ofList ((normalizeLines text).map cleaned)

/-- Reads the content of a processing instruction: what is added to it, and the text after it. After a
question mark, the next closing bracket ends the instruction. -/
def readInstructionContent (afterMark : Bool) : List Char → List Char × List Char
  | [] => ([], [])
  | c :: rest =>
    if c = '?' then readInstructionContent true rest
    else if c = '>' && afterMark then ([], rest)
    else
      let (content, rest) := readInstructionContent afterMark rest
      (c :: content, rest)

/-- Reads a processing instruction after `<?`. The first character belongs to the target, whatever it is. -/
def readInstruction (text : List Char) : List Token × List Char :=
  let target := text.take 1 ++ (text.drop 1).takeWhile fun c => !(isSpace c || c = '?')
  let rest := (text.drop target.length).dropWhile isSpace
  let (content, rest) := readInstructionContent false rest
  ([.instruction (plain target) (plain content)], rest)

/-- Splits a text before the end of a character data section, which is dropped. A section without an end
loses the brackets at its end. -/
def splitSection : List Char → List Char × List Char
  | [] | [']'] | [']', ']'] => ([], [])
  | ']' :: ']' :: '>' :: rest => ([], rest)
  | c :: rest =>
    let (before, after) := splitSection rest
    (c :: before, after)

/-- Reads a comment, a document type or a character data section after `<!`. -/
def readDeclaration (text : List Char) : List Token × List Char :=
  match afterWord? "--".toList text, text, afterWord? "doctype".toList text with
  | some rest, _, _ =>
    let (content, rest) := readComment .start [] rest
    ([.comment (String.ofList (normalizeLines content))], rest)
  | none, '[' :: 'C' :: 'D' :: 'A' :: 'T' :: 'A' :: '[' :: rest, _ =>
    let (content, rest) := splitSection rest
    ([.text (plain content)], rest)
  | none, _, some rest =>
    let (doctype, rest) := Doctype.read rest
    ([.doctype doctype], rest)
  | none, _, none =>
    let (content, rest) := readBogusComment text
    ([.comment (String.ofList (normalizeLines content))], rest)

/-- Whether a character cannot begin the name of a tag. -/
def refusesTag (c : Char) : Bool := isSpace c || c = ':' || c = '<'

/-- Whether a text continues a `<` to markup. -/
def startsMarkup : List Char → Bool
  | [] => false
  | '/' :: c :: _ => !refusesTag c
  | ['/'] => false
  | c :: _ => !(refusesTag c || c = '>')

/-- Splits a text before the first markup. -/
def splitText : List Char → List Char × List Char
  | [] => ([], [])
  | c :: rest =>
    if c = '<' && startsMarkup rest then ([], c :: rest)
    else
      let (before, after) := splitText rest
      (c :: before, after)

/-- Reads the markup after `<`. `held` is the value that is left over from the tags before. -/
def readMarkup (held : List Char) : List Char → List Token × List Char × List Char
  | '/' :: '>' :: rest => ([.shortEndTag], held, rest)
  | '/' :: rest =>
    let (tokens, rest) := readEndTag rest
    (tokens, held, rest)
  | '!' :: rest =>
    let (tokens, rest) := readDeclaration rest
    (tokens, held, rest)
  | '?' :: rest =>
    let (tokens, rest) :=
      if rest.head?.all isSpace then
        let (content, rest) := readBogusComment rest
        ([.comment (String.ofList (normalizeLines content))], rest)
      else readInstruction rest
    (tokens, held, rest)
  | c :: rest =>
    let (tag, held, rest) := TagReading.read { tagName := [cleaned c], value := held } rest
    ([tag], held, rest)
  | [] => ([], held, [])

/-- Reads the next tokens of a text that is not empty. -/
def readTokens (held : List Char) (text : List Char) : List Token × List Char × List Char :=
  match text with
  | '<' :: rest =>
    if startsMarkup rest then readMarkup held rest
    else
      let (content, rest) := splitText text
      ([.text (String.ofList (CharRef.decodeText (normalizeLines content)))], held, rest)
  | _ =>
    let (content, rest) := splitText text
    ([.text (String.ofList (CharRef.decodeText (normalizeLines content)))], held, rest)

end RichText.Xml
