import RichText.Name

/-!
Symbols: every name part of a tree is stored once and stands for its string by number.

Number 0 is always the empty string, so "no namespace" and "no prefix" are the symbol 0.
-/

namespace RichText

/-- The number of a stored string. -/
abbrev Symbol := Nat

/-- The stored strings in order of their numbers. -/
structure SymbolTable where
  strings : Array String
  deriving DecidableEq, Repr, Inhabited

namespace SymbolTable

/-- The symbol of a string, if it is stored. -/
def find? (table : SymbolTable) (s : String) : Option Symbol := table.strings.idxOf? s

/-- The string of a symbol; an unknown symbol stands for the empty string. -/
def resolve (table : SymbolTable) (symbol : Symbol) : String := table.strings.getD symbol ""

/-- The symbol of a string, which is stored at the end if it is new. -/
def intern (table : SymbolTable) (s : String) : Symbol × SymbolTable :=
  match table.find? s with
  | some symbol => (symbol, table)
  | none => (table.strings.size, ⟨table.strings.push s⟩)

/-- How many strings are stored. -/
def size (table : SymbolTable) : Nat := table.strings.size

/-- The strings that most documents use. -/
def commonStrings : List String :=
  ["", "html", "head", "body", "div", "span", "p", "a", "img", "br",
   "ul", "ol", "li", "table", "tbody", "tr", "td", "th",
   "h1", "h2", "h3", "h4", "h5", "h6", "pre", "blockquote",
   "strong", "em", "b", "i", "u", "s", "sub", "sup",
   "class", "id", "href", "src", "alt", "title", "lang", "dir",
   "xmlns", "xlink", "xml", Uri.xhtml, Uri.xlink, Uri.xml, Uri.xmlns]

/-- A table that stores the common strings, the empty string first. -/
def initial : SymbolTable := ⟨commonStrings.toArray⟩

/-- Resolves the three parts of a name. -/
def resolveName (table : SymbolTable) (name : QualifiedName Symbol) : Name := name.map table.resolve

/-- Stores the namespace, prefix and local part of a name, in this order. -/
def internName (table : SymbolTable) (name : Name) : QualifiedName Symbol × SymbolTable :=
  let (space, table) := table.intern name.space
  let (nsPrefix, table) := table.intern name.nsPrefix
  let (localPart, table) := table.intern name.localPart
  (⟨space, nsPrefix, localPart⟩, table)

end SymbolTable

end RichText
