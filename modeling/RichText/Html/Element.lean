import RichText.Tree.Basic

/-!
Open elements of a document that is being read, and the classes of tags that decide how they nest.
-/

namespace RichText.Html

/-- An element of a document that is being read. -/
structure Element where
  /-- Its node. -/
  id : Nat
  space : String
  tag : String
  attributes : List (Attribute String)
  deriving DecidableEq, Repr

namespace Element

/-- Whether it is the HTML element with this tag. -/
def is (e : Element) (tag : String) : Bool := e.space == Uri.xhtml && e.tag == tag

/-- Whether it is an HTML element with one of these tags. -/
def isOneOf (e : Element) (tags : List String) : Bool := e.space == Uri.xhtml && tags.contains e.tag

/-- The value of its attribute without a namespace. -/
def attribute? (e : Element) (name : String) : Option String :=
  (e.attributes.find? fun a => a.name.space == "" && a.name.localPart == name).map Attribute.value

end Element

/-! ### Classes of tags -/

/-- Headings, each of which ends the one before it. -/
def headings : List String := ["h1", "h2", "h3", "h4", "h5", "h6"]

/-- Elements that a document's reader treats as blocks of their own. -/
def specialTags : List String :=
  ["address", "applet", "area", "article", "aside", "base", "basefont", "bgsound", "blockquote", "body",
   "br", "button", "caption", "center", "col", "colgroup", "dd", "details", "dir", "div", "dl", "dt", "embed",
   "fieldset", "figcaption", "figure", "footer", "form", "frame", "frameset", "h1", "h2", "h3", "h4", "h5",
   "h6", "head", "header", "hgroup", "hr", "html", "iframe", "img", "input", "isindex", "li", "link",
   "listing", "main", "marquee", "menu", "meta", "nav", "noembed", "noframes", "noscript",
   "object", "ol", "p", "param", "plaintext", "pre", "script", "section", "select", "source", "style",
   "summary", "table", "tbody", "td", "template", "textarea", "tfoot", "th", "thead", "title", "tr", "track",
   "ul", "wbr", "xmp"]

/-- Elements whose start tag closes an open paragraph, and that have no rule of their own otherwise. -/
def blockTags : List String :=
  ["address", "article", "aside", "blockquote", "center", "details", "dialog", "dir", "div", "dl",
   "fieldset", "figcaption", "figure", "footer", "header", "hgroup", "main", "menu", "nav", "ol", "p",
   "search", "section", "summary", "ul"]

/-- Elements whose end tag closes all that is open within them. -/
def closableTags : List String :=
  ["address", "article", "aside", "blockquote", "button", "center", "details", "dialog", "dir", "div", "dl",
   "fieldset", "figcaption", "figure", "footer", "header", "hgroup", "listing", "main", "menu", "nav", "ol",
   "pre", "search", "section", "summary", "ul"]

/-- Elements that mark the style of running text. -/
def formattingTags : List String :=
  ["b", "big", "code", "em", "font", "i", "s", "small", "strike", "strong", "tt", "u"]

/-- Elements whose end tags are implied by what follows. -/
def impliedTags : List String := ["dd", "dt", "li", "optgroup", "option", "p", "rb", "rp", "rt", "rtc"]

/-- Elements whose end tags are implied at the end of a template. -/
def allImpliedTags : List String :=
  impliedTags ++ ["caption", "colgroup", "tbody", "td", "tfoot", "th", "thead", "tr"]

/-- Elements that belong to the head, wherever they stand. -/
def headTags : List String :=
  ["base", "basefont", "bgsound", "link", "meta", "noframes", "script", "style", "template", "title"]

/-- Elements that table content without a place of its own is moved out of. -/
def tableParts : List String := ["table", "tbody", "tfoot", "thead", "tr"]

/-! ### Scopes -/

/-- MathML elements that hold ordinary text. -/
def Element.isMathText (e : Element) : Bool :=
  e.space == Uri.mathml && ["mi", "mo", "mn", "ms", "mtext"].contains e.tag

/-- SVG elements that hold HTML. -/
def Element.isSvgHost (e : Element) : Bool :=
  e.space == Uri.svg && ["foreignObject", "desc", "title"].contains e.tag

/-- Boundaries that most searches among the open elements do not cross. -/
def inDefault (e : Element) : Bool :=
  e.isOneOf ["applet", "caption", "html", "table", "td", "th", "marquee", "object", "template"]
    || e.isMathText || e.isSvgHost

/-- Boundaries for list items: a list within an item begins anew. -/
def inListItem (e : Element) : Bool := inDefault e || e.isOneOf ["ol", "ul"]

/-- Boundaries for paragraphs: a button holds paragraphs of its own. -/
def inButton (e : Element) : Bool := inDefault e || e.is "button"

/-- Boundaries for the parts of tables. -/
def inTable (e : Element) : Bool := e.isOneOf ["html", "table", "template"]

/-- Boundaries within a selection list: all but its options and their groups. -/
def inSelect (e : Element) : Bool := !e.isOneOf ["optgroup", "option"]

/-- Whether a wanted element is open, with no boundary open within it. The innermost element comes first. -/
def hasInScope (boundary wanted : Element → Bool) : List Element → Bool
  | [] => false
  | e :: rest => wanted e || (!boundary e && hasInScope boundary wanted rest)

end RichText.Html
