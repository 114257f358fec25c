import RichText.Markup.Escape

/-!
HTML text of forests and trees.

Void elements have a start tag alone, script and style elements show their texts unescaped, and a document
node shows what is below it.
-/

namespace RichText.Html

open Markup

/-- The tags of elements that never have content, and so no end tag. -/
def voidTags : List String :=
  ["area", "base", "br", "col", "embed", "hr", "img", "input",
   "link", "meta", "param", "source", "track", "wbr"]

/-- The tags of elements whose text is not escaped. -/
def rawTags : List String := ["script", "style"]

/-- The texts at the top of a forest, as they are. -/
def rawText : Forest Content → String
  | .nil => ""
  | .node (.text content) _ rest => content ++ rawText rest
  | .node _ _ rest => rawText rest

/-- The HTML text of a forest. -/
def print : Forest Content → String
  | .nil => ""
  | .node content below rest =>
    let own :=
      match content with
      | .document => print below
      | .doctype name _ _ => Escape.doctype name
      | .element name attributes =>
        let tag := name.written
        let start := "<" ++ tag ++ Escape.attributes attributes ++ ">"
        if tag ∈ voidTags then start
        else
          start ++ (if tag ∈ rawTags then rawText below else print below) ++ "</" ++ tag ++ ">"
      | .text content => Escape.text content
      | .comment content => Escape.comment content
      | .instruction target content => Escape.instruction target content
    own ++ print rest

end RichText.Html

namespace RichText.Tree

/-- The HTML text of what is below a node. -/
def innerHtml (t : Tree) (r : Ref) : String := Html.print (t.contentBelow r)

/-- The HTML text of a node with all that is below it; nothing for an unknown node. -/
def outerHtml (t : Tree) (r : Ref) : String := Html.print (t.branch r)

end RichText.Tree
