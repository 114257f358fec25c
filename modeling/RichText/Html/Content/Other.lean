import RichText.Html.Content.Table

/-!
Content of its own kind: choices, templates, framesets, foreign elements, and what comes after the body.
-/

namespace RichText.Html.Draft

/-- Closes an open choice. -/
def closeSelect (d : Draft) : Draft := (d.popThrough "select").resetMode

/-- In a choice, where only options have a place. -/
def readInSelect (d : Draft) (token : Token) : Outcome :=
  let popIf (tag : String) (d : Draft) : Draft := if d.atElement tag then d.pop else d
  match token with
  | .null | .doctype _ => .done d
  | .space text | .text text => .done (d.insertText text)
  | .comment content => .done (d.insertComment content)
  | .startTag tag =>
    let name := tag.name
    if name = "html" then .done (d.mergeRoot tag)
    else if name = "option" then .done ((popIf "option" d).insert tag)
    else if name = "optgroup" then .done ((popIf "optgroup" (popIf "option" d)).insert tag)
    else if name = "hr" then .done ((popIf "optgroup" (popIf "option" d)).insertClosed tag)
    else if name = "select" then .done (if d.isInScope inSelect "select" then d.closeSelect else d)
    else if ["input", "keygen", "textarea"].contains name then
      if d.isInScope inSelect "select" then .again d.closeSelect token else .done d
    else if name = "script" || name = "template" then .done (d.readHeadTag tag)
    else .done d
  | .endTag name =>
    if name = "optgroup" then
      let d :=
        if d.atElement "option" && d.stack.tail.head?.any (·.is "optgroup") then d.pop else d
      .done (popIf "optgroup" d)
    else if name = "option" then .done (popIf "option" d)
    else if name = "select" then .done (if d.isInScope inSelect "select" then d.closeSelect else d)
    else if name = "template" then .done d.readTemplateEnd
    else .done d
  | .finish => d.readInBody token

/-- In a choice within a table. -/
def readInSelectInTable (d : Draft) (token : Token) : Outcome :=
  let outer := ["caption", "table", "tbody", "tfoot", "thead", "tr", "td", "th"]
  match token with
  | .startTag tag => if outer.contains tag.name then .again d.closeSelect token else d.readInSelect token
  | .endTag name =>
    if outer.contains name then
      if d.isInScope inTable name then .again d.closeSelect token else .done d
    else d.readInSelect token
  | _ => d.readInSelect token

/-- In a template. The first tag decides what kind of content the template holds. -/
def readInTemplate (d : Draft) (token : Token) : Outcome :=
  let hold (mode : Mode) :=
    Outcome.again { d with mode, templateModes := mode :: d.templateModes.tail } token
  match token with
  | .startTag tag =>
    let name := tag.name
    if headTags.contains name then .done (d.readHeadTag tag)
    else if ["caption", "colgroup", "tbody", "tfoot", "thead"].contains name then hold .inTable
    else if name = "col" then hold .inColumnGroup
    else if name = "tr" then hold .inTableBody
    else if name = "td" || name = "th" then hold .inRow
    else hold .inBody
  | .endTag name => .done (if name = "template" then d.readTemplateEnd else d)
  | .finish => d.readFinish token
  | _ => d.readInBody token

/-- After the body. -/
def readAfterBody (d : Draft) (token : Token) : Outcome :=
  let back := Outcome.again { d with mode := .inBody } token
  match token with
  | .space _ => d.readInBody token
  | .comment content => .done (d.appendComment ((d.stack.getLast?.map Element.id).getD 0) content)
  | .doctype _ | .finish => .done d
  | .startTag tag => if tag.name = "html" then .done (d.mergeRoot tag) else back
  | .endTag name => if name = "html" then .done { d with mode := .afterAfterBody } else back
  | _ => back

/-- After the root element. -/
def readAfterAfterBody (d : Draft) (token : Token) : Outcome :=
  let back := Outcome.again { d with mode := .inBody } token
  match token with
  | .comment content => .done (d.appendComment 0 content)
  | .space _ => d.readInBody token
  | .doctype _ | .finish => .done d
  | .startTag tag => if tag.name = "html" then .done (d.mergeRoot tag) else back
  | _ => back

/-- In a frameset, where only frames have a place. -/
def readInFrameset (d : Draft) (token : Token) : Outcome :=
  match token with
  | .space text => .done (d.insertText text)
  | .comment content => .done (d.insertComment content)
  | .startTag tag =>
    if tag.name = "html" then .done (d.mergeRoot tag)
    else if tag.name = "frameset" then .done (d.insert tag)
    else if tag.name = "frame" then .done (d.insertClosed tag)
    else if tag.name = "noframes" then .done (d.readHeadTag tag)
    else .done d
  | .endTag name =>
    if name = "frameset" && d.stack.length > 1 then
      let d := d.pop
      .done (if d.atElement "frameset" then d else { d with mode := .afterFrameset })
    else .done d
  | _ => .done d

/-- After a frameset. -/
def readAfterFrameset (d : Draft) (token : Token) : Outcome :=
  match token with
  | .space text => .done (d.insertText text)
  | .comment content => .done (d.insertComment content)
  | .startTag tag =>
    if tag.name = "html" then .done (d.mergeRoot tag)
    else if tag.name = "noframes" then .done (d.readHeadTag tag)
    else .done d
  | .endTag name => .done (if name = "html" then { d with mode := .afterAfterFrameset } else d)
  | _ => .done d

/-- After the root element of a document with a frameset. -/
def readAfterAfterFrameset (d : Draft) (token : Token) : Outcome :=
  match token with
  | .comment content => .done (d.appendComment 0 content)
  | .space _ => d.readInBody token
  | .startTag tag =>
    if tag.name = "html" then .done (d.mergeRoot tag)
    else if tag.name = "noframes" then .done (d.readHeadTag tag)
    else .done d
  | _ => .done d

/-- Closes foreign elements up to one that holds HTML. -/
def leaveForeign : List Element → List Element
  | [] => []
  | e :: rest =>
    if e.space == Uri.xhtml || e.isMathText || e.isSvgHost then e :: rest else leaveForeign rest

/-- An end tag in foreign content. The innermost open element that it names in any case is closed; at the
first HTML element, the end tag is read as one of HTML, which `html` does. -/
def readForeignEnd (d : Draft) (name : String) (html : Draft → Outcome) (isFirst : Bool) :
    List Element → Outcome
  | [] | [_] => .done d
  | e :: rest =>
    if !isFirst && e.space == Uri.xhtml then html d
    else if e.tag.toLower == name then .done { d with stack := rest }
    else readForeignEnd d name html false rest

/-- In SVG or MathML. Where HTML begins again, `html` reads the token by the rules of the present mode. -/
def readForeign (d : Draft) (token : Token) (html : Draft → Outcome) : Outcome :=
  let breakOut := html { d with stack := leaveForeign d.stack.tail }
  match token with
  | .null => .done (d.insertText ['\uFFFD'])
  | .space text => .done (d.insertText text)
  | .text text => .done (d.insertText text).noFrameset
  | .comment content => .done (d.insertComment content)
  | .startTag tag =>
    if Foreign.isBreakout tag then breakOut
    else .done (d.insertForeign ((d.current?.map Element.space).getD Uri.xhtml) tag)
  | .endTag name =>
    if name = "br" || name = "p" then breakOut else readForeignEnd d name html true d.stack
  | _ => .done d

end RichText.Html.Draft
