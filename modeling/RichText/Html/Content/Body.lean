import RichText.Html.Content.Head
import RichText.Html.Foreign
import RichText.Html.Misnesting

/-!
The body of a document: running text, blocks, lists, forms and what is embedded in them.
-/

namespace RichText.Html.Draft

/-- Forbids a frameset in the place of the body. -/
def noFrameset (d : Draft) : Draft := { d with framesetOk := false }

/-- The second outermost open element, if it is the body. -/
def body? (d : Draft) : Option Element := (d.stack.reverse[1]?).filter (·.is "body")

/-- Closes a list item before another one of the same list. `tags` are the tags of such items. -/
def closeItem (d : Draft) (tags : List String) : List Element → Draft
  | [] => d
  | e :: rest =>
    if e.isOneOf tags then (d.closeImplied e.tag).popThrough e.tag
    else if e.isOneOf specialTags && !e.isOneOf ["address", "div", "p"] then d
    else closeItem d tags rest

/-- Opens the element of a tag in another namespace, or puts it there closed if the tag ends in a slash. -/
def insertForeign (d : Draft) (space : String) (tag : Tag) : Draft :=
  let d := (d.insertElement space (Foreign.tagIn space tag.name) (Foreign.attributesIn space tag)).2
  if tag.selfClosing then d.pop else d

/-- A start tag that opens a block. -/
def readBlockStart (d : Draft) (tag : Tag) : Draft :=
  let d := d.closeParagraph
  if headings.contains tag.name then (if d.atOneOf headings then d.pop else d).insert tag
  else if tag.name = "pre" || tag.name = "listing" then
    { (d.insert tag).noFrameset with skipNewline := true }
  else if tag.name = "plaintext" then { d.insert tag with reading := .plain }
  else if tag.name = "hr" then (d.insertClosed tag).noFrameset
  else if tag.name = "xmp" then d.reopenFormatting.noFrameset.readText tag (.raw tag.name)
  else d.insert tag

/-- A start tag that closes an open paragraph. -/
def isBlockStart (name : String) : Bool :=
  blockTags.contains name || headings.contains name
    || ["pre", "listing", "plaintext", "hr", "xmp"].contains name

/-- Closes an open link, which a second link is not to stand in. -/
def closeLink (d : Draft) : Draft :=
  match d.recentFormatting.find? (·.tag == "a") with
  | none => d
  | some e => ((d.closeFormatting "a").dropFormatting e.id).dropOpen e.id

/-- A start tag of text level. -/
def readInlineStart (d : Draft) (tag : Tag) : Draft :=
  let name := tag.name
  if name = "a" then d.closeLink.reopenFormatting.insertFormatting tag
  else if formattingTags.contains name then d.reopenFormatting.insertFormatting tag
  else if name = "nobr" then
    let d := d.reopenFormatting
    let d := if d.isInScope inDefault "nobr" then (d.closeFormatting "nobr").reopenFormatting else d
    d.insertFormatting tag
  else if ["applet", "marquee", "object"].contains name then
    (d.reopenFormatting.insert tag).pushBoundary.noFrameset
  else if ["area", "br", "embed", "img", "keygen", "wbr"].contains name then
    (d.reopenFormatting.insertClosed tag).noFrameset
  else if name = "input" then
    let d := d.reopenFormatting.insertClosed tag
    if tag.attributes.any fun (key, value) => key == "type" && value.toLower == "hidden" then d
    else d.noFrameset
  else if ["param", "source", "track"].contains name then d.insertClosed tag
  else if name = "button" then
    let d := if d.isInScope inDefault "button" then d.close "button" else d
    (d.reopenFormatting.insert tag).noFrameset
  else if name = "textarea" then
    { d.noFrameset.readText tag (.escapable name) with skipNewline := true }
  else if name = "iframe" then d.noFrameset.readText tag (.raw name)
  else if name = "noembed" || name = "noscript" then d.readText tag (.raw name)
  else if name = "optgroup" || name = "option" then
    (if d.atElement "option" then d.pop else d).reopenFormatting.insert tag
  else if name = "rb" || name = "rtc" then
    (if d.isInScope inDefault "ruby" then d.closeImplied "" else d).insert tag
  else if name = "rp" || name = "rt" then
    (if d.isInScope inDefault "ruby" then d.closeImplied "rtc" else d).insert tag
  else if name = "math" then d.reopenFormatting.insertForeign Uri.mathml tag
  else if name = "svg" then d.reopenFormatting.insertForeign Uri.svg tag
  else d.reopenFormatting.insert tag

/-- Start tags that have no place in a body. -/
def strayTags : List String :=
  ["caption", "col", "colgroup", "frame", "head", "tbody", "td", "tfoot", "th", "thead", "tr"]

/-- A start tag in the body. -/
def readBodyStart (d : Draft) (tag : Tag) : Draft :=
  let name := tag.name
  if name = "html" then d.mergeRoot tag
  else if headTags.contains name then d.readHeadTag tag
  else if name = "body" then
    match d.body? with
    | some body => if d.hasOpen "template" then d else d.noFrameset.addAttributes body.id tag
    | none => d
  else if name = "frameset" then
    match d.body? with
    | some body =>
      if !d.framesetOk then d
      else
        let d := d.edited (d.tree.detach (some body.id))
        { { d with stack := d.stack.drop (d.stack.length - 1) }.insert tag with mode := .inFrameset }
    | none => d
  else if name = "form" then
    if d.form.isSome && !d.hasOpen "template" then d
    else
      let d := d.closeParagraph.insert tag
      if d.hasOpen "template" then d else { d with form := d.current?.map Element.id }
  else if name = "li" then
    let d := d.noFrameset
    (d.closeItem ["li"] d.stack).closeParagraph.insert tag
  else if name = "dd" || name = "dt" then
    let d := d.noFrameset
    (d.closeItem ["dd", "dt"] d.stack).closeParagraph.insert tag
  else if name = "table" then
    let d := if d.oldRules then d else d.closeParagraph
    { (d.insert tag).noFrameset with mode := .inTable }
  else if name = "select" then
    let inTableMode := [Mode.inTable, .inCaption, .inTableBody, .inRow, .inCell].contains d.mode
    { (d.reopenFormatting.insert tag).noFrameset with
      mode := if inTableMode then .inSelectInTable else .inSelect }
  else if strayTags.contains name then d
  else if isBlockStart name then d.readBlockStart tag
  else if name = "image" then d.readInlineStart { tag with name := "img" }
  else d.readInlineStart tag

/-- The end tag of a form. -/
def readFormEnd (d : Draft) : Draft :=
  if d.hasOpen "template" then
    if d.isInScope inDefault "form" then d.close "form" else d
  else
    match d.form with
    | none => d
    | some form =>
      let d := { d with form := none }
      if hasInScope inDefault (·.id == form) d.stack then (d.closeImplied "").dropOpen form else d

/-- An end tag in the body. -/
def readBodyEnd (d : Draft) (name : String) : Draft :=
  if name = "template" then d.readTemplateEnd
  else if closableTags.contains name then if d.isInScope inDefault name then d.close name else d
  else if name = "form" then d.readFormEnd
  else if name = "p" then
    (if d.isInScope inButton "p" then d else d.insertBare "p").closeParagraph
  else if name = "li" then
    if d.isInScope inListItem "li" then (d.closeImplied "li").popThrough "li" else d
  else if name = "dd" || name = "dt" then
    if d.isInScope inDefault name then (d.closeImplied name).popThrough name else d
  else if headings.contains name then
    if d.isOneInScope inDefault headings then (d.closeImplied "").popThroughOneOf headings else d
  else if name = "a" || name = "nobr" || formattingTags.contains name then d.closeFormatting name
  else if ["applet", "marquee", "object"].contains name then
    if d.isInScope inDefault name then (d.close name).clearFormatting else d
  else if name = "br" then d.readInlineStart { name := "br" }
  else closeAny name d d.stack

/-- The end of the document, unless a template is open. -/
def readFinish (d : Draft) (token : Token) : Outcome :=
  if d.hasOpen "template" then .again d.closeTemplate token else .done d

/-- In the body. -/
def readInBody (d : Draft) (token : Token) : Outcome :=
  match token with
  | .null | .doctype _ => .done d
  | .space text => .done (d.reopenFormatting.insertText text)
  | .text text => .done (d.reopenFormatting.insertText text).noFrameset
  | .comment content => .done (d.insertComment content)
  | .startTag tag => .done (d.readBodyStart tag)
  | .endTag name =>
    if name = "body" then
      .done (if d.isInScope inDefault "body" then { d with mode := .afterBody } else d)
    else if name = "html" then
      if d.isInScope inDefault "body" then .again { d with mode := .afterBody } token else .done d
    else .done (d.readBodyEnd name)
  | .finish => d.readFinish token

/-- In the text of an element that holds nothing else. -/
def readInText (d : Draft) (token : Token) : Outcome :=
  let left := { d.pop with mode := d.returnMode, reading := .content }
  match token with
  | .space text | .text text => .done (d.insertText text)
  | .endTag _ => .done left
  | .finish => .again left token
  | _ => .done d

end RichText.Html.Draft
