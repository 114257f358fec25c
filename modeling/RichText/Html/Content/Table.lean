import RichText.Html.Content.Body

/-!
Tables. What has no place in a table is moved out of it, and parts that are missing around a cell or a row
are made up.
-/

namespace RichText.Html.Draft

/-- Reads a token by the rules of the body and moves new content out of the table. -/
def readFostered (d : Draft) (token : Token) : Outcome :=
  match { d with fostering := true }.readInBody token with
  | .done d => .done { d with fostering := false }
  | .again d token => .again { d with fostering := false } token

/-- Tags that stand in a table's own structure. -/
def structureTags : List String :=
  ["caption", "col", "colgroup", "tbody", "td", "tfoot", "th", "thead", "tr"]

/-- In a table, outside its rows. -/
def readInTable (d : Draft) (token : Token) : Outcome :=
  let within := d.popTo ["table", "template", "html"]
  match token with
  | .space _ | .text _ | .null =>
    if d.atOneOf ("template" :: tableParts) then
      .again { d with returnMode := d.mode, mode := .inTableText, tableText := [] } token
    else d.readFostered token
  | .comment content => .done (d.insertComment content)
  | .doctype _ => .done d
  | .startTag tag =>
    let name := tag.name
    if name = "caption" then .done { within.pushBoundary.insert tag with mode := .inCaption }
    else if name = "colgroup" then .done { within.insert tag with mode := .inColumnGroup }
    else if name = "col" then .again { within.insertBare "colgroup" with mode := .inColumnGroup } token
    else if ["tbody", "tfoot", "thead"].contains name then
      .done { within.insert tag with mode := .inTableBody }
    else if ["td", "th", "tr"].contains name then
      .again { within.insertBare "tbody" with mode := .inTableBody } token
    else if name = "table" then
      if d.isInScope inTable "table" then .again (d.popThrough "table").resetMode token else .done d
    else if ["style", "script", "template"].contains name then .done (d.readHeadTag tag)
    else if name = "input"
        && tag.attributes.any (fun (key, value) => key == "type" && value.toLower == "hidden") then
      .done (d.insertClosed tag)
    else if name = "form" then
      if d.hasOpen "template" || d.form.isSome then .done d
      else
        let d := d.insert tag
        .done { d with form := d.current?.map Element.id }.pop
    else d.readFostered token
  | .endTag name =>
    if name = "table" then
      .done (if d.isInScope inTable "table" then (d.popThrough "table").resetMode else d)
    else if name = "template" then .done d.readTemplateEnd
    else if name = "body" || name = "html" || structureTags.contains name then .done d
    else d.readFostered token
  | .finish => d.readInBody token

/-- In the text of a table, which is kept until it is known whether it is all white space. -/
def readInTableText (d : Draft) (token : Token) : Outcome :=
  match token with
  | .null => .done d
  | .space _ | .text _ => .done { d with tableText := token :: d.tableText }
  | _ =>
    let tokens := d.tableText.reverse
    let isText : Token → Bool := fun | .text _ => true | _ => false
    let d := { d with tableText := [] }
    let d :=
      if tokens.any isText then
        tokens.foldl (fun d token =>
          match d.readFostered token with
          | .done d | .again d _ => d) d
      else
        tokens.foldl (fun d token =>
          match token with
          | .space text => d.insertText text
          | _ => d) d
    .again { d with mode := d.returnMode } token

/-- Closes an open caption. -/
def closeCaption (d : Draft) : Draft := { (d.close "caption").clearFormatting with mode := .inTable }

/-- In the caption of a table. -/
def readInCaption (d : Draft) (token : Token) : Outcome :=
  let left :=
    if d.isInScope inTable "caption" then Outcome.again d.closeCaption token else Outcome.done d
  match token with
  | .startTag tag => if structureTags.contains tag.name then left else d.readInBody token
  | .endTag name =>
    if name = "caption" then .done (if d.isInScope inTable "caption" then d.closeCaption else d)
    else if name = "table" then left
    else if name = "body" || name = "html" || structureTags.contains name then .done d
    else d.readInBody token
  | _ => d.readInBody token

/-- In a group of columns. -/
def readInColumnGroup (d : Draft) (token : Token) : Outcome :=
  let left := { d.pop with mode := .inTable }
  let other := if d.atElement "colgroup" then Outcome.again left token else Outcome.done d
  match token with
  | .space text => .done (d.insertText text)
  | .comment content => .done (d.insertComment content)
  | .doctype _ => .done d
  | .startTag tag =>
    if tag.name = "html" then .done (d.mergeRoot tag)
    else if tag.name = "col" then .done (d.insertClosed tag)
    else if tag.name = "template" then .done (d.readHeadTag tag)
    else other
  | .endTag name =>
    if name = "colgroup" then .done (if d.atElement "colgroup" then left else d)
    else if name = "col" then .done d
    else if name = "template" then .done d.readTemplateEnd
    else other
  | .finish => d.readInBody token
  | _ => other

/-- In a group of rows. -/
def readInTableBody (d : Draft) (token : Token) : Outcome :=
  let groups := ["tbody", "tfoot", "thead"]
  let within := d.popTo ["tbody", "tfoot", "thead", "template", "html"]
  let left := { within.pop with mode := .inTable }
  let leave := if d.isOneInScope inTable groups then Outcome.again left token else Outcome.done d
  match token with
  | .startTag tag =>
    if tag.name = "tr" then .done { within.insert tag with mode := .inRow }
    else if tag.name = "td" || tag.name = "th" then
      .again { within.insertBare "tr" with mode := .inRow } token
    else if ["caption", "col", "colgroup"].contains tag.name || groups.contains tag.name then leave
    else d.readInTable token
  | .endTag name =>
    if groups.contains name then .done (if d.isInScope inTable name then left else d)
    else if name = "table" then leave
    else if ["body", "caption", "col", "colgroup", "html", "td", "th", "tr"].contains name then .done d
    else d.readInTable token
  | _ => d.readInTable token

/-- In a row. -/
def readInRow (d : Draft) (token : Token) : Outcome :=
  let groups := ["tbody", "tfoot", "thead"]
  let within := d.popTo ["tr", "template", "html"]
  let left := { within.pop with mode := .inTableBody }
  let leave := if d.isInScope inTable "tr" then Outcome.again left token else Outcome.done d
  match token with
  | .startTag tag =>
    if tag.name = "td" || tag.name = "th" then
      .done { within.insert tag with mode := .inCell }.pushBoundary
    else if structureTags.contains tag.name then leave
    else d.readInTable token
  | .endTag name =>
    if name = "tr" then .done (if d.isInScope inTable "tr" then left else d)
    else if name = "table" then leave
    else if groups.contains name then if d.isInScope inTable name then leave else .done d
    else if ["body", "caption", "col", "colgroup", "html", "td", "th"].contains name then .done d
    else d.readInTable token
  | _ => d.readInTable token

/-- Closes an open cell. -/
def closeCell (d : Draft) : Draft :=
  { ((d.closeImplied "").popThroughOneOf ["td", "th"]).clearFormatting with mode := .inRow }

/-- In a cell. -/
def readInCell (d : Draft) (token : Token) : Outcome :=
  match token with
  | .startTag tag =>
    if structureTags.contains tag.name then
      if d.isOneInScope inTable ["td", "th"] then .again d.closeCell token else .done d
    else d.readInBody token
  | .endTag name =>
    if name = "td" || name = "th" then
      .done <|
        if d.isInScope inTable name then { (d.close name).clearFormatting with mode := .inRow } else d
    else if tableParts.contains name then
      if d.isInScope inTable name then .again d.closeCell token else .done d
    else if ["body", "caption", "col", "colgroup", "html"].contains name then .done d
    else d.readInBody token
  | _ => d.readInBody token

end RichText.Html.Draft
