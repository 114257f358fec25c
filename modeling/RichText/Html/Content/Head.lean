import RichText.Html.Draft
import RichText.Html.OldDoctype

/-!
What comes before the body: the document type, the root element and the head.

Whatever has no place there makes the missing elements appear and is then read again in the next mode.
-/

namespace RichText.Html

/-- Adds the attributes of a repeated `html` tag to the root element. -/
def Draft.mergeRoot (d : Draft) (tag : Tag) : Draft :=
  if d.hasOpen "template" then d
  else
    match d.stack.getLast? with
    | some root => d.addAttributes root.id tag
    | none => d

/-- Closes an open template. -/
def Draft.closeTemplate (d : Draft) : Draft :=
  let d := { d with stack := d.stack.dropWhile (·.isOneOf allImpliedTags) }
  let d := (d.popThrough "template").clearFormatting
  { d with templateModes := d.templateModes.tail }.resetMode

/-- End tags that count where most others are ignored. -/
def isOuterEnd (name : String) : Bool := ["head", "body", "html", "br"].contains name

/-- Before everything else. -/
def Draft.readInitial (d : Draft) (token : Token) : Outcome :=
  match token with
  | .space _ => .done d
  | .comment content => .done (d.appendComment 0 content)
  | .doctype doctype =>
    let (id, d) := d.create <|
      .doctype (doctype.name.getD "") (doctype.publicId.getD "") (doctype.systemId.getD "")
    .done { d.put (.inside 0) id with oldRules := doctype.isOld, mode := .beforeHtml }
  | _ => .again { d with oldRules := true, mode := .beforeHtml } token

/-- Opens the root element. -/
def Draft.openRoot (d : Draft) (tag : Tag) : Draft :=
  { d.insert tag with mode := .beforeHead }

/-- Before the root element. -/
def Draft.readBeforeHtml (d : Draft) (token : Token) : Outcome :=
  let missing := Outcome.again (d.openRoot { name := "html" }) token
  match token with
  | .space _ | .doctype _ => .done d
  | .comment content => .done (d.appendComment 0 content)
  | .startTag tag => if tag.name = "html" then .done (d.openRoot tag) else missing
  | .endTag name => if isOuterEnd name then missing else .done d
  | _ => missing

/-- Opens the head. -/
def Draft.openHead (d : Draft) (tag : Tag) : Draft :=
  let d := d.insert tag
  { d with head := d.current?.map Element.id, mode := .inHead }

/-- Before the head. -/
def Draft.readBeforeHead (d : Draft) (token : Token) : Outcome :=
  let missing := Outcome.again (d.openHead { name := "head" }) token
  match token with
  | .space _ | .doctype _ => .done d
  | .comment content => .done (d.insertComment content)
  | .startTag tag =>
    if tag.name = "html" then .done (d.mergeRoot tag)
    else if tag.name = "head" then .done (d.openHead tag)
    else missing
  | .endTag name => if isOuterEnd name then missing else .done d
  | _ => missing

/-- The start tag of an element that belongs to the head. -/
def Draft.readHeadTag (d : Draft) (tag : Tag) : Draft :=
  if tag.name = "title" then d.readText tag (.escapable tag.name)
  else if tag.name = "noframes" || tag.name = "style" then d.readText tag (.raw tag.name)
  else if tag.name = "script" then d.readText tag .script
  else if tag.name = "template" then
    { (d.insert tag).pushBoundary with
      framesetOk := false, mode := .inTemplate, templateModes := .inTemplate :: d.templateModes }
  else d.insertClosed tag

/-- The end tag of a template. -/
def Draft.readTemplateEnd (d : Draft) : Draft := if d.hasOpen "template" then d.closeTemplate else d

/-- In the head. -/
def Draft.readInHead (d : Draft) (token : Token) : Outcome :=
  let leave := Outcome.again { d.pop with mode := .afterHead } token
  match token with
  | .space text => .done (d.insertText text)
  | .comment content => .done (d.insertComment content)
  | .doctype _ => .done d
  | .startTag tag =>
    if tag.name = "html" then .done (d.mergeRoot tag)
    else if tag.name = "noscript" then .done (d.readText tag (.raw tag.name))
    else if headTags.contains tag.name then .done (d.readHeadTag tag)
    else if tag.name = "head" then .done d
    else leave
  | .endTag name =>
    if name = "head" then .done { d.pop with mode := .afterHead }
    else if name = "template" then .done d.readTemplateEnd
    else if isOuterEnd name then leave
    else .done d
  | _ => leave

/-- After the head. -/
def Draft.readAfterHead (d : Draft) (token : Token) : Outcome :=
  let missing := Outcome.again { d.insertBare "body" with mode := .inBody } token
  match token with
  | .space text => .done (d.insertText text)
  | .comment content => .done (d.insertComment content)
  | .doctype _ => .done d
  | .startTag tag =>
    if tag.name = "html" then .done (d.mergeRoot tag)
    else if tag.name = "body" then .done { d.insert tag with framesetOk := false, mode := .inBody }
    else if tag.name = "frameset" then .done { d.insert tag with mode := .inFrameset }
    else if headTags.contains tag.name then
      match d.head with
      | none => .done d
      | some head =>
        let d := { d with stack := ⟨head, Uri.xhtml, "head", []⟩ :: d.stack }
        .done ((d.readHeadTag tag).dropOpen head)
    else if tag.name = "head" then .done d
    else missing
  | .endTag name =>
    if name = "template" then .done d.readTemplateEnd
    else if isOuterEnd name then missing
    else .done d
  | _ => missing

end RichText.Html
