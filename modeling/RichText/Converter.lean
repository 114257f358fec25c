import RichText.Configuration
import RichText.Filter
import RichText.Html.Document
import RichText.Html.Printer
import RichText.Xml.Document
import RichText.Xml.Printer

/-!
Conversion between the two forms of a rich text: an HTML view that is edited, and XML data that is stored.

A view is a sequence of nodes; a data document wraps it in one root element. Either way the nodes are copied
below the new root, and one pass of rules over them writes the new form.
-/

namespace RichText

/-- How data documents are made. -/
structure Settings where
  /-- The element that wraps a data document. -/
  dataRoot : String := "div"
  /-- The namespace of the elements of data documents. -/
  dataNamespace : String := Uri.richText
  /-- The prefixes that are resolved when attributes are written. -/
  namespaces : NamespaceTable := .standard
  deriving DecidableEq, Repr, Inhabited

/-- Why a conversion fails. -/
inductive ConversionError where
  /-- The view is no fragment of a document. -/
  | fragment (error : FragmentError)
  /-- The data document has no root element. -/
  | missingRoot
  /-- The tree refused an edit while the content was moved over. -/
  | tree (error : TreeError)
  /-- A rule failed, or writing its changes did. -/
  | filter (error : FilterError)
  /-- The bound on the length of the walk was too small. -/
  | outOfFuel
  deriving DecidableEq, Repr

/-- The text of an error. -/
def ConversionError.message : ConversionError → String
  | fragment error => "Markup error: " ++ error.message
  | missingRoot => "Data document has no root element"
  | tree error => "DOM error: " ++ error.message
  | filter error => "Filter error: " ++ error.message
  | outOfFuel => "The walk was cut short"

/-- A converter: its settings and the rules of both directions. -/
structure Converter (κ σ : Type) where
  settings : Settings
  rules : Compiled κ σ

namespace Converter

variable {κ σ : Type}

/-- A converter with the rules of a custom configuration over a default one. -/
def ofConfigurations (settings : Settings) (custom default : Option (Configuration κ σ)) : Converter κ σ :=
  ⟨settings, Configuration.compile custom default⟩

/-- Runs rules over what is below a node. -/
def filter (c : Converter κ σ) (rules : RuleSet κ σ) (context : κ) (container : Ref) (tree : Tree)
    (journal : σ) : Except ConversionError Tree × σ :=
  match ({ rules, namespaces := c.settings.namespaces, context } : Filter κ σ).apply container tree journal with
  | (.ok (), tree, journal) => (.ok tree, journal)
  | (.error (.failed error), _, journal) => (.error (.filter error), journal)
  | (.error .outOfFuel, _, journal) => (.error .outOfFuel, journal)

/-- A new data document with an empty root element, and that element. -/
def emptyData (settings : Settings) : Ref × Tree :=
  let (root, t) := Tree.empty.createElement settings.dataNamespace settings.dataRoot
  (some root, (t.appendChild Tree.root (some root)).toOption.getD t)

/-- An HTML document with an empty body, and that body. It is what an empty HTML text holds. -/
def emptyView : Ref × Tree :=
  let element (tag : String) (below rest : Forest Content) : Forest Content :=
    .node (.element ⟨Uri.xhtml, "", tag⟩ []) below rest
  (some 3, .ofForest (element "html" (element "head" .nil (element "body" .nil .nil)) .nil))

/-- Copies the children of a node of one tree below a node of another. -/
def moveOver (source : Tree) (container : Ref) (target : Tree) (place : Ref) :
    Except ConversionError Tree :=
  match Tree.Edit.copyChildren source container place target with
  | (.ok (), t) => .ok t
  | (.error error, _) => .error (.tree error)

/-- The data tree of a view tree whose nodes are below `body`. -/
def treeToData (c : Converter κ σ) (context : κ) (view : Tree) (body : Ref) (journal : σ) :
    Except ConversionError (Ref × Tree) × σ :=
  let (root, t) := emptyData c.settings
  match moveOver view body t root with
  | .error error => (.error error, journal)
  | .ok t =>
    let (answer, journal) := c.filter c.rules.toData context root t journal
    (answer.map ((root, ·)), journal)

/-- The view tree of a data tree whose nodes are below `root`. -/
def treeToView (c : Converter κ σ) (context : κ) (data : Tree) (root : Ref) (journal : σ) :
    Except ConversionError (Ref × Tree) × σ :=
  let (body, t) := emptyView
  match moveOver data root t body with
  | .error error => (.error error, journal)
  | .ok t =>
    let (answer, journal) := c.filter c.rules.toView context body t journal
    (answer.map ((body, ·)), journal)

/-- Converts an HTML view to an XML data document. -/
def toData (c : Converter κ σ) (context : κ) (view : String) (journal : σ) :
    Except ConversionError String × σ :=
  match Tree.ofFragment view with
  | .error error => (.error (.fragment error), journal)
  | .ok (t, body) =>
    let (answer, journal) := c.treeToData context t (some body) journal
    (answer.map fun (root, t) => t.outerXml root, journal)

/-- Converts an XML data document to an HTML view. A blank text is an empty view. -/
def toView (c : Converter κ σ) (context : κ) (data : String) (journal : σ) :
    Except ConversionError String × σ :=
  if Text.allBlank data then (.ok "", journal)
  else
    let t := Tree.ofXml data
    match t.documentElement with
    | none => (.error .missingRoot, journal)
    | root =>
      let (answer, journal) := c.treeToView context t root journal
      (answer.map fun (body, t) => t.innerHtml body, journal)

end Converter

end RichText
