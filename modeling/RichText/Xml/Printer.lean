import RichText.Markup.Escape

/-!
XML text of forests and trees.

Every start tag carries the declarations that its names need and that are not in scope yet. Declarations
that stand in the tree as attributes are written as such and count like any other.
-/

namespace RichText.Xml

open Markup

/-- The namespace declarations in force: the default namespace, and the prefixes with the innermost
binding first. -/
structure Scope where
  default : String
  bindings : List (String × String)
  deriving DecidableEq, Repr

namespace Scope

/-- Whether a prefix stands for a namespace here. The prefixes `xml` and `xmlns` need no declaration. -/
def binds (scope : Scope) (nsPrefix uri : String) : Bool :=
  nsPrefix = "xml" || nsPrefix = "xmlns" || scope.bindings.lookup nsPrefix == some uri

/-- Adds a binding. -/
def bind (scope : Scope) (nsPrefix uri : String) : Scope :=
  { scope with bindings := (nsPrefix, uri) :: scope.bindings }

end Scope

/-- The prefix that an attribute with this written name declares. -/
def declaredPrefix? (written : String) : Option String :=
  match written.toList with
  | 'x' :: 'm' :: 'l' :: 'n' :: 's' :: ':' :: nsPrefix => some (String.ofList nsPrefix)
  | _ => none

/-- The scope after the declarations among the attributes of an element. -/
def Scope.explicit (scope : Scope) : List (Attribute String) → Scope
  | [] => scope
  | a :: rest =>
    let scope :=
      if a.name.written = "xmlns" then { scope with default := a.value }
      else
        match declaredPrefix? a.name.written with
        | some nsPrefix => scope.bind nsPrefix a.value
        | none => scope
    scope.explicit rest

/-- Declarations to be written on one start tag, as name and value, with the scope they lead to. -/
structure Declared where
  scope : Scope
  written : List (String × String)

/-- Declares what an element's own name needs. `explicit` holds the written names of its attributes. -/
def Declared.forElement (scope : Scope) (explicit : List String) (name : Name) : Declared :=
  if name.nsPrefix = "" then
    if scope.default ≠ name.space && "xmlns" ∉ explicit then
      ⟨{ scope with default := name.space }, [("xmlns", name.space)]⟩
    else ⟨scope, []⟩
  else
    let declaration := "xmlns:" ++ name.nsPrefix
    if !scope.binds name.nsPrefix name.space && declaration ∉ explicit then
      ⟨scope.bind name.nsPrefix name.space, [(declaration, name.space)]⟩
    else ⟨scope, []⟩

/-- Declares what the name of an attribute needs. -/
def Declared.forAttribute (explicit : List String) (d : Declared) (name : Name) : Declared :=
  let declaration := "xmlns:" ++ name.nsPrefix
  if name.nsPrefix ≠ "" && name.space ≠ "" && name.space ≠ Uri.xmlns
      && !d.scope.binds name.nsPrefix name.space
      && declaration ∉ explicit && declaration ∉ d.written.map Prod.fst then
    ⟨d.scope.bind name.nsPrefix name.space, d.written ++ [(declaration, name.space)]⟩
  else d

/-- The declarations that a start tag needs beyond its own attributes, and the scope of its content. -/
def Scope.declare (scope : Scope) (name : Name) (attributes : List (Attribute String)) : Declared :=
  let explicit := attributes.map (·.name.written)
  (attributes.map Attribute.name).foldl (Declared.forAttribute explicit)
    (Declared.forElement (scope.explicit attributes) explicit name)

/-- The XML text of a forest. -/
def print (scope : Scope) : Forest Content → String
  | .nil => ""
  | .node content below rest =>
    let own :=
      match content with
      | .document => print scope below
      | .doctype name _ _ => Escape.doctype name
      | .element name attributes =>
        let tag := name.written
        let declared := scope.declare name attributes
        let start := "<" ++ tag ++ Escape.attributes attributes
          ++ String.join (declared.written.map fun (name, uri) => Escape.assigned name uri)
        match below with
        | .nil => start ++ "/>"
        | .node .. => start ++ ">" ++ print declared.scope below ++ "</" ++ tag ++ ">"
      | .text content => Escape.text content
      | .comment content => Escape.comment content
      | .instruction target content => Escape.instruction target content
    own ++ print scope rest

end RichText.Xml

namespace RichText.Tree

/-- The default namespace in force inside `r`: that of the innermost element without a prefix among `r` and
its ancestors. -/
def inheritedDefault (t : Tree) (r : Ref) : String :=
  let names := (t.ancestorsOrSelf r).filterMap fun id => t.name? (some id)
  ((names.find? (·.nsPrefix == "")).map QualifiedName.space).getD ""

/-- The XML text of what is below a node. -/
def innerXml (t : Tree) (r : Ref) : String := Xml.print ⟨t.inheritedDefault r, []⟩ (t.contentBelow r)

/-- The XML text of a node with all that is below it; nothing for an unknown node. -/
def outerXml (t : Tree) (r : Ref) : String :=
  Xml.print ⟨t.inheritedDefault (t.parent r), []⟩ (t.branch r)

/-- The XML text of a whole tree, without an XML declaration. -/
def toXml (t : Tree) : String := t.outerXml root

end RichText.Tree
