import RichText.Keyed
import RichText.Tree.Attributes

/-!
Namespace tables, and attributes written under them.

A table binds prefixes to namespaces. An attribute whose prefix is bound is stored in that namespace, and its
prefix is declared on the document element; any other attribute is plain, colons included. The name `xmlns`
is no attribute: it selects the namespace of an element.
-/

namespace RichText

/-- Prefixes and their namespaces in the order in which the prefixes were first bound. -/
structure NamespaceTable where
  entries : List (String × String)
  deriving DecidableEq, Repr, Inhabited

namespace NamespaceTable

/-- A table without any prefix. -/
def empty : NamespaceTable := ⟨[]⟩

/-- Binds a prefix; one that is bound already keeps its place. -/
def bind (table : NamespaceTable) (nsPrefix uri : String) : NamespaceTable :=
  ⟨Keyed.put nsPrefix uri table.entries⟩

/-- The namespace of a prefix. -/
def uri? (table : NamespaceTable) (nsPrefix : String) : Option String := table.entries.lookup nsPrefix

/-- The prefixes `xlink`, `xml` and `xmlns` with their standard namespaces. -/
def standard : NamespaceTable := ⟨[("xlink", Uri.xlink), ("xml", Uri.xml), ("xmlns", Uri.xmlns)]⟩

/-- How a table resolves an attribute key: its prefix, the namespace of that and the local part. `none` for
a key that is written as a plain name. -/
def resolve? (table : NamespaceTable) (key : String) : Option (String × String × String) :=
  match splitName key with
  | (some nsPrefix, localPart) => (table.uri? nsPrefix).map fun uri => (nsPrefix, uri, localPart)
  | (none, _) => none

end NamespaceTable

namespace Tree.Edit

/-- Declares a prefix on the document element, unless it is declared there already. The prefixes `xml` and
`xmlns` need no declaration, and declarations are never taken back. -/
def declarePrefix (nsPrefix uri : String) : Edit Unit := do
  if nsPrefix = "xml" || nsPrefix = "xmlns" then return
  let t ← get
  match t.documentElement with
  | none => return
  | some id => do
    let declaration := "xmlns:" ++ nsPrefix
    if (t.attributeNS? (some id) Uri.xmlns nsPrefix).isSome
        || (t.attribute? (some id) declaration).isSome then return
    setAttributeNS (some id) Uri.xmlns declaration uri

/-- Writes one attribute of an element, or removes it if there is no value. -/
def writeAttribute (namespaces : NamespaceTable) (element : Ref) (key : String) (value : Option String) :
    Edit Unit := do
  if key = "xmlns" then return
  match namespaces.resolve? key, value with
  | some (nsPrefix, uri, _), some value => do
    setAttributeNS element uri key value
    declarePrefix nsPrefix uri
  | some (_, uri, localPart), none => do
    let _ ← removeAttributeNS element uri localPart
  | none, some value => setAttribute element key value
  | none, none => do
    let _ ← removeAttribute element key

/-- Writes attributes of an element one after another. -/
def writeAttributes (namespaces : NamespaceTable) (element : Ref) : List (String × Option String) → Edit Unit
  | [] => pure ()
  | (key, value) :: rest => do
    writeAttribute namespaces element key value
    writeAttributes namespaces element rest

end Tree.Edit

end RichText
