import RichText.Tree.Basic

/-!
Writing the data of nodes.

Plain attributes are found by their written name and stored without a namespace; namespaced attributes are
found by namespace and local part. A new name stores its strings even where the edit is then refused, so
every edit answers with the tree it leaves.
-/

namespace RichText.Tree

/-- An edit of a tree, which gives an answer or an error and in both cases leaves a tree. -/
abbrev Edit := ExceptT TreeError (StateM Tree)

namespace Edit

/-- An edit that leaves the tree as it was when it is refused. -/
def ofExcept (f : Tree → Except TreeError Tree) : Edit Unit := fun t =>
  match f t with
  | .ok t => (.ok (), t)
  | .error e => (.error e, t)

/-- Stores a string. -/
def intern (s : String) : Edit Symbol :=
  modifyGet fun t => let (symbol, symbols) := t.symbols.intern s; (symbol, { t with symbols })

/-- Stores the strings of a name. -/
def internName (name : Name) : Edit (QualifiedName Symbol) :=
  modifyGet fun t => let (name, symbols) := t.symbols.internName name; (name, { t with symbols })

/-- Adds a detached element without attributes. -/
def createElement (space written : String) : Edit Nat := modifyGet fun t => t.createElement space written

/-- The attributes of the element that is to be written to. -/
def elementAttributes (r : Ref) : Edit (List (Attribute Symbol)) := do
  match (← get).data? r with
  | none => throw (.notFound r)
  | some (.element _ attributes) => return attributes
  | some _ => throw (.notAnElement r)

end Edit

/-- Gives an element other attributes. -/
def putAttributes (t : Tree) (r : Ref) (attributes : List (Attribute Symbol)) : Tree :=
  t.update r fun n =>
    match n.data with
    | .element name _ => { n with data := .element name attributes }
    | _ => n

/-- Replaces the first entry for which `p` holds by its image, or appends `new` if there is none. -/
def replaceOrPush {α : Type} (p : α → Bool) (f : α → α) (new : α) : List α → List α
  | [] => [new]
  | a :: rest => if p a then f a :: rest else a :: replaceOrPush p f new rest

/-- Whether an attribute has this written name. -/
def hasWritten (t : Tree) (written : String) (a : Attribute Symbol) : Bool :=
  (t.symbols.resolveName a.name).written == written

/-- Whether an attribute has this namespace and local part. -/
def hasKey (space localPart : Symbol) (a : Attribute Symbol) : Bool :=
  a.name.space == space && a.name.localPart == localPart

namespace Edit

/-- Sets the attribute with this written name. One that is present keeps its name and its place; a new one
has no namespace and the whole name as its local part. -/
def setAttribute (r : Ref) (written value : String) : Edit Unit := do
  let localPart ← intern written
  let attributes ← elementAttributes r
  modify fun t => t.putAttributes r <|
    replaceOrPush (t.hasWritten written) (fun a => { a with value })
      ⟨⟨0, 0, localPart⟩, value⟩ attributes

/-- Removes the attribute with this written name; answers whether there was one. -/
def removeAttribute (r : Ref) (written : String) : Edit Bool := do
  let attributes ← elementAttributes r
  modifyGet fun t =>
    (attributes.any (t.hasWritten written),
      t.putAttributes r (attributes.eraseP (t.hasWritten written)))

/-- Sets the attribute with this namespace and the local part of `written`. One that is present keeps its
place and takes the prefix of `written`. -/
def setAttributeNS (r : Ref) (space written value : String) : Edit Unit := do
  let name ← internName (.ofWritten space written)
  let attributes ← elementAttributes r
  modify fun t => t.putAttributes r <|
    replaceOrPush (hasKey name.space name.localPart)
      (fun a => ⟨{ a.name with nsPrefix := name.nsPrefix }, value⟩) ⟨name, value⟩ attributes

/-- Removes the attribute with this namespace and local part; answers whether there was one. -/
def removeAttributeNS (r : Ref) (space localPart : String) : Edit Bool := do
  let space ← intern space
  let localPart ← intern localPart
  let attributes ← elementAttributes r
  modifyGet fun t =>
    (attributes.any (hasKey space localPart),
      t.putAttributes r (attributes.eraseP (hasKey space localPart)))

end Edit

/-- Changes the content of a text node. -/
def setText (t : Tree) (r : Ref) (content : String) : Except TreeError Tree :=
  match t.text? r with
  | some _ => .ok (t.update r fun n => { n with data := .text content })
  | none => .error (.notFound r)

end RichText.Tree
