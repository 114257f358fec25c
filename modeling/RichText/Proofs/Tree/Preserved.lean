import RichText.Proofs.Effects
import RichText.Proofs.Tree.Stored

/-!
Invariants of edits.

An edit that writes names or attributes stores strings and exchanges the attributes of a node, and an edit that moves
nodes detaches and inserts them one by one. What none of these can harm is preserved by all such edits, whether they
are refused or not.
-/

namespace RichText.Tree

open Effects

variable {I : Tree → Prop}

/-- Storing strings, and exchanging the attributes of the node `r`, lead from a tree with the invariant to another
one. -/
structure WritableAt (I : Tree → Prop) (r : Ref) : Prop where
  store : ∀ {t : Tree} (s : String), I t → I { t with symbols := (t.symbols.intern s).2 }
  attributes : ∀ {t : Tree} (new : List (Attribute Symbol)), I t → I (t.putAttributes r new)

/-- Storing strings and exchanging attributes lead from a tree with the invariant to another one. -/
structure Writable (I : Tree → Prop) : Prop where
  store : ∀ {t : Tree} (s : String), I t → I { t with symbols := (t.symbols.intern s).2 }
  attributes : ∀ {t : Tree} (r : Ref) (new : List (Attribute Symbol)), I t → I (t.putAttributes r new)

theorem Writable.at (h : Writable I) (r : Ref) : WritableAt I r := ⟨h.store, h.attributes r⟩

/-- Detaching and inserting single nodes lead from a tree with the invariant to another one. -/
structure Movable (I : Tree → Prop) : Prop where
  detach : ∀ {t u : Tree} {r : Ref}, t.detach r = .ok u → I t → I u
  insertBefore : ∀ {t u : Tree} {parent child : Ref} {reference : Option Ref},
    t.insertBefore parent child reference = .ok u → I t → I u

theorem invariant_foldlM {t u : Tree} {move : Tree → Nat → Except TreeError Tree}
    (hm : ∀ {t c u}, move t c = .ok u → I t → I u) {l : List Nat} (hu : l.foldlM move t = .ok u) (ht : I t) : I u := by
  induction l generalizing t with
  | nil =>
    cases hu
    exact ht
  | cons c l ih =>
    rw [List.foldlM_cons] at hu
    obtain ⟨v, hv, hu⟩ := bind_eq_ok hu
    exact ih hu (hm hv ht)

namespace Movable

variable {t u : Tree} {r : Ref} (h : Movable I)
include h

/-- A child is replaced by inserting the new one and detaching the old one. -/
theorem replaceChild {parent new old : Ref} (hu : t.replaceChild parent new old = .ok u) (ht : I t) : I u := by
  unfold Tree.replaceChild at hu
  split_ifs at hu
  · cases hu
    exact ht
  · obtain ⟨v, hv, hu⟩ := bind_eq_ok hu
    exact h.detach hu (h.insertBefore hv ht)

theorem removeChildren (hu : t.removeChildren r = .ok u) (ht : I t) : I u := invariant_foldlM h.detach hu ht

end Movable

theorem preserves_ofExcept {f : Tree → Except TreeError Tree} (hf : ∀ {t u}, I t → f t = .ok u → I u) :
    Preserves I (Edit.ofExcept f) := by
  intro t ht
  unfold Edit.ofExcept
  cases hr : f t with
  | error e => exact ht
  | ok u => exact hf ht hr

theorem preserves_elementAttributes (r : Ref) : Preserves I (Edit.elementAttributes r) := by
  refine .bind_get fun t _ => ?_
  split
  · exact .throw _
  · exact .pure _
  · exact .throw _

namespace WritableAt

variable {α : Type} {r : Ref}

theorem intern (h : WritableAt I r) (s : String) : Preserves I (Edit.intern s) := fun _ ht => h.store s ht

/-- The three parts of a name are stored one after another. -/
theorem internName (h : WritableAt I r) (name : Name) : Preserves I (Edit.internName name) := fun _ ht =>
  h.store name.localPart (h.store name.nsPrefix (h.store name.space ht))

theorem modify_putAttributes (h : WritableAt I r) (g : Tree → List (Attribute Symbol)) :
    Preserves I (modify fun t => t.putAttributes r (g t) : Tree.Edit PUnit) := fun _ ht => h.attributes _ ht

theorem modifyGet_putAttributes (h : WritableAt I r) (answer : Tree → α) (g : Tree → List (Attribute Symbol)) :
    Preserves I (modifyGet fun t => (answer t, t.putAttributes r (g t)) : Tree.Edit α) := fun _ ht =>
  h.attributes _ ht

theorem setAttribute (h : WritableAt I r) (written value : String) :
    Preserves I (Edit.setAttribute r written value) :=
  (h.intern written).bind fun _ => (preserves_elementAttributes r).bind fun _ => h.modify_putAttributes _

theorem removeAttribute (h : WritableAt I r) (written : String) : Preserves I (Edit.removeAttribute r written) :=
  (preserves_elementAttributes r).bind fun _ => h.modifyGet_putAttributes _ _

theorem setAttributeNS (h : WritableAt I r) (space written value : String) :
    Preserves I (Edit.setAttributeNS r space written value) :=
  (h.internName _).bind fun _ => (preserves_elementAttributes r).bind fun _ => h.modify_putAttributes _

theorem removeAttributeNS (h : WritableAt I r) (space localPart : String) :
    Preserves I (Edit.removeAttributeNS r space localPart) :=
  (h.intern space).bind fun _ => (h.intern localPart).bind fun _ => (preserves_elementAttributes r).bind fun _ =>
    h.modifyGet_putAttributes _ _

end WritableAt

/-! ### Writing attributes under a table of namespaces -/

/-- Each of the ways in which an attribute of the node `r` is set or removed leads from a tree with the invariant to
another one. -/
structure AssignableAt (I : Tree → Prop) (r : Ref) : Prop where
  setAttribute : ∀ written value, Preserves I (Edit.setAttribute r written value)
  removeAttribute : ∀ written, Preserves I (Edit.removeAttribute r written)
  setAttributeNS : ∀ space written value, Preserves I (Edit.setAttributeNS r space written value)
  removeAttributeNS : ∀ space localPart, Preserves I (Edit.removeAttributeNS r space localPart)

theorem WritableAt.assignable {r : Ref} (h : WritableAt I r) : AssignableAt I r :=
  ⟨h.setAttribute, h.removeAttribute, h.setAttributeNS, h.removeAttributeNS⟩

theorem Writable.assignable (h : Writable I) (r : Ref) : AssignableAt I r := (h.at r).assignable

namespace AssignableAt

variable {r : Ref} {namespaces : NamespaceTable}

/-- Writing an attribute may also declare its prefix, on another node. -/
theorem writeAttribute (h : AssignableAt I r)
    (hd : ∀ {key nsPrefix uri localPart}, namespaces.resolve? key = some (nsPrefix, uri, localPart) →
      Preserves I (Edit.declarePrefix nsPrefix uri)) (key : String) (value : Option String) :
    Preserves I (Edit.writeAttribute namespaces r key value) := by
  unfold Edit.writeAttribute
  split
  · exact .pure _
  · split
    · rename_i hr
      exact (h.setAttributeNS _ _ _).bind fun _ => hd hr
    · exact (h.removeAttributeNS _ _).bind fun _ => .pure _
    · exact h.setAttribute _ _
    · exact (h.removeAttribute _).bind fun _ => .pure _

theorem writeAttributes (h : AssignableAt I r)
    (hd : ∀ {key nsPrefix uri localPart}, namespaces.resolve? key = some (nsPrefix, uri, localPart) →
      Preserves I (Edit.declarePrefix nsPrefix uri)) (entries : List (String × Option String)) :
    Preserves I (Edit.writeAttributes namespaces r entries) := by
  induction entries with
  | nil => exact .pure _
  | cons entry rest ih => exact (h.writeAttribute hd entry.1 entry.2).bind fun _ => ih

end AssignableAt

/-- A declaration is an attribute of the document element. -/
theorem preserves_declarePrefix (h : ∀ r, AssignableAt I r) (nsPrefix uri : String) :
    Preserves I (Edit.declarePrefix nsPrefix uri) := by
  unfold Edit.declarePrefix
  split
  · exact .pure _
  · refine .bind_get fun t _ => ?_
    split
    · exact .pure _
    · dsimp only
      split
      · exact .pure _
      · exact (h _).setAttributeNS _ _ _

theorem preserves_writeAttributes (h : ∀ r, AssignableAt I r) (namespaces : NamespaceTable) (r : Ref)
    (entries : List (String × Option String)) : Preserves I (Edit.writeAttributes namespaces r entries) :=
  (h r).writeAttributes (fun _ => preserves_declarePrefix h _ _) entries

/-- Other nodes than elements have no attributes to write. -/
theorem putAttributes_eq_self {t : Tree} {r : Ref} (h : t.kind? r ≠ some .element) (new : List (Attribute Symbol)) :
    t.putAttributes r new = t := by
  cases r with
  | none => rfl
  | some x =>
    rw [putAttributes, update]
    refine congrArg (Tree.mk · t.symbols) (Array.ext_getElem? fun y => ?_)
    rw [Array.getElem?_modify]
    split
    · rename_i hxy
      subst hxy
      cases hn : t.nodes[x]? with
      | none => rfl
      | some n =>
        obtain ⟨_, _, _, _, _, data⟩ := n
        cases data with
        | element name attributes => exact absurd (by simp [kind?, data?, node?, hn, NodeData.kind]) h
        | _ => rfl
    · rfl

/-- Writing to another node than an element only stores strings, so that only what it does to an element matters. -/
theorem preserves_at_element {α : Type} {r : Ref} {x : Edit α}
    (hstore : ∀ {t : Tree} (s : String), I t → I { t with symbols := (t.symbols.intern s).2 })
    (hwritable : ∀ {J : Tree → Prop}, WritableAt J r → Preserves J x)
    (hwrites : ∀ {t d}, r = some d → I t → t.kind? (some d) = some .element → I (x t).2) : Preserves I x := by
  intro t h
  by_cases hk : t.kind? r = some .element
  · cases r with
    | none => cases hk
    | some d => exact hwrites rfl h hk
  · have hother : WritableAt (fun t => I t ∧ t.kind? r ≠ some .element) r :=
      ⟨fun s h => ⟨hstore s h.1, h.2⟩, fun new h => by rwa [putAttributes_eq_self h.2]⟩
    exact (hwritable hother t ⟨h, hk⟩).1


/-! ### Invariants -/

/-- New elements, moves of single nodes and writing attributes under a table of namespaces lead from a tree with the
invariant to another one. -/
structure Sustained (I : Tree → Prop) : Prop extends Movable I where
  createElement : ∀ {t : Tree} (space written : String), I t → I (t.createElement space written).2
  writeAttributes : ∀ (namespaces : NamespaceTable) (r : Ref) (entries : List (String × Option String)),
    Preserves I (Edit.writeAttributes namespaces r entries)

/-- New elements, moves of single nodes and exchanging attributes lead from a tree with the invariant to another
one. -/
structure Steady (I : Tree → Prop) : Prop extends Writable I, Sustained I where
  writeAttributes := preserves_writeAttributes toWritable.assignable

/-- Whatever a pass does to a tree leads from one with the invariant to another one. -/
structure Passable (I : Tree → Prop) : Prop extends Sustained I where
  setText : ∀ {t u : Tree} {r : Ref} {content : String}, t.setText r content = .ok u → I t → I u

/-- Storing strings, exchanging attributes, new nodes, moves of single nodes and writing texts lead from a tree with the
invariant to another one. -/
structure Invariant (I : Tree → Prop) : Prop extends Writable I, Movable I where
  push : ∀ {t : Tree} (data : NodeData Symbol), I t → I (t.push data).2
  setText : ∀ {t u : Tree} {r : Ref} {content : String}, t.setText r content = .ok u → I t → I u

/-- A new element is one with a stored name. -/
theorem Invariant.steady (h : Invariant I) : Steady I where
  toWritable := h.toWritable
  toMovable := h.toMovable
  createElement space written ht :=
    h.push _ ((h.toWritable.at none).internName (.ofWritten space written) _ ht)

theorem Invariant.passable (h : Invariant I) : Passable I := ⟨h.steady.toSustained, h.setText⟩

end RichText.Tree
