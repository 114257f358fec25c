import RichText.Proofs.Tree.Contents
import RichText.Proofs.Tree.Preserved

/-!
Kinds and names of nodes never change.

Attributes come and go, texts are rewritten and nodes move, but no edit gives an existing node another kind or an
existing element another name: where the name or the namespace of an element is to change, a new one takes its
place. Strings that are stored for names are kept as well, so that names can be read through any sequence of edits.
-/

namespace RichText.Tree

open Effects

variable {t u v : Tree} {x : Nat} {r : Ref}

/-- The stored name of an element. -/
def storedName? (t : Tree) (r : Ref) : Option (QualifiedName Symbol) := (t.data? r).bind NodeData.name?

/-- The names of all elements are stored. -/
structure Named (t : Tree) : Prop where
  parts : ∀ {r name}, t.storedName? r = some name → ∀ s ∈ name.parts, s < t.symbols.size

theorem Stored.named (h : t.Stored) : t.Named := by
  refine ⟨fun {r name} hn s hs => ?_⟩
  obtain ⟨data, hd, hdn⟩ := Option.bind_eq_some_iff.1 hn
  cases data with
  | element name' attributes =>
    cases hdn
    exact h.parts_data hd s (List.mem_append_left _ hs)
  | _ => cases hdn

theorem name?_eq (t : Tree) (r : Ref) : t.name? r = (t.storedName? r).map t.symbols.resolveName := by
  rw [name?, content?, storedName?]
  cases t.data? r with
  | none => rfl
  | some data => cases data <;> rfl

/-- The nodes of `t` have the kinds and names in `u` that they have in `t`. -/
structure Recalls (t u : Tree) : Prop where
  named : u.Named
  symbols : t.symbols.Extends u.symbols
  size : t.size ≤ u.size
  kind : ∀ {x}, x < t.size → u.kind? (some x) = t.kind? (some x)
  name : ∀ {x}, x < t.size → u.storedName? (some x) = t.storedName? (some x)

namespace Recalls

theorem refl (h : t.Named) : t.Recalls t := ⟨h, .refl _, Nat.le_refl _, fun _ => rfl, fun _ => rfl⟩

theorem trans (h : t.Recalls u) (h' : u.Recalls v) : t.Recalls v :=
  ⟨h'.named, h.symbols.trans h'.symbols, h.size.trans h'.size,
    fun hx => (h'.kind (hx.trans_le h.size)).trans (h.kind hx),
    fun hx => (h'.name (hx.trans_le h.size)).trans (h.name hx)⟩

/-- Only other links, attributes or texts. -/
theorem of_names (h : t.Named) (hs : u.symbols = t.symbols) (hz : u.size = t.size)
    (hk : ∀ r, u.kind? r = t.kind? r) (hn : ∀ r, u.storedName? r = t.storedName? r) : t.Recalls u := by
  refine ⟨⟨fun {r name} hu => ?_⟩, hs ▸ .refl _, hz.ge, fun _ => hk _, fun _ => hn _⟩
  rw [hs]
  exact h.parts (hn r ▸ hu)

/-- Names are read as before. -/
theorem name? (h : t.Recalls u) (ht : t.Named) (hx : x < t.size) : u.name? (some x) = t.name? (some x) := by
  rw [name?_eq, name?_eq, h.name hx]
  cases hn : t.storedName? (some x) with
  | none => rfl
  | some name => exact congrArg some (QualifiedName.map_congr fun s hs => h.symbols.resolve (ht.parts hn s hs))

theorem namespace? (h : t.Recalls u) (ht : t.Named) (hx : x < t.size) :
    u.namespace? (some x) = t.namespace? (some x) := by
  rw [Tree.namespace?, Tree.namespace?, h.name? ht hx]

/-- The default namespace stays where the document element stays. -/
theorem defaultNamespace_congr (h : t.Recalls u) (ht : t.Named) (hl : t.Linked)
    (hd : u.documentElement = t.documentElement) : u.defaultNamespace = t.defaultNamespace := by
  rw [Tree.defaultNamespace, Tree.defaultNamespace, hd]
  cases hroot : t.documentElement with
  | none => rfl
  | some x => rw [h.namespace? ht (hl.child_lt (mem_of_documentElement hroot))]

/-- The default namespace stays where the children of the document stay. -/
theorem defaultNamespace (h : t.Recalls u) (ht : t.Named) (hl : t.Linked) (hk : u.kids 0 = t.kids 0) :
    u.defaultNamespace = t.defaultNamespace :=
  h.defaultNamespace_congr ht hl (documentElement_congr hk fun _ hx => h.kind (hl.child_lt hx))

end Recalls

/-! ### Edits -/

/-- New elements, moves and other texts lead from a tree with the invariant to another one, and so does writing
attributes. -/
structure Lasting (I : Tree → Prop) : Prop extends Writable I where
  createElement : ∀ {t : Tree} (space written : String), I t → I (t.createElement space written).2
  moves : ∀ {t u : Tree}, t.SameData u → I t → I u
  setText : ∀ {t u : Tree} {r : Ref} {content : String}, t.setText r content = .ok u → I t → I u

theorem Movable.of_sameData {I : Tree → Prop} (h : ∀ {t u : Tree}, t.SameData u → I t → I u) : Movable I :=
  ⟨fun hu => h (sameData_of_detach hu), fun hu => h (sameData_of_insertBefore hu)⟩

theorem Lasting.steady {I : Tree → Prop} (h : Lasting I) : Steady I where
  toWritable := h.toWritable
  toMovable := .of_sameData h.moves
  createElement := h.createElement

theorem storedName?_update {r : Ref} {f : Node → Node}
    (hf : ∀ n, t.node? r = some n → (f n).data.name? = n.data.name?) (r' : Ref) :
    (t.update r f).storedName? r' = t.storedName? r' := by
  cases r' with
  | none => rfl
  | some x =>
    rw [storedName?, storedName?, data?, data?, node?_update]
    split
    · rename_i hx
      subst hx
      cases hn : t.node? (some x) with
      | none => rfl
      | some n => exact hf n hn
    · rfl

theorem storedName?_putAttributes (t : Tree) (r : Ref) (new : List (Attribute Symbol)) (r' : Ref) :
    (t.putAttributes r new).storedName? r' = t.storedName? r' := by
  refine storedName?_update (fun n _ => ?_) r'
  obtain ⟨_, _, _, _, _, data⟩ := n
  cases data <;> rfl

theorem storedName?_of_setText {content : String} (h : t.setText r content = .ok u) (r' : Ref) :
    u.storedName? r' = t.storedName? r' := by
  obtain ⟨hk, rfl⟩ := setText_eq h
  refine storedName?_update (fun n hn => ?_) r'
  rw [kind?, data?, hn] at hk
  obtain ⟨_, _, _, _, _, data⟩ := n
  cases data with
  | text _ => rfl
  | _ => cases hk

theorem storedName?_push (data : NodeData Symbol) (x : Nat) :
    (t.push data).2.storedName? (some x) = if x = t.size then data.name? else t.storedName? (some x) := by
  rw [storedName?, data?_push]
  split <;> rfl

/-- A new element has its own name, and no other node changes. -/
theorem Named.createElement (h : t.Named) (space written : String) :
    t.Recalls (t.createElement space written).2 ∧
      (t.createElement space written).2.name? (some t.size) = some (.ofWritten space written) := by
  obtain ⟨hx, hp, hr⟩ := t.symbols.internName_spec (.ofWritten space written)
  rcases hi : t.symbols.internName (.ofWritten space written) with ⟨name, symbols⟩
  rw [hi] at hx hp hr
  have hu : (t.createElement space written).2 = (Tree.push { t with symbols } (.element name [])).2 := by
    rw [Tree.createElement, hi]
  have hsize : Tree.size { t with symbols } = t.size := rfl
  rw [hu]
  refine ⟨⟨⟨fun {r name'} hn s hs => ?_⟩, hx, ?_, fun {x} hlt => ?_, fun {x} hlt => ?_⟩, ?_⟩
  · cases r with
    | none => cases hn
    | some x =>
      rw [storedName?_push] at hn
      split at hn
      · cases hn
        exact hp s hs
      · exact (h.parts (r := some x) hn s hs).trans_le hx.size_le
  · rw [size_push, hsize]
    exact Nat.le_succ _
  · rw [kind_push, hsize, if_neg hlt.ne]
    rfl
  · rw [storedName?_push, hsize, if_neg hlt.ne]
    rfl
  · rw [name?_eq, storedName?_push, hsize, if_pos rfl]
    exact congrArg some hr

/-- No edit changes the kind or the name of a node. -/
theorem lasting_recalls (t : Tree) : Lasting t.Recalls where
  store {u} text h := by
    have hx := (u.symbols.intern_spec text).1
    exact ⟨⟨fun hn s hs => (h.named.parts hn s hs).trans_le hx.size_le⟩, h.symbols.trans hx, h.size, h.kind, h.name⟩
  attributes {u} r new h := by
    have hs := SameShape.putAttributes u r new
    have hn := storedName?_putAttributes u r new
    exact h.trans (.of_names h.named (symbols_putAttributes r new) hs.size hs.kind hn)
  createElement space written h := h.trans (h.named.createElement space written).1
  moves {u v} hs h := by
    have hn : ∀ r, v.storedName? r = u.storedName? r := fun r => by rw [storedName?, storedName?, hs.data]
    exact h.trans (.of_names h.named hs.symbols hs.size hs.kind hn)
  setText {u v r content} hu h := by
    have hs := sameShape_of_setText hu
    have hsymbols : v.symbols = u.symbols := by rw [(setText_eq hu).2, symbols_update]
    exact h.trans (.of_names h.named hsymbols hs.size hs.kind (storedName?_of_setText hu))

end RichText.Tree
