import RichText.Proofs.Effects
import RichText.Proofs.Tree.Below
import RichText.Namespaces

/-!
What writing the data of nodes leaves alone.

A new node and new data change no link, so that the child lists stay as they are. Writing attributes to an
element never fails, and a prefix is declared on an element as well.
-/

namespace RichText.Tree

open Effects

variable {t u v : Tree} {k : Nat → List Nat} {d : Nat}

/-! ### Trees with the same links -/

/-- Every node of `u` has the neighbours that it has in `t`. -/
structure SameLinks (t u : Tree) : Prop where
  parent : ∀ r, u.parent r = t.parent r
  firstChild : ∀ r, u.firstChild r = t.firstChild r
  lastChild : ∀ r, u.lastChild r = t.lastChild r
  nextSibling : ∀ r, u.nextSibling r = t.nextSibling r
  prevSibling : ∀ r, u.prevSibling r = t.prevSibling r

theorem Joined.of_sameLinks {p : Nat} {left right : Ref} (h : t.Joined p left right) (hu : t.SameLinks u) :
    u.Joined p left right :=
  h.congr (fun _ _ => hu.nextSibling _) (fun _ => hu.firstChild _) (fun _ _ => hu.prevSibling _)
    fun _ => hu.lastChild _

theorem LinkedAs.of_sameLinks (h : t.LinkedAs k) (hu : t.SameLinks u) : u.LinkedAs k := by
  refine ⟨fun hp => (h.joined hp).of_sameLinks hu, ?_, ?_, h.nodup⟩
  · intro p c
    rw [hu.parent]
    exact h.parent
  · intro c hc
    rw [hu.prevSibling, hu.nextSibling]
    exact h.orphan (hu.parent _ ▸ hc)

theorem Linked.of_sameLinks (h : t.Linked) (hu : t.SameLinks u) : u.Linked ∧ u.kids = t.kids := by
  have hk := h.links.of_sameLinks hu
  exact ⟨hk.linked h.acyclic, hk.kids_eq⟩

/-- `u` has the nodes of `t` with their links and their kinds; other data may differ. -/
structure SameShape (t u : Tree) : Prop extends SameLinks t u where
  size : u.size = t.size
  kind : ∀ r, u.kind? r = t.kind? r

theorem SameShape.refl (t : Tree) : t.SameShape t :=
  ⟨⟨fun _ => rfl, fun _ => rfl, fun _ => rfl, fun _ => rfl, fun _ => rfl⟩, rfl, fun _ => rfl⟩

theorem SameShape.trans (h : t.SameShape u) (h' : u.SameShape v) : t.SameShape v :=
  ⟨⟨fun r => (h'.parent r).trans (h.parent r), fun r => (h'.firstChild r).trans (h.firstChild r),
      fun r => (h'.lastChild r).trans (h.lastChild r), fun r => (h'.nextSibling r).trans (h.nextSibling r),
      fun r => (h'.prevSibling r).trans (h.prevSibling r)⟩,
    h'.size.trans h.size, fun r => (h'.kind r).trans (h.kind r)⟩

/-- Other data of the same kind in one node. -/
theorem SameShape.update {r : Ref} {f : Node → Node}
    (hf : ∀ n, t.node? r = some n → (f n).data.kind = n.data.kind ∧ f n = { n with data := (f n).data }) :
    t.SameShape (t.update r f) := by
  -- every node is read as before, up to data of the same kind
  have hn : ∀ r', ∃ g : Node → Node, (t.update r f).node? r' = (t.node? r').map g ∧
      ∀ n, t.node? r' = some n → (g n).data.kind = n.data.kind ∧ g n = { n with data := (g n).data } := by
    rintro (_ | x)
    · exact ⟨id, rfl, fun n _ => ⟨rfl, rfl⟩⟩
    · by_cases hx : r = some x
      · exact ⟨f, by rw [node?_update, if_pos hx], fun n hn => hf n (hx ▸ hn)⟩
      · exact ⟨id, by rw [node?_update, if_neg hx, Option.map_id_fun, id], fun n _ => ⟨rfl, rfl⟩⟩
  refine ⟨⟨fun r' => ?_, fun r' => ?_, fun r' => ?_, fun r' => ?_, fun r' => ?_⟩, size_update r f, fun r' => ?_⟩
  all_goals
    obtain ⟨g, hg, hgk⟩ := hn r'
    simp only [parent, firstChild, lastChild, nextSibling, prevSibling, kind?, data?, hg]
    cases hr : t.node? r' with
    | none => rfl
    | some n =>
      have hk := hgk n hr
      simp only [Option.map_some, Option.bind_some]
      first
        | exact congrArg some hk.1
        | rw [hk.2]

/-- More strings, with the same nodes. -/
theorem SameShape.symbols (t : Tree) (symbols : SymbolTable) : t.SameShape { t with symbols } :=
  ⟨⟨fun _ => rfl, fun _ => rfl, fun _ => rfl, fun _ => rfl, fun _ => rfl⟩, rfl, fun _ => rfl⟩

/-! ### New nodes -/

theorem node?_push (data : NodeData Symbol) (x : Nat) :
    (t.push data).2.node? (some x) = if x = t.size then some { data } else t.node? (some x) := by
  simp only [push, node?, Option.bind_some, Array.getElem?_push]
  rfl

theorem size_push (data : NodeData Symbol) : (t.push data).2.size = t.size + 1 := by
  simp [push, size]

/-- A new node has no neighbours, as if it were unknown. -/
theorem SameLinks.push (t : Tree) (data : NodeData Symbol) : t.SameLinks (t.push data).2 := by
  have hn : ∀ {α : Type} (g : Node → Option α) (hg : g { data } = none) (r : Ref),
      ((t.push data).2.node? r).bind g = (t.node? r).bind g := by
    rintro α g hg (_ | x)
    · rfl
    · rw [node?_push]
      split
      · rename_i hx
        rw [node?_eq_none_iff.2 hx.ge]
        exact hg
      · rfl
  exact ⟨hn _ rfl, hn _ rfl, hn _ rfl, hn _ rfl, hn _ rfl⟩

theorem kind_push (data : NodeData Symbol) (x : Nat) :
    (t.push data).2.kind? (some x) = if x = t.size then some data.kind else t.kind? (some x) := by
  rw [kind?, kind?, data?, data?, node?_push]
  split <;> rfl

theorem lt_of_kind {x : Nat} {kind : NodeKind} (h : t.kind? (some x) = some kind) : x < t.size := by
  by_contra hx
  rw [kind?, data?, node?_eq_none_iff.2 (Nat.le_of_not_lt hx)] at h
  cases h

/-- A new element is a detached node of its own, without children. -/
theorem Linked.createElement (h : t.Linked) (space written : String) :
    ∃ u, t.createElement space written = (t.size, u) ∧ u.Linked ∧ u.kids = t.kids ∧ u.size = t.size + 1 ∧
      ∀ x, u.kind? (some x) = if x = t.size then some .element else t.kind? (some x) := by
  obtain ⟨hl, hk⟩ := h.of_sameLinks (SameShape.symbols t (t.symbols.internName (.ofWritten space written)).2).1
  obtain ⟨hul, huk⟩ := hl.of_sameLinks (SameLinks.push _ (.element (t.symbols.internName
    (.ofWritten space written)).1 []))
  exact ⟨_, rfl, hul, huk.trans hk, size_push _, fun x => kind_push _ x⟩

/-- The document element stays where the children of the document and their kinds stay. -/
theorem documentElement_congr (hk : u.kids 0 = t.kids 0) (hn : ∀ x ∈ t.kids 0, u.kind? (some x) = t.kind? (some x)) :
    u.documentElement = t.documentElement := by
  have hlist : u.children root = t.children root := hk
  rw [documentElement, documentElement, hlist]
  exact List.find?_congr fun x hx => by rw [hn x hx]

theorem mem_of_documentElement (h : t.documentElement = some d) : d ∈ t.kids 0 := List.mem_of_find?_eq_some h

/-! ### Edits that write data -/

theorem SameShape.putAttributes (t : Tree) (r : Ref) (attributes : List (Attribute Symbol)) :
    t.SameShape (t.putAttributes r attributes) := by
  refine .update fun n _ => ?_
  obtain ⟨_, _, _, _, _, data⟩ := n
  cases data <;> exact ⟨rfl, rfl⟩

/-- Setting a text writes it to a text node alone. -/
theorem setText_eq {r : Ref} {content : String} (h : t.setText r content = .ok u) :
    t.kind? r = some .text ∧ u = t.update r fun n => { n with data := .text content } := by
  rw [setText] at h
  cases ht : t.text? r with
  | none =>
    rw [ht] at h
    cases h
  | some old =>
    rw [ht] at h
    cases h
    refine ⟨?_, rfl⟩
    obtain ⟨data, hdata, hk⟩ := Option.bind_eq_some_iff.1 ht
    rw [kind?, hdata]
    cases data with
    | text _ => rfl
    | _ => cases hk

theorem sameShape_of_setText {r : Ref} {content : String} (h : t.setText r content = .ok u) : t.SameShape u := by
  obtain ⟨hk, rfl⟩ := setText_eq h
  refine .update fun n hn => ⟨?_, rfl⟩
  rw [kind?, data?, hn] at hk
  exact (Option.some.inj hk).symm

/-- The content of a text node can be set. -/
theorem exists_setText (hd : t.kind? (some d) = some .text) (content : String) :
    ∃ u, t.setText (some d) content = .ok u ∧ t.SameShape u := by
  obtain ⟨data, hdata, hk⟩ := Option.map_eq_some_iff.1 hd
  cases data with
  | text old =>
    refine ⟨_, by simp only [setText, text?, hdata]; rfl, .update fun n hn => ⟨?_, rfl⟩⟩
    rw [data?, hn, Option.map_some, Option.some.injEq] at hdata
    rw [hdata]
    rfl
  | _ => cases hk

/-- The edit succeeds on `t` and writes data alone. -/
def Writes {α : Type} (x : Edit α) (t : Tree) : Prop := ∃ a u, x t = (.ok a, u) ∧ t.SameShape u

namespace Writes

variable {α β : Type} {x : Edit α} {f : α → Edit β}

theorem bind (h : Writes x t) (hf : ∀ a u, t.SameShape u → Writes (f a) u) : Writes (x >>= f) t := by
  obtain ⟨a, u, hx, hu⟩ := h
  obtain ⟨b, v, hy, hv⟩ := hf a u hu
  exact ⟨b, v, (bind_ok hx).trans hy, hu.trans hv⟩

theorem bind_get {f : Tree → Edit β} (hf : Writes (f t) t) : Writes (get >>= f) t := hf

theorem pure (a : α) (t : Tree) : Writes (Pure.pure a : Edit α) t := ⟨a, t, rfl, .refl t⟩

theorem intern (s : String) (t : Tree) : Writes (Edit.intern s) t := ⟨_, _, rfl, .symbols t _⟩

theorem internName (name : Name) (t : Tree) : Writes (Edit.internName name) t := ⟨_, _, rfl, .symbols t _⟩

theorem elementAttributes (hd : t.kind? (some d) = some .element) : Writes (Edit.elementAttributes (some d)) t := by
  obtain ⟨data, hdata, hk⟩ := Option.map_eq_some_iff.1 hd
  cases data with
  | element name attributes => exact ⟨attributes, t, by simp [Edit.elementAttributes, run_bind, hdata], .refl t⟩
  | _ => cases hk

theorem modify_putAttributes (r : Ref) (g : Tree → List (Attribute Symbol)) (t : Tree) :
    Writes (modify fun t => t.putAttributes r (g t)) t := ⟨(), _, rfl, .putAttributes t r _⟩

theorem modifyGet_putAttributes (r : Ref) (answer : Tree → α) (g : Tree → List (Attribute Symbol)) (t : Tree) :
    Writes (modifyGet fun t => (answer t, t.putAttributes r (g t))) t := ⟨_, _, rfl, .putAttributes t r _⟩

theorem setAttribute (hd : t.kind? (some d) = some .element) (written value : String) :
    Writes (Edit.setAttribute (some d) written value) t := by
  refine (intern written t).bind fun localPart u hu => ?_
  refine (elementAttributes (hu.kind _ ▸ hd)).bind fun attributes v _ => ?_
  exact modify_putAttributes _ _ v

theorem removeAttribute (hd : t.kind? (some d) = some .element) (written : String) :
    Writes (Edit.removeAttribute (some d) written) t :=
  (elementAttributes hd).bind fun _ u _ => modifyGet_putAttributes _ _ _ u

theorem setAttributeNS (hd : t.kind? (some d) = some .element) (space written value : String) :
    Writes (Edit.setAttributeNS (some d) space written value) t := by
  refine (internName _ t).bind fun name u hu => ?_
  refine (elementAttributes (hu.kind _ ▸ hd)).bind fun attributes v _ => ?_
  exact modify_putAttributes _ _ v

theorem removeAttributeNS (hd : t.kind? (some d) = some .element) (space localPart : String) :
    Writes (Edit.removeAttributeNS (some d) space localPart) t := by
  refine (intern space t).bind fun s u hu => ?_
  refine (intern localPart u).bind fun l v hv => ?_
  refine (elementAttributes (hv.kind _ ▸ hu.kind _ ▸ hd)).bind fun attributes w _ => ?_
  exact modifyGet_putAttributes _ _ _ w

/-- The document element is an element. -/
theorem kind_documentElement (hd : t.documentElement = some d) : t.kind? (some d) = some .element := by
  have h := List.find?_some hd
  simpa using h

theorem declarePrefix (nsPrefix uri : String) (t : Tree) : Writes (Edit.declarePrefix nsPrefix uri) t := by
  unfold Edit.declarePrefix
  split
  · exact pure _ t
  · refine bind_get ?_
    split
    · exact pure _ t
    · rename_i hd
      dsimp only
      split
      · exact pure _ t
      · exact setAttributeNS (kind_documentElement hd) _ _ _

theorem writeAttribute (namespaces : NamespaceTable) (hd : t.kind? (some d) = some .element) (key : String)
    (value : Option String) : Writes (Edit.writeAttribute namespaces (some d) key value) t := by
  unfold Edit.writeAttribute
  split
  · exact pure _ t
  · split
    · exact (setAttributeNS hd _ _ _).bind fun _ u _ => declarePrefix _ _ u
    · exact (removeAttributeNS hd _ _).bind fun _ u _ => pure _ u
    · exact setAttribute hd _ _
    · exact (removeAttribute hd _).bind fun _ u _ => pure _ u

/-- Writing attributes to an element succeeds, whatever their names. -/
theorem writeAttributes (namespaces : NamespaceTable) (hd : t.kind? (some d) = some .element)
    (entries : List (String × Option String)) :
    Writes (Edit.writeAttributes namespaces (some d) entries) t := by
  induction entries generalizing t with
  | nil => exact pure _ t
  | cons entry rest ih =>
    refine (writeAttribute namespaces hd entry.1 entry.2).bind fun _ u hu => ?_
    exact ih (hu.kind _ ▸ hd)

end Writes

theorem lt_of_documentElement (h : t.documentElement = some d) : d < t.size :=
  lt_of_kind (Writes.kind_documentElement h)

end RichText.Tree
