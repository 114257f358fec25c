import RichText.Proofs.Proxy.Buffering
import RichText.Proofs.Tree.Check
import RichText.Proofs.Tree.Exchanged
import RichText.Proofs.Tree.Keys

/-!
Replacing an element.

The element that takes the place of another one has its links, and the attributes that the proxy reads: those of the
live element in their order, without the deleted ones, and then those that were added. Each is stored anew under its
key.
-/

namespace RichText

open RichText.Tree Effects

variable {p : ElementProxy} {key : String} {names : List String} {entries : List (String × Option String)}

namespace ElementProxy

/-! ### The attributes that a proxy reads -/

theorem mem_addNew : key ∈ addNew names entries ↔ key ∈ names ∨ ∃ value, (key, some value) ∈ entries := by
  induction entries generalizing names with
  | nil => simp [addNew]
  | cons entry rest ih =>
    obtain ⟨k, value⟩ := entry
    rw [addNew, ih]
    cases value with
    | none => simp
    | some value =>
      by_cases hk : k ∈ names
      · have hmem : key = k → key ∈ names := fun e => e ▸ hk
        simp only [Option.isSome_some, Bool.true_and, hk, not_true_eq_false, decide_false, Bool.false_eq_true,
          if_false, List.mem_cons, Prod.mk.injEq, Option.some.injEq]
        grind
      · simp only [Option.isSome_some, Bool.true_and, hk, not_false_eq_true, decide_true, if_true, List.mem_append,
          List.mem_cons, Prod.mk.injEq, Option.some.injEq, List.not_mem_nil, or_false]
        grind

theorem nodup_addNew (h : names.Nodup) (entries : List (String × Option String)) : (addNew names entries).Nodup := by
  induction entries generalizing names with
  | nil => exact h
  | cons entry rest ih =>
    rw [addNew]
    apply ih
    split
    · rename_i hnew
      simp only [Bool.and_eq_true, decide_eq_true_eq] at hnew
      refine List.nodup_append.2 ⟨h, by simp, ?_⟩
      rintro a ha b hb rfl
      exact hnew.2 (List.mem_singleton.1 hb ▸ ha)
    · exact h

/-- What is read is named. -/
theorem mem_attributeNames_of_isSome (h : (p.attribute? key).isSome = true) : key ∈ p.attributeNames := by
  rw [attributeNames, mem_addNew, List.mem_filter]
  unfold attribute? at h
  cases hl : p.overrides.lookup key with
  | none =>
    rw [hl] at h
    exact .inl ⟨mem_attributeNames.2 h, by simp⟩
  | some value =>
    rw [hl] at h
    obtain ⟨value, rfl⟩ := Option.isSome_iff_exists.1 h
    obtain ⟨l, r, he, -⟩ := List.lookup_eq_some_iff.1 hl
    exact .inr ⟨value, by simp [he]⟩

/-- What is named is read. -/
theorem Tidy.isSome_of_mem (ht : p.Tidy) (h : key ∈ p.attributeNames) : (p.attribute? key).isSome = true := by
  rw [attributeNames, mem_addNew, List.mem_filter] at h
  unfold attribute?
  rcases h with ⟨hlive, hnot⟩ | ⟨value, hmem⟩
  · cases hl : p.overrides.lookup key with
    | none => exact mem_attributeNames.1 hlive
    | some value =>
      rw [hl] at hnot
      cases value with
      | none => simp at hnot
      | some value => rfl
  · rw [(Keyed.lookup_eq_some_iff ht).2 hmem]
    rfl

theorem nodup_attributeNames (h : (p.tree.attributeNames p.delegate).Nodup) : p.attributeNames.Nodup :=
  nodup_addNew (h.filter _) _

end ElementProxy

/-! ### The key that selects a namespace -/

theorem Tree.Edit.writeAttribute_xmlns (namespaces : NamespaceTable) (r : Ref) (value : Option String) :
    writeAttribute namespaces r "xmlns" value = pure () := by
  rw [writeAttribute.eq_def, if_pos rfl]

/-- Nothing is written under `xmlns`. -/
theorem Tree.Edit.writeAttributes_filter (namespaces : NamespaceTable) (r : Ref)
    (entries : List (String × Option String)) :
    writeAttributes namespaces r (entries.filter fun e => e.1 ≠ "xmlns") = writeAttributes namespaces r entries := by
  induction entries with
  | nil => rfl
  | cons entry rest ih =>
    obtain ⟨k, value⟩ := entry
    rw [writeAttributes, List.filter_cons]
    by_cases hk : k = "xmlns"
    · subst hk
      rw [if_neg (by simp), writeAttribute_xmlns, pure_bind, ih]
    · rw [if_pos (by simpa using hk), writeAttributes, ih]

namespace ElementProxy

/-- The attributes that a new element takes over, as they are read. -/
def takenOver (p : ElementProxy) : List (Attribute String) :=
  (p.attributeNames.filter (· ≠ "xmlns")).map fun key => ⟨⟨"", "", key⟩, (p.attribute? key).getD ""⟩

theorem written_takenOver (p : ElementProxy) :
    p.takenOver.map (fun a => a.name.written) = p.attributeNames.filter (· ≠ "xmlns") := by
  simp [takenOver, Function.comp_def]

theorem Tidy.entries_takenOver (ht : p.Tidy) :
    p.takenOver.map (fun a => (a.name.written, some a.value)) = p.entries.filter fun e => e.1 ≠ "xmlns" := by
  rw [takenOver, List.map_map, ElementProxy.entries, List.filter_map]
  refine List.map_congr_left fun key hkey => ?_
  obtain ⟨value, hvalue⟩ := Option.isSome_iff_exists.1 (ht.isSome_of_mem (List.mem_filter.1 hkey).1)
  simp [hvalue]

theorem Tidy.read_takenOver (ht : p.Tidy) {a : Attribute String} (ha : a ∈ p.takenOver) :
    p.attribute? a.name.written = some a.value := by
  obtain ⟨key, hkey, rfl⟩ := List.mem_map.1 ha
  obtain ⟨value, hvalue⟩ := Option.isSome_iff_exists.1 (ht.isSome_of_mem (List.mem_filter.1 hkey).1)
  simp [hvalue]

variable {old parent : Nat}

/-- An element in a list is replaced by a new one in its place, which takes over its children. Its attributes are
those that the proxy reads, in the order in which it names them, without `xmlns`; an attribute whose prefix is bound is
stored in that namespace, and any other one as a plain attribute. -/
theorem replaceBy_exchanges (name : String) (space : Option String) (hl : p.tree.Linked) (hs : p.tree.Stored)
    (hns : p.namespaces.Separates) (hm : p.isMutable = true) (ht : p.Tidy)
    (hn : (p.tree.attributeNames p.delegate).Nodup) (hd : p.delegate = some old)
    (hparent : p.tree.parent (some old) = some parent) :
    ∃ new u, replaceBy name space p =
        (.ok .proceed, { p with tree := u, delegate := some new, replacement := some new }) ∧
      p.tree.size ≤ new ∧ p.tree.Exchanges parent old new u ∧
      ∃ attributes, u.content? (some new) = some (.element
          (.ofWritten ((space <|> p.pendingNamespace).getD p.tree.defaultNamespace) name) attributes) ∧
        attributes.map (fun a => a.name.written) = p.attributeNames.filter (· ≠ "xmlns") ∧
        ∀ a ∈ attributes, p.attribute? a.name.written = some a.value ∧
          a.name = p.namespaces.nameOf a.name.written := by
  obtain ⟨l, r, hcut⟩ := List.append_of_mem (hl.parent_iff.1 hparent)
  obtain ⟨u, hu, hul, huk, -, -⟩ := hl.renew hcut p.namespaces (p.spaceFor space) name p.entries
  have hkeys : ∀ a ∈ p.takenOver, a.name.written ≠ "xmlns" := by
    intro a ha he
    have hmem := List.mem_map_of_mem (f := fun a => a.name.written) ha
    rw [written_takenOver, he] at hmem
    simp at hmem
  have hdistinct : (p.takenOver.map fun a => a.name.written).Nodup := by
    rw [written_takenOver]
    exact (nodup_attributeNames hn).filter _
  -- only the entries under other keys than `xmlns` are written
  have hu' : Edit.renew p.namespaces (some old) (p.spaceFor space) name
      (p.takenOver.map fun a => (a.name.written, some a.value)) p.tree = (.ok p.tree.size, u) := by
    rw [← hu, ht.entries_takenOver]
    simp only [Edit.renew, Edit.writeAttributes_filter]
  obtain ⟨-, hc⟩ := hs.renew_resolved hl hns hkeys hdistinct hu'
  refine ⟨p.tree.size, u, replaceBy_ok hm (hd ▸ hu), Nat.le_refl _, hl.exchanges hul hcut huk, _, hc, ?_, ?_⟩
  · rw [← written_takenOver, List.map_map]
    exact List.map_congr_left fun a _ => a.written_resolved p.namespaces
  · intro a ha
    obtain ⟨b, hb, rfl⟩ := List.mem_map.1 ha
    rw [Attribute.written_resolved]
    constructor
    · rw [ht.read_takenOver hb, NamespaceTable.value_resolved]
    · obtain ⟨key, -, rfl⟩ := List.mem_map.1 hb
      rw [NamespaceTable.name_resolved, NamespaceTable.written_unqualified]

/-- An element `b` below `div`, with a class and a plain attribute whose name has a bound prefix, around a text. -/
def classified : Tree where
  nodes := #[
    { first := some 1, last := some 1, data := .document },
    { parent := some 0, first := some 2, last := some 2, data := .element ⟨0, 0, 1⟩ [] },
    { parent := some 1, first := some 3, last := some 3,
      data := .element ⟨0, 0, 2⟩ [⟨⟨0, 0, 3⟩, "c"⟩, ⟨⟨0, 0, 4⟩, "v"⟩] },
    { parent := some 2, data := .text "x" }]
  symbols := ⟨#["", "div", "b", "class", "xlink:href"]⟩

theorem linked_classified : classified.Linked := Agrees.linked (by decide)

theorem stored_classified : classified.Stored := ⟨rfl, by decide⟩

theorem standard_separates : NamespaceTable.standard.Separates := ⟨by decide, by decide⟩

/-- A proxy of `b` in which an attribute `id` was set and the class deleted. -/
def classless : ElementProxy :=
  (deleteAttribute "class" (setAttribute "id" "i" (ofNode classified (some 2) .standard)).2).2

theorem replaceBy_classless :
    ∃ new u, replaceBy "i" none classless =
        (.ok .proceed, { classless with tree := u, delegate := some new, replacement := some new }) ∧
      4 ≤ new ∧ classified.Exchanges 1 2 new u ∧
      ∃ attributes, u.content? (some new) = some (.element (.ofWritten "" "i") attributes) ∧
        attributes.map (fun a => a.name.written) = ["xlink:href", "id"] ∧
        ∀ a ∈ attributes, classless.attribute? a.name.written = some a.value ∧
          a.name = NamespaceTable.standard.nameOf a.name.written := by
  have hnames : classless.attributeNames.filter (· ≠ "xmlns") = ["xlink:href", "id"] := by decide
  rw [← hnames]
  exact replaceBy_exchanges (p := classless) "i" none linked_classified stored_classified standard_separates rfl
    (by unfold Tidy; decide) (by decide) rfl rfl

end ElementProxy

end RichText
