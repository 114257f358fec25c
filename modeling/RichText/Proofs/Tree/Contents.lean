import RichText.Proofs.Tree.Renewal
import RichText.Proofs.Tree.Stored

/-!
What edits do to the contents of nodes.

Moves change no content, wherever they lead. An attribute under a plain key is stored as it is written, and a
renewed element has the given name and exactly the given attributes.
-/

namespace RichText

/-- The attribute with the same written name and value that is in no namespace and has no prefix. -/
def Attribute.plain (a : Attribute String) : Attribute String := ⟨⟨"", "", a.name.written⟩, a.value⟩

/-- A key under which an attribute is stored as it is written: it has no colon, and is not the name that selects
the namespace of an element. -/
def PlainKey (key : String) : Prop := ':' ∉ key.toList ∧ key ≠ "xmlns"

@[simp] theorem Attribute.written_plain (a : Attribute String) : a.plain.name.written = a.name.written := by
  simp [plain, QualifiedName.written]

theorem NamespaceTable.resolve?_of_plain (namespaces : NamespaceTable) {key : String} (h : PlainKey key) :
    namespaces.resolve? key = none := by
  simp [resolve?, splitName, splitAtColon_eq_none h.1]

/-- A prefix that a key is resolved by is bound and not empty, and the key is split after it. -/
theorem NamespaceTable.resolve?_eq_some {namespaces : NamespaceTable} {key nsPrefix uri localPart : String}
    (h : namespaces.resolve? key = some (nsPrefix, uri, localPart)) :
    namespaces.uri? nsPrefix = some uri ∧ nsPrefix ≠ "" ∧
      QualifiedName.ofWritten uri key = ⟨uri, nsPrefix, localPart⟩ := by
  unfold resolve? at h
  split at h
  · rename_i p l hs
    obtain ⟨uri', hu, he⟩ := Option.map_eq_some_iff.1 h
    obtain ⟨rfl, rfl, rfl⟩ : p = nsPrefix ∧ uri' = uri ∧ l = localPart := by simpa using he
    refine ⟨hu, ?_, by simp [QualifiedName.ofWritten, hs]⟩
    unfold splitName at hs
    split at hs
    · obtain rfl := Option.some.inj (Prod.mk.inj hs).1
      exact fun he => by simpa using congrArg String.toList he
    · cases hs
  · cases h

namespace Tree

open Effects

variable {t u : Tree} {r : Ref} {d : Nat} {name : Name}

/-! ### Reading contents -/

theorem kind_eq_of_content {content : Content} (h : t.content? r = some content) : t.kind? r = some content.kind := by
  obtain ⟨data, hd, rfl⟩ := Option.map_eq_some_iff.1 h
  rw [kind?, hd]
  cases data <;> rfl

theorem content_of_lt {x : Nat} (h : x < t.size) : t.content? (some x) = some (t.contentOf x) := by
  obtain ⟨n, hn⟩ := exists_node? h
  rw [contentOf, content?, data?, hn]
  rfl

theorem exists_element_of_kind {x : Nat} (h : t.kind? (some x) = some .element) :
    ∃ name attributes, t.contentOf x = .element name attributes := by
  rw [kind_eq_of_content (content_of_lt (lt_of_kind h))] at h
  cases hc : t.contentOf x with
  | element name attributes => exact ⟨name, attributes, rfl⟩
  | _ =>
    rw [hc] at h
    cases h

/-! ### Moves -/

theorem sameData_of_detach (h : t.detach r = .ok u) : t.SameData u := by
  unfold detach at h
  split at h
  · cases h
  · split at h
    · cases h
      exact .refl t
    · cases h
      exact (SameData.join _ _ _).trans (.update _ fun _ => rfl)

/-- An insertion that is not refused writes nothing, or detaches the child and links it between two neighbours. -/
theorem insertBefore_cases {parent child : Ref} {reference : Option Ref}
    (h : t.insertBefore parent child reference = .ok u) :
    u = t ∨ ∃ v left right, t.detach child = .ok v ∧ u = v.link parent child left right := by
  have hlink : ∀ left right : Tree → Ref,
      (t.detach child >>= fun v => pure (v.link parent child (left v) (right v))) = .ok u →
        ∃ v left right, t.detach child = .ok v ∧ u = v.link parent child left right := by
    intro left right hl
    obtain ⟨v, hv, hu⟩ := bind_eq_ok hl
    cases hu
    exact ⟨v, _, _, hv, rfl⟩
  unfold insertBefore at h
  split_ifs at h
  cases reference with
  | none => exact .inr (hlink (·.lastChild parent) (fun _ => none) h)
  | some sibling =>
    dsimp only at h
    split_ifs at h
    · cases h
      exact .inl rfl
    · exact .inr (hlink (·.prevSibling sibling) (fun _ => sibling) h)

theorem sameData_of_insertBefore {parent child : Ref} {reference : Option Ref}
    (h : t.insertBefore parent child reference = .ok u) : t.SameData u := by
  rcases insertBefore_cases h with rfl | ⟨v, left, right, hv, rfl⟩
  · exact .refl _
  · exact (sameData_of_detach hv).trans (.link left right)

/-- A loop of moves. -/
theorem sameData_of_foldlM {move : Tree → Nat → Except TreeError Tree}
    (hm : ∀ {t c u}, move t c = .ok u → t.SameData u) {l : List Nat} (h : l.foldlM move t = .ok u) :
    t.SameData u := by
  induction l generalizing t with
  | nil =>
    cases h
    exact .refl _
  | cons c l ih =>
    rw [List.foldlM_cons] at h
    obtain ⟨v, hv, hu⟩ := bind_eq_ok h
    exact (hm hv).trans (ih hu)

theorem sameData_of_unwrap (h : t.unwrap r = .ok u) : t.SameData u := by
  unfold unwrap at h
  split_ifs at h
  · cases h
    exact .refl t
  · obtain ⟨v, hv, hu⟩ := bind_eq_ok h
    exact (sameData_of_foldlM sameData_of_insertBefore hv).trans (sameData_of_detach hu)

theorem sameData_of_moveChildren {source target : Ref} (h : t.moveChildren source target = .ok u) :
    t.SameData u :=
  sameData_of_foldlM sameData_of_insertBefore h

theorem sameData_of_succeed {old new : Ref} (h : Edit.succeed old new t = .ok u) : t.SameData u := by
  unfold Edit.succeed replaceChild at h
  split_ifs at h
  · cases h
    exact .refl t
  · cases h
    exact .refl t
  · obtain ⟨v, hv, hu⟩ := bind_eq_ok h
    exact (sameData_of_insertBefore hv).trans (sameData_of_detach hu)

/-! ### Attributes -/

@[simp] theorem size_putAttributes (r : Ref) (new : List (Attribute Symbol)) :
    (t.putAttributes r new).size = t.size :=
  size_update r _

@[simp] theorem symbols_putAttributes (r : Ref) (new : List (Attribute Symbol)) :
    (t.putAttributes r new).symbols = t.symbols :=
  symbols_update r _

theorem data?_putAttributes {name : QualifiedName Symbol} {old : List (Attribute Symbol)}
    (hd : t.data? (some d) = some (.element name old)) (new : List (Attribute Symbol)) (x : Nat) :
    (t.putAttributes (some d) new).data? (some x) =
      if x = d then some (.element name new) else t.data? (some x) := by
  obtain ⟨n, hn, hdata⟩ := Option.map_eq_some_iff.1 hd
  rw [data?, data?, putAttributes, node?_update]
  by_cases hx : x = d
  · subst hx
    rw [if_pos rfl, if_pos rfl, hn, Option.map_some, Option.map_some, hdata]
  · rw [if_neg fun e => hx (Option.some.inj e).symm, if_neg hx]

theorem data?_putAttributes_of_ne {x : Nat} (hx : x ≠ d) (new : List (Attribute Symbol)) :
    (t.putAttributes (some d) new).data? (some x) = t.data? (some x) := by
  rw [data?, data?, putAttributes, node?_update, if_neg fun e => hx (Option.some.inj e).symm]

/-- Other attributes of an element, with stored names. -/
theorem Stored.putAttributes (h : t.Stored) {name : QualifiedName Symbol} {old new : List (Attribute Symbol)}
    (hd : t.data? (some d) = some (.element name old))
    (hn : ∀ a ∈ new, ∀ s ∈ a.name.parts, s < t.symbols.size) :
    Retains d t (t.putAttributes (some d) new) ∧
      (t.putAttributes (some d) new).content? (some d) =
        some ((NodeData.element name new).map t.symbols.resolve) := by
  have hparts : ∀ s ∈ (NodeData.element name new).parts, s < t.symbols.size := by
    intro s hs
    rcases List.mem_append.1 hs with hs | hs
    · exact h.parts_data hd s (List.mem_append_left _ hs)
    · obtain ⟨a, ha, has⟩ := List.mem_flatMap.1 hs
      exact hn a ha s has
  refine ⟨⟨.of_data ?_ fun {x data} hx => ?_, (size_putAttributes _ _).ge, fun {x} hx => ?_⟩, ?_⟩
  · rw [symbols_putAttributes]
    exact h.blank
  · rw [data?_putAttributes hd] at hx
    rw [symbols_putAttributes]
    split at hx
    · cases hx
      exact hparts
    · exact h.parts_data hx
  · rw [content?, content?, data?_putAttributes hd, symbols_putAttributes, if_neg hx.ne]
  · rw [content?, data?_putAttributes hd, symbols_putAttributes, if_pos rfl, Option.map_some]

theorem replaceOrPush_of_not {α : Type} {p : α → Bool} {l : List α} (h : ∀ a ∈ l, p a = false) (f : α → α)
    (new : α) : replaceOrPush p f new l = l ++ [new] := by
  induction l with
  | nil => rfl
  | cons a l ih =>
    rw [replaceOrPush, h a List.mem_cons_self, ih fun b hb => h b (List.mem_cons_of_mem _ hb)]
    rfl

/-- Where no attribute has the written name, one is added to those of the element. -/
theorem Edit.setAttribute_new {name : QualifiedName Symbol} {old : List (Attribute Symbol)}
    (hd : t.data? (some d) = some (.element name old)) {written : String} {localPart : Symbol} {symbols : SymbolTable}
    (hi : t.symbols.intern written = (localPart, symbols))
    (hn : ∀ a ∈ old, Tree.hasWritten { t with symbols } written a = false) (value : String) :
    Edit.setAttribute (some d) written value t =
      (.ok (), Tree.putAttributes { t with symbols } (some d) (old ++ [⟨⟨0, 0, localPart⟩, value⟩])) := by
  have hd' : Tree.data? { t with symbols } (some d) = some (.element name old) := hd
  rw [Edit.setAttribute, Edit.intern, bind_ok (run_modifyGet _ t)]
  simp only [hi, Edit.elementAttributes, run_bind, run_get, hd', run_pure, run_modify, replaceOrPush_of_not hn]

/-- Where no attribute has the namespace and the local part, one is added to those of the element. -/
theorem Edit.setAttributeNS_new {name key : QualifiedName Symbol} {old : List (Attribute Symbol)}
    (hd : t.data? (some d) = some (.element name old)) {space written : String} {symbols : SymbolTable}
    (hi : t.symbols.internName (.ofWritten space written) = (key, symbols))
    (hn : ∀ a ∈ old, hasKey key.space key.localPart a = false) (value : String) :
    Edit.setAttributeNS (some d) space written value t =
      (.ok (), Tree.putAttributes { t with symbols } (some d) (old ++ [⟨key, value⟩])) := by
  have hd' : Tree.data? { t with symbols } (some d) = some (.element name old) := hd
  rw [Edit.setAttributeNS, Edit.internName, bind_ok (run_modifyGet _ t)]
  simp only [hi, Edit.elementAttributes, run_bind, run_get, hd', run_pure, run_modify, replaceOrPush_of_not hn]

theorem Stored.attribute_lt (h : t.Stored) {name : QualifiedName Symbol} {old : List (Attribute Symbol)}
    (hd : t.data? (some d) = some (.element name old)) {a : Attribute Symbol} (ha : a ∈ old) {s : Symbol}
    (hs : s ∈ a.name.parts) : s < t.symbols.size :=
  h.parts_data hd s (List.mem_append_right _ (List.mem_flatMap.2 ⟨a, ha, hs⟩))

/-- A name that no attribute has is not found after more symbols were stored either. -/
theorem Stored.hasWritten_eq_false (h : t.Stored) {name : QualifiedName Symbol} {old : List (Attribute Symbol)}
    (hd : t.data? (some d) = some (.element name old)) {symbols : SymbolTable} (hx : t.symbols.Extends symbols)
    {written : String} (hn : ∀ a ∈ old, (a.name.map t.symbols.resolve).written ≠ written) :
    ∀ a ∈ old, Tree.hasWritten { t with symbols } written a = false := by
  intro a ha
  have he : a.name.map symbols.resolve = a.name.map t.symbols.resolve :=
    QualifiedName.map_congr fun s hs => hx.resolve (h.attribute_lt hd ha hs)
  rw [Tree.hasWritten, SymbolTable.resolveName, he]
  exact beq_eq_false_iff_ne.2 (hn a ha)

/-- An attribute whose name is new to the element comes after the others. -/
theorem Stored.setAttribute (h : t.Stored) {attributes : List (Attribute String)}
    (hd : t.content? (some d) = some (.element name attributes)) {written : String}
    (hn : ∀ a ∈ attributes, a.name.written ≠ written) (value : String) :
    ∃ u, Edit.setAttribute (some d) written value t = (.ok (), u) ∧ Retains d t u ∧
      u.content? (some d) = some (.element name (attributes ++ [⟨⟨"", "", written⟩, value⟩])) := by
  obtain ⟨data, hdata, hc⟩ := Option.map_eq_some_iff.1 hd
  obtain ⟨hx, hl, hr⟩ := t.symbols.intern_spec written
  rcases hi : t.symbols.intern written with ⟨localPart, symbols⟩
  rw [hi] at hx hl hr
  cases data with
  | element name' old =>
    obtain ⟨rfl, rfl⟩ := NodeData.element.inj hc
    obtain ⟨hname, hattributes⟩ := NodeData.element.inj (h.map_resolve hx hdata)
    have hs : Stored { t with symbols } := h.symbols hx
    have hdata' : Tree.data? { t with symbols } (some d) = some (.element name' old) := hdata
    have hnot := h.hasWritten_eq_false hdata hx fun a ha => hn _ (List.mem_map_of_mem ha)
    -- symbol 0 is the empty string, so the new attribute is in no namespace and has no prefix
    have hparts : ∀ a ∈ old ++ [⟨⟨0, 0, localPart⟩, value⟩], ∀ s ∈ a.name.parts, s < symbols.size := by
      intro a ha s hsp
      rcases List.mem_append.1 ha with ha | ha
      · exact (h.attribute_lt hdata ha hsp).trans_le hx.size_le
      · obtain rfl := List.mem_singleton.1 ha
        simp only [QualifiedName.parts, List.mem_cons, List.not_mem_nil, or_false] at hsp
        rcases hsp with rfl | rfl | rfl
        · exact hs.zero_lt
        · exact hs.zero_lt
        · exact hl
    obtain ⟨hret, hcont⟩ := hs.putAttributes hdata' hparts
    refine ⟨_, Edit.setAttribute_new hdata hi hnot value, ⟨hret.stored, hret.size, fun hlt => ?_⟩, ?_⟩
    · exact (hret.content hlt).trans (h.content_symbols hx _)
    · have hzero : symbols.resolve 0 = "" := hs.resolve_zero
      have hlast : (⟨0, 0, localPart⟩ : QualifiedName Symbol).map symbols.resolve = ⟨"", "", written⟩ := by
        rw [QualifiedName.map, hzero, hr]
      rw [hcont, NodeData.map, hname, List.map_append, hattributes, List.map_singleton, hlast]
  | _ => cases hc

/-- Writing attributes under distinct plain keys adds them one after another. -/
theorem Stored.writeAttributes (h : t.Stored) (namespaces : NamespaceTable) {old new : List (Attribute String)}
    (hd : t.content? (some d) = some (.element name old)) (hk : ∀ a ∈ new, PlainKey a.name.written)
    (hn : ((old ++ new).map fun a => a.name.written).Nodup) :
    ∃ u, Edit.writeAttributes namespaces (some d) (new.map fun a => (a.name.written, some a.value)) t = (.ok (), u) ∧
      Retains d t u ∧ u.content? (some d) = some (.element name (old ++ new.map Attribute.plain)) := by
  induction new generalizing t old with
  | nil => exact ⟨t, rfl, .refl d h, by simpa using hd⟩
  | cons a new ih =>
    have hkey := hk a List.mem_cons_self
    have hnew : ∀ b ∈ old, b.name.written ≠ a.name.written := by
      intro b hb he
      rw [List.map_append, List.map_cons] at hn
      exact (List.nodup_append.1 hn).2.2 _ (List.mem_map_of_mem hb) _ List.mem_cons_self he
    obtain ⟨u, hu, hret, hc⟩ := h.setAttribute hd hnew a.value
    have hn' : (((old ++ [a.plain]) ++ new).map fun a => a.name.written).Nodup := by simpa using hn
    obtain ⟨v, hv, hret', hc'⟩ := ih hret.stored hc (fun b hb => hk b (List.mem_cons_of_mem _ hb)) hn'
    have hwrite : Edit.writeAttribute namespaces (some d) a.name.written (some a.value) t = (.ok (), u) := by
      unfold Edit.writeAttribute
      rw [if_neg hkey.2, namespaces.resolve?_of_plain hkey]
      exact hu
    refine ⟨v, ?_, hret.trans hret' (Nat.le_refl _), by simpa [Attribute.plain] using hc'⟩
    rw [List.map_cons, Edit.writeAttributes, bind_ok hwrite]
    exact hv

/-! ### Renewed elements -/

theorem Edit.ofExcept_inv {f : Tree → Except TreeError Tree} {a : Unit} (h : Edit.ofExcept f t = (.ok a, u)) :
    f t = .ok u := by
  unfold Edit.ofExcept at h
  cases hf : f t with
  | error e =>
    rw [hf] at h
    cases h
  | ok v =>
    rw [hf] at h
    cases h
    rfl

/-- A renewed element has the given name and the given attributes as plain ones, and no other node changes. -/
theorem Stored.renew (h : t.Stored) {namespaces : NamespaceTable} {old : Ref} {space written : String}
    {attributes : List (Attribute String)} (hk : ∀ a ∈ attributes, PlainKey a.name.written)
    (hn : (attributes.map fun a => a.name.written).Nodup)
    (hu : Edit.renew namespaces old space written (attributes.map fun a => (a.name.written, some a.value)) t =
      (.ok t.size, u)) :
    Retains t.size t u ∧
      u.content? (some t.size) = some (.element (.ofWritten space written) (attributes.map Attribute.plain)) := by
  obtain ⟨hret, hc⟩ := h.createElement space written
  obtain ⟨v, hv, hret', hc'⟩ := hret.stored.writeAttributes namespaces hc hk hn
  have hcreate : Edit.createElement space written t = (.ok t.size, (t.createElement space written).2) := rfl
  rw [Edit.renew, bind_ok hcreate, bind_ok hv] at hu
  -- what is left are two moves
  obtain ⟨⟨⟩, w, hm, hu⟩ := run_bind_eq_ok hu
  obtain ⟨⟨⟩, w', hs, hu⟩ := run_bind_eq_ok hu
  cases hu
  have hmoves := (sameData_of_moveChildren (Edit.ofExcept_inv hm)).trans (sameData_of_succeed (Edit.ofExcept_inv hs))
  have hret'' := Retains.of_sameData (t.size + 1) hret'.stored hmoves
  refine ⟨(hret.trans hret' (Nat.le_refl _)).trans hret'' (Nat.le_succ _), ?_⟩
  rw [hret''.content (Nat.lt_succ_self _), hc', List.nil_append]

end Tree

end RichText
