import RichText.Proofs.Tree.Keys

/-!
What writing attributes makes of the attributes of all nodes.

In a tree that stores each string once symbols are compared as their strings are. Every edit of attributes is then a
change of lists of plain attributes: the element that is written to has one entry entered, the document element may
have a declaration added, and all other nodes keep what they have.
-/

namespace RichText

open RichText.Tree Effects

/-! ### Tables that store each string once -/

namespace SymbolTable

variable {table : SymbolTable} {s s' : Symbol} {text : String}

/-- No string is stored twice. -/
def Distinct (table : SymbolTable) : Prop := table.strings.toList.Nodup

theorem resolve_of_lt (h : s < table.size) : table.resolve s = table.strings.toList.get ⟨s, h⟩ := by
  have hs : s < table.strings.size := h
  rw [resolve, Array.getD_eq_getD_getElem?, Array.getElem?_eq_getElem hs, Option.getD_some]
  rfl

theorem Distinct.inj (h : table.Distinct) (hs : s < table.size) (hs' : s' < table.size)
    (he : table.resolve s = table.resolve s') : s = s' := by
  rw [resolve_of_lt hs, resolve_of_lt hs'] at he
  exact (List.Nodup.getElem_inj_iff h).1 he

/-- A string that is not found is not stored. -/
theorem resolve_ne_of_find? (h : table.find? text = none) (hs : s < table.size) : table.resolve s ≠ text := by
  intro he
  rw [find?, Array.idxOf?_eq_none_iff] at h
  apply h
  rw [← he, resolve_of_lt hs, ← Array.mem_toList_iff]
  exact List.getElem_mem _

/-- Among stored strings, a string is found at its own symbol. -/
theorem Distinct.find?_eq_some_iff (h : table.Distinct) (hs : s < table.size) :
    table.find? text = some s ↔ table.resolve s = text := by
  constructor
  · intro hf
    exact (find?_spec hf).2
  · intro hr
    cases hf : table.find? text with
    | none => exact absurd hr (resolve_ne_of_find? hf hs)
    | some s' =>
      obtain ⟨hs', hr'⟩ := find?_spec hf
      rw [h.inj hs hs' (hr.trans hr'.symm)]

theorem Distinct.intern (h : table.Distinct) (text : String) : (table.intern text).2.Distinct := by
  cases hf : table.find? text with
  | some s => simpa [SymbolTable.intern, hf] using h
  | none =>
    have hnot : text ∉ table.strings.toList := by
      rw [find?, Array.idxOf?_eq_none_iff] at hf
      simpa using hf
    simp only [SymbolTable.intern, hf, Distinct, Array.toList_push]
    exact List.nodup_append.2 ⟨h, by simp, by rintro a ha b hb rfl; exact hnot (List.mem_singleton.1 hb ▸ ha)⟩

theorem Distinct.internName (h : table.Distinct) (name : Name) : (table.internName name).2.Distinct :=
  ((h.intern name.space).intern name.nsPrefix).intern name.localPart

end SymbolTable

namespace Tree

variable {t u v : Tree} {d x : Nat} {r : Ref} {key nsPrefix uri : String} {value : Option String}
  {namespaces : NamespaceTable}

/-- The names of all nodes are stored, and each string is stored once. -/
structure Indexed (t : Tree) : Prop extends Stored t where
  distinct : t.symbols.Distinct

/-- The tree that every document begins with. -/
theorem indexed_empty : Tree.empty.Indexed :=
  ⟨⟨rfl, by decide⟩, by unfold SymbolTable.Distinct; decide +kernel⟩

theorem Indexed.symbols (h : t.Indexed) {symbols : SymbolTable} (hx : t.symbols.Extends symbols)
    (hd : symbols.Distinct) : Indexed { t with symbols } :=
  ⟨h.toStored.symbols hx, hd⟩

/-- Whether a key is that of an attribute can be told from the strings. -/
theorem Indexed.hasKey_eq (h : t.Indexed) {a : Attribute Symbol} (ha : ∀ s ∈ a.name.parts, s < t.symbols.size)
    {space localPart : Symbol} (hs : space < t.symbols.size) (hl : localPart < t.symbols.size) :
    hasKey space localPart a = ((t.symbols.resolveName a.name).space == t.symbols.resolve space &&
      (t.symbols.resolveName a.name).localPart == t.symbols.resolve localPart) := by
  have hspace : a.name.space < t.symbols.size := ha _ (by simp [QualifiedName.parts])
  have hlocal : a.name.localPart < t.symbols.size := ha _ (by simp [QualifiedName.parts])
  rw [hasKey, Bool.eq_iff_iff]
  simp only [Bool.and_eq_true, beq_iff_eq, SymbolTable.resolveName, QualifiedName.map]
  constructor
  · rintro ⟨rfl, rfl⟩
    exact ⟨rfl, rfl⟩
  · rintro ⟨h₁, h₂⟩
    exact ⟨h.distinct.inj hspace hs h₁, h.distinct.inj hlocal hl h₂⟩

/-! ### Edits of attributes -/

/-- From `t` to `u` no node changes but for its attributes, and those of each node are changed in the given way. -/
structure Alters (t : Tree) (change : Nat → List (Attribute String) → List (Attribute String)) (u : Tree) : Prop where
  shape : t.SameShape u
  indexed : u.Indexed
  attributes : ∀ x, u.attributes (some x) = change x (t.attributes (some x))

namespace Alters

variable {f g : Nat → List (Attribute String) → List (Attribute String)}

theorem refl (h : t.Indexed) : t.Alters (fun _ => id) t := ⟨.refl t, h, fun _ => rfl⟩

theorem trans (h : t.Alters f u) (h' : u.Alters g v) : t.Alters (fun x => g x ∘ f x) v :=
  ⟨h.shape.trans h'.shape, h'.indexed, fun x => by rw [h'.attributes, h.attributes, Function.comp_apply]⟩

theorem congr (h : t.Alters f u) (hfg : ∀ x, f x (t.attributes (some x)) = g x (t.attributes (some x))) :
    t.Alters g u :=
  ⟨h.shape, h.indexed, fun x => (h.attributes x).trans (hfg x)⟩

/-- More strings change no attribute. -/
theorem symbols (h : t.Indexed) {symbols : SymbolTable} (hx : t.symbols.Extends symbols) (hd : symbols.Distinct) :
    t.Alters (fun _ => id) { t with symbols } := by
  refine ⟨.symbols t symbols, h.symbols hx hd, fun x => ?_⟩
  rw [Tree.attributes, Tree.attributes, h.content_symbols hx]
  rfl

/-- Other attributes of one element. -/
theorem putAttributes (h : t.Indexed) {name : QualifiedName Symbol} {old new : List (Attribute Symbol)}
    (hd : t.data? (some d) = some (.element name old)) (hn : ∀ a ∈ new, ∀ s ∈ a.name.parts, s < t.symbols.size) :
    t.Alters (fun x attributes => if x = d then t.symbols.attributes new else attributes)
      (t.putAttributes (some d) new) := by
  obtain ⟨hr, -⟩ := h.putAttributes hd hn
  refine ⟨.putAttributes t _ new, ⟨hr.stored, by rw [symbols_putAttributes]; exact h.distinct⟩, fun x => ?_⟩
  by_cases hx : x = d
  · subst hx
    have hdata : (t.putAttributes (some x) new).data? (some x) = some (.element name new) := by
      rw [data?_putAttributes hd, if_pos rfl]
    rw [attributes_of_data hdata, symbols_putAttributes, if_pos rfl]
  · rw [if_neg hx, Tree.attributes, Tree.attributes, content?, content?, data?_putAttributes_of_ne hx,
      symbols_putAttributes]

end Alters

theorem map_replaceOrPush {α β : Type} {p : α → Bool} {q : β → Bool} {f : α → α} {f' : β → β} (g : α → β) {l : List α}
    (hp : ∀ a ∈ l, p a = q (g a)) (hf : ∀ a ∈ l, p a = true → g (f a) = f' (g a)) (new : α) :
    (replaceOrPush p f new l).map g = replaceOrPush q f' (g new) (l.map g) := by
  induction l with
  | nil => rfl
  | cons a rest ih =>
    have hrest := ih (fun b hb => hp b (List.mem_cons_of_mem _ hb)) fun b hb => hf b (List.mem_cons_of_mem _ hb)
    have ha := hp a List.mem_cons_self
    rw [replaceOrPush, List.map_cons, replaceOrPush, ← ha]
    by_cases h : p a = true
    · rw [if_pos h, if_pos h, List.map_cons, hf a List.mem_cons_self h]
    · rw [if_neg h, if_neg h, List.map_cons, hrest]

theorem map_eraseP {α β : Type} {p : α → Bool} {q : β → Bool} (g : α → β) {l : List α}
    (hp : ∀ a ∈ l, p a = q (g a)) : (l.eraseP p).map g = (l.map g).eraseP q := by
  induction l with
  | nil => rfl
  | cons a rest ih =>
    have hrest := ih fun b hb => hp b (List.mem_cons_of_mem _ hb)
    rw [List.map_cons, List.eraseP_cons, List.eraseP_cons, ← hp a List.mem_cons_self]
    cases p a with
    | true => rfl
    | false => rw [cond_false, cond_false, List.map_cons, hrest]

namespace Indexed

variable {name : QualifiedName Symbol} {old : List (Attribute Symbol)}

/-- Writes an attribute of an element: a change of the plain attributes that the symbols follow. -/
theorem replaceOrPush (h : t.Indexed) (hd : t.data? (some d) = some (.element name old))
    {p : Attribute Symbol → Bool} {f : Attribute Symbol → Attribute Symbol} {q : Attribute String → Bool}
    {g : Attribute String → Attribute String} (new : Attribute Symbol)
    (hp : ∀ a ∈ old, p a = q ⟨t.symbols.resolveName a.name, a.value⟩)
    (hf : ∀ a ∈ old, p a = true →
      (⟨t.symbols.resolveName (f a).name, (f a).value⟩ : Attribute String) = g ⟨t.symbols.resolveName a.name, a.value⟩)
    (hfs : ∀ a ∈ old, ∀ s ∈ (f a).name.parts, s < t.symbols.size) (hnew : ∀ s ∈ new.name.parts, s < t.symbols.size) :
    t.Alters (fun x attributes => if x = d then
        Tree.replaceOrPush q g ⟨t.symbols.resolveName new.name, new.value⟩ attributes else attributes)
      (t.putAttributes (some d) (Tree.replaceOrPush p f new old)) := by
  have hparts : ∀ a ∈ Tree.replaceOrPush p f new old, ∀ s ∈ a.name.parts, s < t.symbols.size := by
    intro a ha
    rcases mem_replaceOrPush ha with rfl | ⟨b, hb, rfl | rfl⟩
    · exact hnew
    · exact fun s hs => h.attribute_lt hd hb hs
    · exact hfs b hb
  refine (Alters.putAttributes h hd hparts).congr fun x => ?_
  by_cases hx : x = d
  · subst hx
    rw [if_pos rfl, if_pos rfl, attributes_of_data hd]
    exact map_replaceOrPush _ hp hf new
  · rw [if_neg hx, if_neg hx]

/-- Setting an attribute by its written name. -/
theorem setAttribute (h : t.Indexed) (hd : t.kind? (some d) = some .element) (key value : String) :
    ∃ u, Edit.setAttribute (some d) key value t = (.ok (), u) ∧
      t.Alters (fun x attributes => if x = d then Tree.replaceOrPush (fun a => a.name.written == key)
        (fun a => { a with value }) ⟨⟨"", "", key⟩, value⟩ attributes else attributes) u := by
  obtain ⟨name, old, hdata⟩ := exists_data_of_kind hd
  obtain ⟨hx, hl, hr⟩ := t.symbols.intern_spec key
  have hdist := h.distinct.intern key
  rcases hi : t.symbols.intern key with ⟨localPart, symbols⟩
  rw [hi] at hx hl hr hdist
  have hsymbols := Alters.symbols h hx hdist
  have hw : Tree.Indexed { t with symbols } := hsymbols.indexed
  have hdata' : Tree.data? { t with symbols } (some d) = some (.element name old) := hdata
  have hzero : symbols.resolve 0 = "" := hw.resolve_zero
  have hnew : symbols.resolveName ⟨0, 0, localPart⟩ = ⟨"", "", key⟩ := by
    rw [SymbolTable.resolveName, QualifiedName.map, hzero, hr]
  have hput := hw.replaceOrPush hdata' (p := Tree.hasWritten { t with symbols } key) (f := fun a => { a with value })
    (q := fun a => a.name.written == key) (g := fun a => { a with value }) ⟨⟨0, 0, localPart⟩, value⟩
    (fun a _ => rfl) (fun a _ _ => rfl) (fun a ha s hs => hw.attribute_lt hdata' ha hs) ?_
  · refine ⟨_, ?_, (hsymbols.trans hput).congr fun x => ?_⟩
    · rw [Edit.setAttribute, Edit.intern, bind_ok (run_modifyGet _ t)]
      simp only [hi, Edit.elementAttributes, run_bind, run_get, hdata', run_pure, run_modify]
    · simp only [Function.comp_apply, id, hnew]
  · intro s hs
    simp only [QualifiedName.parts, List.mem_cons, List.not_mem_nil, or_false] at hs
    rcases hs with rfl | rfl | rfl
    · exact hw.zero_lt
    · exact hw.zero_lt
    · exact hl

/-- Setting an attribute by its namespace and local part. -/
theorem setAttributeNS (h : t.Indexed) (hd : t.kind? (some d) = some .element) {space localPart : String}
    (hk : QualifiedName.ofWritten space key = ⟨space, nsPrefix, localPart⟩) (value : String) :
    ∃ u, Edit.setAttributeNS (some d) space key value t = (.ok (), u) ∧
      t.Alters (fun x attributes => if x = d then
        Tree.replaceOrPush (fun a => a.name.space == space && a.name.localPart == localPart)
          (fun _ => ⟨⟨space, nsPrefix, localPart⟩, value⟩) ⟨⟨space, nsPrefix, localPart⟩, value⟩ attributes
        else attributes) u := by
  obtain ⟨name, old, hdata⟩ := exists_data_of_kind hd
  obtain ⟨hx, hl, hr⟩ := t.symbols.internName_spec (.ofWritten space key)
  have hdist := h.distinct.internName (.ofWritten space key)
  rcases hi : t.symbols.internName (.ofWritten space key) with ⟨found, symbols⟩
  rw [hi] at hx hl hr hdist
  have hsymbols := Alters.symbols h hx hdist
  have hw : Tree.Indexed { t with symbols } := hsymbols.indexed
  have hdata' : Tree.data? { t with symbols } (some d) = some (.element name old) := hdata
  have hr' : symbols.resolveName found = ⟨space, nsPrefix, localPart⟩ := hr.trans hk
  obtain ⟨hspace, hprefix, hlocal⟩ := QualifiedName.mk.inj hr'
  have hparts : ∀ a ∈ old, ∀ s ∈ a.name.parts, s < symbols.size := fun a ha s hs => hw.attribute_lt hdata' ha hs
  have hput := hw.replaceOrPush hdata' (p := hasKey found.space found.localPart)
    (f := fun a => ⟨{ a.name with nsPrefix := found.nsPrefix }, value⟩)
    (q := fun a => a.name.space == space && a.name.localPart == localPart)
    (g := fun _ => ⟨⟨space, nsPrefix, localPart⟩, value⟩) ⟨found, value⟩ ?_ ?_ ?_ hl
  · refine ⟨_, ?_, (hsymbols.trans hput).congr fun x => ?_⟩
    · rw [Edit.setAttributeNS, Edit.internName, bind_ok (run_modifyGet _ t)]
      simp only [hi, Edit.elementAttributes, run_bind, run_get, hdata', run_pure, run_modify]
    · simp only [Function.comp_apply, id, hr']
  · intro a ha
    have hkey := hw.hasKey_eq (hparts a ha) (hl found.space (by simp [QualifiedName.parts]))
      (hl found.localPart (by simp [QualifiedName.parts]))
    rwa [hspace, hlocal] at hkey
  · intro a ha hp
    -- an attribute that is found has the namespace and the local part already
    rw [hasKey, Bool.and_eq_true, beq_iff_eq, beq_iff_eq] at hp
    simp only [SymbolTable.resolveName, QualifiedName.map, hp.1, hp.2, Attribute.mk.injEq, and_true]
    exact hr'
  · intro a ha s hs
    simp only [QualifiedName.parts, List.mem_cons, List.not_mem_nil, or_false] at hs
    rcases hs with rfl | rfl | rfl
    · exact hparts a ha _ (by simp [QualifiedName.parts])
    · exact hl _ (by simp [QualifiedName.parts])
    · exact hparts a ha _ (by simp [QualifiedName.parts])

/-- Removes an attribute of an element: a change of the plain attributes that the symbols follow. -/
theorem eraseP (h : t.Indexed) (hd : t.data? (some d) = some (.element name old)) {p : Attribute Symbol → Bool}
    {q : Attribute String → Bool} (hp : ∀ a ∈ old, p a = q ⟨t.symbols.resolveName a.name, a.value⟩) :
    t.Alters (fun x attributes => if x = d then attributes.eraseP q else attributes)
      (t.putAttributes (some d) (old.eraseP p)) := by
  have hparts : ∀ a ∈ old.eraseP p, ∀ s ∈ a.name.parts, s < t.symbols.size :=
    fun a ha s hs => h.attribute_lt hd (List.mem_of_mem_eraseP ha) hs
  refine (Alters.putAttributes h hd hparts).congr fun x => ?_
  by_cases hx : x = d
  · subst hx
    rw [if_pos rfl, if_pos rfl, attributes_of_data hd]
    exact map_eraseP _ hp
  · rw [if_neg hx, if_neg hx]

/-- Removing an attribute by its written name. -/
theorem removeAttribute (h : t.Indexed) (hd : t.kind? (some d) = some .element) (key : String) :
    ∃ found u, Edit.removeAttribute (some d) key t = (.ok found, u) ∧
      t.Alters (fun x attributes => if x = d then attributes.eraseP fun a => a.name.written == key else attributes)
        u := by
  obtain ⟨name, old, hdata⟩ := exists_data_of_kind hd
  refine ⟨old.any (t.hasWritten key), _, ?_, h.eraseP hdata (p := t.hasWritten key) fun a _ => rfl⟩
  simp only [Edit.removeAttribute, Edit.elementAttributes, run_bind, run_get, hdata, run_pure, run_modifyGet]

/-- Removing an attribute by its namespace and local part answers whether one of the plain attributes has them. -/
theorem removeAttributeNS (h : t.Indexed) (hd : t.kind? (some d) = some .element) (space localPart : String) :
    ∃ u, Edit.removeAttributeNS (some d) space localPart t =
        (.ok ((t.attributes (some d)).any fun a => a.name.space == space && a.name.localPart == localPart), u) ∧
      t.Alters (fun x attributes => if x = d then
        attributes.eraseP fun a => a.name.space == space && a.name.localPart == localPart else attributes) u := by
  obtain ⟨name, old, hdata⟩ := exists_data_of_kind hd
  obtain ⟨hx, hs, hr⟩ := t.symbols.intern_spec space
  have hdist := h.distinct.intern space
  rcases hi : t.symbols.intern space with ⟨s, first⟩
  rw [hi] at hx hs hr hdist
  obtain ⟨hx', hl, hr'⟩ := first.intern_spec localPart
  have hdist' := hdist.intern localPart
  rcases hi' : first.intern localPart with ⟨l, symbols⟩
  rw [hi'] at hx' hl hr' hdist'
  have hsymbols := Alters.symbols h (hx.trans hx') hdist'
  have hw : Tree.Indexed { t with symbols } := hsymbols.indexed
  have hdata' : Tree.data? { t with symbols } (some d) = some (.element name old) := hdata
  have hkey : ∀ a ∈ old, hasKey s l a = ((symbols.resolveName a.name).space == space &&
      (symbols.resolveName a.name).localPart == localPart) := by
    intro a ha
    have hkey := hw.hasKey_eq (fun x hx => hw.attribute_lt hdata' ha hx) (hs.trans_le hx'.size_le) hl
    rwa [hr', hx'.resolve hs, hr] at hkey
  have hany : old.any (hasKey s l) =
      (t.attributes (some d)).any fun a => a.name.space == space && a.name.localPart == localPart := by
    have hplain : t.attributes (some d) = symbols.attributes old :=
      (hsymbols.attributes d).symm.trans (attributes_of_data hdata')
    rw [hplain, SymbolTable.attributes, List.any_map, Bool.eq_iff_iff, List.any_eq_true, List.any_eq_true]
    exact exists_congr fun a => and_congr_right fun ha => by rw [hkey a ha]; rfl
  have herase := hw.eraseP hdata' (p := hasKey s l)
    (q := fun a => a.name.space == space && a.name.localPart == localPart) hkey
  refine ⟨_, ?_, (hsymbols.trans herase).congr fun x => by simp only [Function.comp_apply, id]⟩
  simp only [Edit.removeAttributeNS, Edit.intern, Edit.elementAttributes, run_bind, run_modifyGet, run_get, hi, hi',
    hdata', run_pure, hany]

/-- Symbols of attributes are found for their strings alone. -/
theorem findSymbols?_eq_some_iff (h : t.Indexed) {s l : Symbol} (hs : s < t.symbols.size) (hl : l < t.symbols.size)
    {space localPart : String} :
    t.findSymbols? space localPart = some (s, l) ↔
      t.symbols.resolve s = space ∧ t.symbols.resolve l = localPart := by
  rw [← h.distinct.find?_eq_some_iff hs, ← h.distinct.find?_eq_some_iff hl, findSymbols?]
  cases t.symbols.find? space <;> cases t.symbols.find? localPart <;> simp

/-- Reading an attribute by its namespace and local part finds the first plain attribute that has them. -/
theorem attributeNS?_eq (h : t.Indexed) (hd : t.kind? (some d) = some .element) (space localPart : String) :
    t.attributeNS? (some d) space localPart =
      ((t.attributes (some d)).find? fun a => a.name.space == space && a.name.localPart == localPart).map
        Attribute.value := by
  obtain ⟨name, old, hdata⟩ := exists_data_of_kind hd
  have hsymbolic : t.symbolicAttributes (some d) = old := by
    rw [symbolicAttributes, hdata]
    rfl
  let has : Attribute Symbol → Bool := fun a => (t.symbols.resolveName a.name).space == space &&
    (t.symbols.resolveName a.name).localPart == localPart
  have hhas : ∀ a ∈ old, has a = true ↔ t.findSymbols? space localPart = some (a.name.space, a.name.localPart) := by
    intro a ha
    rw [h.findSymbols?_eq_some_iff (h.attribute_lt hdata ha (by simp [QualifiedName.parts]))
      (h.attribute_lt hdata ha (by simp [QualifiedName.parts]))]
    simp [has, SymbolTable.resolveName, QualifiedName.map]
  have hfind : t.attributeNS? (some d) space localPart = (old.find? has).map Attribute.value := by
    rw [attributeNS?, hsymbolic]
    cases hf : t.findSymbols? space localPart with
    | none =>
      have hnone : old.find? has = none := by
        refine List.find?_eq_none.2 fun a ha hm => ?_
        rw [hhas a ha, hf] at hm
        cases hm
      rw [hnone]
      rfl
    | some key =>
      obtain ⟨s, l⟩ := key
      have hcongr : old.find? has = old.find? fun a => a.name.space == s && a.name.localPart == l := by
        refine List.find?_congr fun a ha => ?_
        rw [Bool.eq_iff_iff, hhas a ha, hf, Option.some.injEq, Prod.mk.injEq, Bool.and_eq_true, beq_iff_eq, beq_iff_eq,
          eq_comm, @eq_comm _ l]
      rw [hcongr]
      simp only [Option.bind_eq_bind, Option.bind_some]
      cases old.find? fun a => a.name.space == s && a.name.localPart == l <;> rfl
  rw [hfind, attributes_of_data hdata, SymbolTable.attributes, List.find?_map, Option.map_map]
  rfl

/-- An attribute is found by its namespace and local part where one of the plain attributes has them. -/
theorem isSome_attributeNS? (h : t.Indexed) (hd : t.kind? (some d) = some .element) (space localPart : String) :
    (t.attributeNS? (some d) space localPart).isSome =
      (t.attributes (some d)).any fun a => a.name.space == space && a.name.localPart == localPart := by
  rw [h.attributeNS?_eq hd, Option.isSome_map, List.isSome_find?]

/-- The two ways in which a declaration is looked for find what declares the prefix among the plain attributes. -/
theorem declares_eq (h : t.Indexed) (hd : t.kind? (some d) = some .element) (nsPrefix : String) :
    ((t.attributeNS? (some d) Uri.xmlns nsPrefix).isSome || (t.attribute? (some d) ("xmlns:" ++ nsPrefix)).isSome) =
      (t.attributes (some d)).any fun a => NamespaceTable.declares nsPrefix a.name := by
  have hwritten : (t.attribute? (some d) ("xmlns:" ++ nsPrefix)).isSome =
      (t.attributes (some d)).any fun a => a.name.written == "xmlns:" ++ nsPrefix := by
    rw [attribute?, Option.isSome_map, List.isSome_find?]
  rw [h.isSome_attributeNS? hd, hwritten, Bool.eq_iff_iff]
  simp only [Bool.or_eq_true, List.any_eq_true, NamespaceTable.declares, ← exists_or, and_or_left]

/-- Declaring a prefix changes the attributes of the document element, if there is one. -/
theorem declarePrefix (h : t.Indexed) (hp : nsPrefix ≠ "") (hxml : nsPrefix ≠ "xml") (hxmlns : nsPrefix ≠ "xmlns")
    (uri : String) :
    ∃ u, Edit.declarePrefix nsPrefix uri t = (.ok (), u) ∧
      t.Alters (fun x attributes => if t.documentElement = some x then
        NamespaceTable.declare nsPrefix uri attributes else attributes) u := by
  unfold Edit.declarePrefix
  rw [if_neg (by simp [hxml, hxmlns]), bind_ok (run_get t)]
  cases hdoc : t.documentElement with
  | none => exact ⟨t, rfl, (Alters.refl h).congr fun x => rfl⟩
  | some d =>
    have hd := Writes.kind_documentElement hdoc
    dsimp only
    rw [h.declares_eq hd]
    by_cases hdecl : ((t.attributes (some d)).any fun a => NamespaceTable.declares nsPrefix a.name) = true
    · refine ⟨t, by rw [if_pos hdecl]; rfl, (Alters.refl h).congr fun x => ?_⟩
      by_cases hx : some d = some x
      · cases hx
        rw [if_pos rfl, NamespaceTable.declare, if_pos hdecl, id]
      · rw [if_neg hx, id]
    · obtain ⟨u, hu, ha⟩ := h.setAttributeNS hd (ofWritten_declaration hp Uri.xmlns) uri
      refine ⟨u, by rw [if_neg hdecl]; exact hu, ha.congr fun x => ?_⟩
      by_cases hx : x = d
      · subst hx
        rw [if_pos rfl, if_pos rfl, NamespaceTable.declare, if_neg hdecl]
        refine replaceOrPush_of_not (fun a ha => ?_) _ _
        simp only [Bool.not_eq_true, List.any_eq_false, NamespaceTable.declares, Bool.or_eq_true, not_or] at hdecl
        exact Bool.not_eq_true _ ▸ (hdecl a ha).1
      · rw [if_neg hx, if_neg fun e => hx (Option.some.inj e).symm]

end Indexed

theorem SameShape.siblingsFrom (h : t.SameShape u) (n : Nat) (r : Ref) : u.siblingsFrom n r = t.siblingsFrom n r := by
  induction n generalizing r with
  | zero => cases r <;> rfl
  | succ n ih =>
    cases r with
    | none => rfl
    | some x => rw [Tree.siblingsFrom, Tree.siblingsFrom, h.nextSibling, ih]

/-- The document element stays where the shape stays. -/
theorem SameShape.documentElement (h : t.SameShape u) : u.documentElement = t.documentElement := by
  have hchildren : u.children root = t.children root := by
    rw [children, children, h.size, h.firstChild, h.siblingsFrom]
  simp only [Tree.documentElement, hchildren, h.kind]

/-- Writing an entry is one step on the attributes of every node. -/
theorem Indexed.writeAttribute (h : t.Indexed) (namespaces : NamespaceTable) (hd : t.kind? (some d) = some .element)
    (key : String) (value : Option String) :
    ∃ u, Edit.writeAttribute namespaces (some d) key value t = (.ok (), u) ∧
      t.Alters (fun x attributes => namespaces.step (x = d) (t.documentElement = some x) attributes (key, value)) u := by
  unfold Edit.writeAttribute
  by_cases hkey : key = "xmlns"
  · refine ⟨t, by rw [if_pos hkey]; rfl, (Alters.refl h).congr fun x => ?_⟩
    rw [hkey, NamespaceTable.step_xmlns, id]
  rw [if_neg hkey]
  cases hr : namespaces.resolve? key with
  | none =>
    have hnone := NamespaceTable.published?_plain hr value
    cases value with
    | none =>
      obtain ⟨found, u, hu, ha⟩ := h.removeAttribute hd key
      refine ⟨u, (bind_ok hu).trans rfl, ha.congr fun x => ?_⟩
      simp only [NamespaceTable.step_unpublished hnone, NamespaceTable.erase_plain hkey hr, decide_eq_true_eq]
    | some value =>
      obtain ⟨u, hu, ha⟩ := h.setAttribute hd key value
      refine ⟨u, hu, ha.congr fun x => ?_⟩
      simp only [NamespaceTable.step_unpublished hnone, NamespaceTable.enter_plain hkey hr, decide_eq_true_eq]
  | some resolved =>
    obtain ⟨nsPrefix, uri, localPart⟩ := resolved
    obtain ⟨-, hp, hw⟩ := NamespaceTable.resolve?_eq_some hr
    cases value with
    | none =>
      obtain ⟨u, hu, ha⟩ := h.removeAttributeNS hd uri localPart
      refine ⟨u, (bind_ok hu).trans rfl, ha.congr fun x => ?_⟩
      simp only [NamespaceTable.step_unpublished (NamespaceTable.published?_none _ _),
        NamespaceTable.erase_bound hkey hr, decide_eq_true_eq]
    | some value =>
      have hpublished := NamespaceTable.published?_bound hr value
      obtain ⟨u, hu, ha⟩ := h.setAttributeNS hd hw value
      by_cases hpublic : nsPrefix = "xml" ∨ nsPrefix = "xmlns"
      · rw [if_pos hpublic] at hpublished
        refine ⟨u, (bind_ok hu).trans ?_, ha.congr fun x => ?_⟩
        · unfold Edit.declarePrefix
          rw [if_pos (by simpa using hpublic)]
          rfl
        · simp only [NamespaceTable.step_unpublished hpublished, NamespaceTable.enter_bound hkey hr, hw,
            decide_eq_true_eq]
      · rw [if_neg hpublic] at hpublished
        obtain ⟨hxml, hxmlns⟩ := not_or.1 hpublic
        obtain ⟨v, hv, hb⟩ := ha.indexed.declarePrefix hp hxml hxmlns uri
        refine ⟨v, (bind_ok hu).trans hv, (ha.trans hb).congr fun x => ?_⟩
        simp only [NamespaceTable.step_published hpublished, NamespaceTable.enter_bound hkey hr, hw,
          ha.shape.documentElement, Function.comp_apply, decide_eq_true_eq]

/-- Writing entries one after another settles the attributes of every node. -/
theorem Indexed.writeAttributes (h : t.Indexed) (namespaces : NamespaceTable) (hd : t.kind? (some d) = some .element)
    (entries : List (String × Option String)) :
    ∃ u, Edit.writeAttributes namespaces (some d) entries t = (.ok (), u) ∧
      t.Alters (fun x => namespaces.settle (x = d) (t.documentElement = some x) entries) u := by
  induction entries generalizing t with
  | nil => exact ⟨t, rfl, (Alters.refl h).congr fun x => rfl⟩
  | cons entry rest ih =>
    obtain ⟨u, hu, ha⟩ := h.writeAttribute namespaces hd entry.1 entry.2
    obtain ⟨v, hv, hb⟩ := ih ha.indexed (ha.shape.kind _ ▸ hd)
    refine ⟨v, (bind_ok hu).trans hv, (ha.trans hb).congr fun x => ?_⟩
    rw [Function.comp_apply, ha.shape.documentElement]
    rfl

/-! ### Renewed elements -/

theorem Indexed.moves (h : t.Indexed) (hs : t.SameData u) : u.Indexed :=
  ⟨(Retains.of_sameData 0 h.toStored hs).stored, by rw [hs.symbols]; exact h.distinct⟩

theorem attributes_of_sameData (hs : t.SameData u) (r : Ref) : u.attributes r = t.attributes r := by
  rw [attributes, attributes, content?, content?, hs.data, hs.symbols]

theorem symbols_of_setText {content : String} (hu : t.setText r content = .ok u) : u.symbols = t.symbols := by
  rw [(setText_eq hu).2, symbols_update]

/-- A node has the new text, or the data that it had. -/
theorem data_of_setText {content : String} (hu : t.setText r content = .ok u) {data : NodeData Symbol}
    (hd : u.data? (some x) = some data) : data = .text content ∨ t.data? (some x) = some data := by
  obtain ⟨-, rfl⟩ := setText_eq hu
  obtain ⟨node, hn, rfl⟩ := Option.map_eq_some_iff.1 hd
  rw [node?_update] at hn
  split at hn
  · obtain ⟨old, -, rfl⟩ := Option.map_eq_some_iff.1 hn
    exact .inl rfl
  · exact .inr (Option.map_eq_some_iff.2 ⟨node, hn, rfl⟩)

theorem Indexed.setText (h : t.Indexed) {content : String} (hu : t.setText r content = .ok u) : u.Indexed := by
  have hs := symbols_of_setText hu
  refine ⟨.of_data (hs ▸ h.blank) fun {x data} hd => ?_, hs ▸ h.distinct⟩
  rw [hs]
  rcases data_of_setText hu hd with rfl | hd
  · exact fun _ hs => nomatch hs
  · exact h.parts_data hd

/-- A new element has no attributes, and no other node changes. -/
theorem Indexed.createElement (h : t.Indexed) (space written : String) :
    (t.createElement space written).2.Indexed ∧ (t.createElement space written).2.attributes (some t.size) = [] ∧
      ∀ x < t.size, (t.createElement space written).2.attributes (some x) = t.attributes (some x) := by
  obtain ⟨hr, hc⟩ := h.toStored.createElement space written
  have hdistinct : (t.createElement space written).2.symbols.Distinct :=
    h.distinct.internName (.ofWritten space written)
  refine ⟨⟨hr.stored, hdistinct⟩, by rw [attributes, hc]; rfl, fun x hx => ?_⟩
  rw [attributes, attributes, hr.content hx]

/-- A renewed element has the attributes that were written, and the document element what was declared on the way. -/
theorem Indexed.renew (h : t.Indexed) (hl : t.Linked) {old : Ref} {space name : String}
    {entries : List (String × Option String)}
    (hu : Edit.renew namespaces old space name entries t = (.ok t.size, u)) :
    u.attributes (some t.size) = namespaces.settle true false entries [] ∧
      ∀ x < t.size, u.attributes (some x) =
        namespaces.settle false (t.documentElement = some x) entries (t.attributes (some x)) := by
  obtain ⟨v, hv, -, hvk, -, hvkind⟩ := hl.createElement space name
  obtain ⟨hindexed, hnew, hothers⟩ := h.createElement space name
  rw [hv] at hindexed hnew hothers
  have hdoc : v.documentElement = t.documentElement :=
    documentElement_congr (congrFun hvk 0) fun x hx => by rw [hvkind, if_neg (hl.child_lt hx).ne]
  have hfresh : t.documentElement ≠ some t.size := fun he => Nat.lt_irrefl _ (lt_of_documentElement he)
  obtain ⟨w, hw, ha⟩ := hindexed.writeAttributes namespaces (by rw [hvkind, if_pos rfl]) entries
  have hcreate : Edit.createElement space name t = (.ok t.size, v) := by rw [Edit.createElement, run_modifyGet, hv]
  rw [Edit.renew, bind_ok hcreate, bind_ok hw] at hu
  -- what is left are two moves
  obtain ⟨⟨⟩, x, hm, hu⟩ := run_bind_eq_ok hu
  obtain ⟨⟨⟩, y, hs, hu⟩ := run_bind_eq_ok hu
  cases hu
  have hmoves := (sameData_of_moveChildren (Edit.ofExcept_inv hm)).trans (sameData_of_succeed (Edit.ofExcept_inv hs))
  constructor
  · rw [attributes_of_sameData hmoves, ha.attributes, hnew, hdoc, decide_eq_true rfl, decide_eq_false hfresh]
  · intro x hx
    rw [attributes_of_sameData hmoves, ha.attributes, hothers x hx, hdoc, decide_eq_false hx.ne]

end Tree

end RichText
