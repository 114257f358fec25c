import RichText.Proofs.Tree.Resolved
import RichText.Proofs.Tree.Untouched

/-!
Attributes under keys.

A table of namespaces says which attribute a key finds and under which name it stores one: by namespace and local part
where the prefix of the key is bound, by the written name otherwise. Attributes are always read by their written names.
The two agree where every key that is written finds the attribute that is written like it and no other; then what was
written last is what is read.
-/

namespace RichText

open RichText.Tree

variable {namespaces : NamespaceTable} {a b : Attribute String} {attributes : List (Attribute String)}
  {key k nsPrefix uri localPart : String} {value : Option String} {name : Name} {keys : List String}

/-! ### Reading attributes -/

/-- An attribute as it is read: its written name and its value. -/
def Attribute.entry (a : Attribute String) : String × String := (a.name.written, a.value)

/-- Attributes as they are read, in document order. -/
def Attribute.entries (attributes : List (Attribute String)) : List (String × String) :=
  attributes.map Attribute.entry

@[simp] theorem Attribute.entries_cons (a : Attribute String) (rest : List (Attribute String)) :
    entries (a :: rest) = (a.name.written, a.value) :: entries rest := rfl

theorem Attribute.keys_entries (attributes : List (Attribute String)) :
    (entries attributes).map Prod.fst = attributes.map (·.name.written) := by
  simp [entries, entry, Function.comp_def]

theorem Tree.attribute?_eq (t : Tree) (r : Ref) (written : String) :
    t.attribute? r written = (Attribute.entries (t.attributes r)).lookup written := by
  unfold Tree.attribute?
  induction t.attributes r with
  | nil => rfl
  | cons a rest ih =>
    rw [Attribute.entries_cons, Keyed.lookup_cons_ite, List.find?_cons]
    by_cases h : a.name.written = written
    · simp [h]
    · rw [beq_eq_false_iff_ne.2 h, if_neg (Ne.symm h)]
      exact ih

theorem Tree.mem_attributeNames {t : Tree} {r : Ref} :
    key ∈ t.attributeNames r ↔ (t.attribute? r key).isSome = true := by
  rw [Tree.attribute?, Option.isSome_map, List.isSome_find?, List.any_eq_true, Tree.attributeNames, List.mem_map]
  simp

/-! ### Finding and storing -/

namespace NamespaceTable

/-- Whether a key finds the attribute of this name. -/
def finds (namespaces : NamespaceTable) (key : String) (name : Name) : Bool :=
  match namespaces.resolve? key with
  | some (_, uri, localPart) => name.space == uri && name.localPart == localPart
  | none => name.written == key

/-- The name of an attribute after it was written under a key that finds it. -/
def rename (namespaces : NamespaceTable) (key : String) (name : Name) : Name :=
  match namespaces.resolve? key with
  | some (_, uri, _) => .ofWritten uri key
  | none => name

/-- The name of a new attribute under a key. -/
def nameOf (namespaces : NamespaceTable) (key : String) : Name := namespaces.rename key ⟨"", "", key⟩

/-- Writes an entry to the attributes of an element; without a value the attribute is removed. -/
def enter (namespaces : NamespaceTable) (key : String) (value : Option String)
    (attributes : List (Attribute String)) : List (Attribute String) :=
  if key = "xmlns" then attributes
  else
    match value with
    | some value =>
      replaceOrPush (fun a => namespaces.finds key a.name) (fun a => ⟨namespaces.rename key a.name, value⟩)
        ⟨namespaces.nameOf key, value⟩ attributes
    | none => attributes.eraseP fun a => namespaces.finds key a.name

/-- Whether an attribute of this name declares a prefix. -/
def declares (nsPrefix : String) (name : Name) : Bool :=
  (name.space == Uri.xmlns && name.localPart == nsPrefix) || name.written == "xmlns:" ++ nsPrefix

/-- The prefix that has to be declared where an entry is written. -/
def published? (namespaces : NamespaceTable) (key : String) (value : Option String) : Option (String × String) :=
  match namespaces.resolve? key, value with
  | some (nsPrefix, uri, _), some _ =>
    if nsPrefix = "xml" || nsPrefix = "xmlns" then none else some (nsPrefix, uri)
  | _, _ => none

/-- Declares a prefix among the attributes of the document element, unless it is declared there. -/
def declare (nsPrefix uri : String) (attributes : List (Attribute String)) : List (Attribute String) :=
  if attributes.any fun a => declares nsPrefix a.name then attributes
  else attributes ++ [.declaration nsPrefix uri]

/-- Declares the prefix of an entry among the attributes of the document element. -/
def publish (namespaces : NamespaceTable) (key : String) (value : Option String)
    (attributes : List (Attribute String)) : List (Attribute String) :=
  match namespaces.published? key value with
  | some (nsPrefix, uri) => declare nsPrefix uri attributes
  | none => attributes

/-- What writing one entry makes of the attributes of a node: it may be the one that is written to, and it may be
the document element. -/
def step (namespaces : NamespaceTable) (target apex : Bool) (attributes : List (Attribute String))
    (entry : String × Option String) : List (Attribute String) :=
  let attributes := if target then namespaces.enter entry.1 entry.2 attributes else attributes
  if apex then namespaces.publish entry.1 entry.2 attributes else attributes

/-- What writing entries one after another makes of the attributes of a node. -/
def settle (namespaces : NamespaceTable) (target apex : Bool) (entries : List (String × Option String))
    (attributes : List (Attribute String)) : List (Attribute String) :=
  entries.foldl (namespaces.step target apex) attributes

/-! ### What a key finds -/

theorem finds_of_resolve (h : namespaces.resolve? key = some (nsPrefix, uri, localPart)) (name : Name) :
    namespaces.finds key name = (name.space == uri && name.localPart == localPart) := by
  simp [finds, h]

theorem finds_of_plain (h : namespaces.resolve? key = none) (name : Name) :
    namespaces.finds key name = (name.written == key) := by
  simp [finds, h]

theorem resolve?_xmlns (namespaces : NamespaceTable) : namespaces.resolve? "xmlns" = none := by
  have hs : splitName "xmlns" = (none, "xmlns") := by decide
  rw [resolve?, hs]

/-! ### Writing one entry -/

theorem enter_plain (hk : key ≠ "xmlns") (hr : namespaces.resolve? key = none) (value : String)
    (attributes : List (Attribute String)) :
    namespaces.enter key (some value) attributes = replaceOrPush (fun a => a.name.written == key)
      (fun a => { a with value }) ⟨⟨"", "", key⟩, value⟩ attributes := by
  simp only [enter, if_neg hk, nameOf, rename, finds, hr]

theorem enter_bound (hk : key ≠ "xmlns") (hr : namespaces.resolve? key = some (nsPrefix, uri, localPart))
    (value : String) (attributes : List (Attribute String)) :
    namespaces.enter key (some value) attributes =
      replaceOrPush (fun a => a.name.space == uri && a.name.localPart == localPart)
        (fun _ => ⟨.ofWritten uri key, value⟩) ⟨.ofWritten uri key, value⟩ attributes := by
  simp only [enter, if_neg hk, nameOf, rename, finds, hr]

theorem erase_plain (hk : key ≠ "xmlns") (hr : namespaces.resolve? key = none)
    (attributes : List (Attribute String)) :
    namespaces.enter key none attributes = attributes.eraseP fun a => a.name.written == key := by
  simp only [enter, if_neg hk, finds, hr]

theorem erase_bound (hk : key ≠ "xmlns") (hr : namespaces.resolve? key = some (nsPrefix, uri, localPart))
    (attributes : List (Attribute String)) :
    namespaces.enter key none attributes =
      attributes.eraseP fun a => a.name.space == uri && a.name.localPart == localPart := by
  simp only [enter, if_neg hk, finds, hr]

@[simp] theorem published?_none (namespaces : NamespaceTable) (key : String) : namespaces.published? key none = none := by
  unfold published?
  split
  · contradiction
  · rfl

theorem published?_plain (hr : namespaces.resolve? key = none) (value : Option String) :
    namespaces.published? key value = none := by
  simp only [published?, hr]

theorem published?_bound (hr : namespaces.resolve? key = some (nsPrefix, uri, localPart)) (value : String) :
    namespaces.published? key (some value) =
      if nsPrefix = "xml" ∨ nsPrefix = "xmlns" then none else some (nsPrefix, uri) := by
  simp [published?, hr]

/-- An entry that needs no declaration changes the element that it is written to, and no other one. -/
theorem step_unpublished (h : namespaces.published? key value = none) (target apex : Bool)
    (attributes : List (Attribute String)) :
    namespaces.step target apex attributes (key, value) =
      if target then namespaces.enter key value attributes else attributes := by
  simp only [step, publish, h, ite_self]

/-- An entry that needs a declaration changes the document element as well. -/
theorem step_published (h : namespaces.published? key value = some (nsPrefix, uri)) (target apex : Bool)
    (attributes : List (Attribute String)) :
    namespaces.step target apex attributes (key, value) =
      let entered := if target then namespaces.enter key value attributes else attributes
      if apex then declare nsPrefix uri entered else entered := by
  simp only [step, publish, h]

/-- Nothing is written under `xmlns`. -/
theorem step_xmlns (namespaces : NamespaceTable) (target apex : Bool) (attributes : List (Attribute String))
    (value : Option String) : namespaces.step target apex attributes ("xmlns", value) = attributes := by
  have hnothing : namespaces.enter "xmlns" value attributes = attributes := if_pos rfl
  rw [step_unpublished (published?_plain (resolve?_xmlns namespaces) value), hnothing, ite_self]

/-! ### Names under which attributes are stored -/

/-- A name that is all local part is written as it is. -/
@[simp] theorem written_unqualified (space written : String) :
    (⟨space, "", written⟩ : Name).written = written := by
  simp [QualifiedName.written]

theorem name_resolved (namespaces : NamespaceTable) (key value : String) :
    ((⟨⟨"", "", key⟩, value⟩ : Attribute String).resolved namespaces).name = namespaces.nameOf key := by
  rw [Attribute.resolved, written_unqualified, nameOf, rename]
  cases namespaces.resolve? key <;> simp [Attribute.plain]

@[simp] theorem value_resolved (namespaces : NamespaceTable) (a : Attribute String) :
    (a.resolved namespaces).value = a.value := by
  rw [Attribute.resolved]
  split <;> rfl

@[simp] theorem written_nameOf (namespaces : NamespaceTable) (key : String) :
    (namespaces.nameOf key).written = key := by
  rw [nameOf, rename]
  split
  · exact written_ofWritten _ _
  · exact written_unqualified _ _

/-- An attribute that a key found is written like the key from then on. -/
theorem written_rename (h : namespaces.finds key name = true) : (namespaces.rename key name).written = key := by
  rw [rename]
  split
  · exact written_ofWritten _ _
  · rename_i hr
    rw [finds_of_plain hr] at h
    exact beq_iff_eq.1 h

/-- Under a table that separates its prefixes a key finds what is stored under it, and nothing else. -/
theorem Separates.finds_nameOf (h : namespaces.Separates) (key k : String) :
    namespaces.finds key (namespaces.nameOf k) = (k == key) := by
  cases hr : namespaces.resolve? key with
  | none => rw [finds_of_plain hr, written_nameOf]
  | some resolved =>
    obtain ⟨nsPrefix, uri, localPart⟩ := resolved
    obtain ⟨-, -, hw⟩ := resolve?_eq_some hr
    rw [finds_of_resolve hr]
    by_cases hk : k = key
    · subst hk
      simp [nameOf, rename, hr, hw]
    · rw [beq_eq_false_iff_ne.2 hk, Bool.and_eq_false_iff, beq_eq_false_iff_ne, beq_eq_false_iff_ne,
        ← not_and_or]
      have hplain : (⟨⟨"", "", k⟩, ""⟩ : Attribute String).name.written ≠ key := by rwa [written_unqualified]
      rw [← name_resolved namespaces k ""]
      exact Attribute.resolved_apart h hplain hr

/-! ### Attributes that are identified by their written names -/

/-- At most one attribute is written like each of the keys, and that is the one that the key finds. -/
structure Identifies (namespaces : NamespaceTable) (keys : List String) (attributes : List (Attribute String)) :
    Prop where
  single : ∀ key ∈ keys, (attributes.map (·.name.written)).count key ≤ 1
  finds : ∀ key ∈ keys, ∀ a ∈ attributes, namespaces.finds key a.name = (a.name.written == key)

namespace Identifies

theorem nil (namespaces : NamespaceTable) (keys : List String) : namespaces.Identifies keys [] :=
  ⟨by simp, by simp⟩

theorem sublist {fewer : List (Attribute String)} (h : namespaces.Identifies keys attributes)
    (hs : List.Sublist fewer attributes) : namespaces.Identifies keys fewer := by
  constructor
  · intro key hk
    exact ((hs.map _).count_le key).trans (h.single key hk)
  · intro key hk b hb
    exact h.finds key hk b (hs.subset hb)

theorem tail (h : namespaces.Identifies keys (a :: attributes)) : namespaces.Identifies keys attributes :=
  h.sublist (List.sublist_cons_self a attributes)

/-- One more name that was not there. -/
theorem count_append_le {names : List String} {new : String} (h : names.count k ≤ 1) (hn : new ∉ names) :
    (names ++ [new]).count k ≤ 1 := by
  rw [List.count_append, List.count_singleton]
  by_cases hk : new = k
  · subst hk
    simp [List.count_eq_zero_of_not_mem hn]
  · simpa [hk] using h

/-- One more attribute. -/
theorem append (h : namespaces.Identifies keys attributes) (hnew : ∀ b ∈ attributes, b.name.written ≠ a.name.written)
    (ha : ∀ key ∈ keys, namespaces.finds key a.name = (a.name.written == key)) :
    namespaces.Identifies keys (attributes ++ [a]) := by
  constructor
  · intro key hk
    rw [List.map_append, List.map_singleton]
    exact count_append_le (h.single key hk) (by simpa using hnew)
  · intro key hk b hb
    rcases List.mem_append.1 hb with hb | hb
    · exact h.finds key hk b hb
    · obtain rfl := List.mem_singleton.1 hb
      exact ha key hk

/-- Writing a value is writing it to the entry with the written name. -/
theorem entries_enter (h : namespaces.Identifies keys attributes) (hk : key ∈ keys) (hne : key ≠ "xmlns")
    (value : String) :
    Attribute.entries (namespaces.enter key (some value) attributes) =
      Keyed.put key value (Attribute.entries attributes) := by
  simp only [enter, if_neg hne]
  induction attributes with
  | nil => simp [replaceOrPush, Attribute.entries, Attribute.entry, Keyed.put, Keyed.alter]
  | cons a rest ih =>
    have hf := h.finds key hk a List.mem_cons_self
    rw [Attribute.entries_cons, Keyed.put, Keyed.alter, replaceOrPush, hf]
    by_cases hw : a.name.written = key
    · have hr : (namespaces.rename key a.name).written = key := by
        apply written_rename
        simp [hf, hw]
      simp [hw, hr]
    · simpa [hw, Keyed.put] using ih h.tail

/-- Removing an attribute is removing the entry with the written name. -/
theorem lookup_erase (h : namespaces.Identifies keys attributes) (hk : key ∈ keys) (hne : key ≠ "xmlns") (k : String) :
    (Attribute.entries (namespaces.enter key none attributes)).lookup k =
      if k = key then none else (Attribute.entries attributes).lookup k := by
  simp only [enter, if_neg hne]
  induction attributes with
  | nil => simp [Attribute.entries]
  | cons a rest ih =>
    have hf := h.finds key hk a List.mem_cons_self
    rw [List.eraseP_cons, hf, Attribute.entries_cons, Keyed.lookup_cons_ite]
    by_cases hw : a.name.written = key
    · have hgone : (Attribute.entries rest).lookup key = none := by
        rw [List.lookup_eq_none_iff]
        intro e he
        obtain ⟨b, hb, rfl⟩ := List.mem_map.1 he
        have hsingle := h.single key hk
        rw [List.map_cons, hw, List.count_cons_self] at hsingle
        have hnot : key ∉ rest.map (·.name.written) := List.count_eq_zero.1 (by omega)
        simp only [Attribute.entry, bne_iff_ne, ne_eq]
        rintro rfl
        exact hnot (List.mem_map.2 ⟨b, hb, rfl⟩)
      by_cases hkk : k = key
      · simp [hw, hkk, hgone]
      · simp [hw, hkk]
    · rw [beq_eq_false_iff_ne.2 hw, cond_false, Attribute.entries_cons, Keyed.lookup_cons_ite, ih h.tail]
      by_cases hkw : k = a.name.written
      · simp [hkw, hw]
      · simp [hkw]

/-- What is read after an entry was written. -/
theorem lookup_enter (h : namespaces.Identifies keys attributes) (hkey : key ∈ keys) (value : Option String)
    (hk : k ≠ "xmlns") :
    (Attribute.entries (namespaces.enter key value attributes)).lookup k =
      if k = key then value else (Attribute.entries attributes).lookup k := by
  by_cases hne : key = "xmlns"
  · have hkk : k ≠ key := by rwa [hne]
    rw [if_neg hkk, NamespaceTable.enter.eq_def, if_pos hne]
  · cases value with
    | none => exact h.lookup_erase hkey hne k
    | some value => rw [h.entries_enter hkey hne, Keyed.lookup_put]

/-- Other keys do not find an attribute under its new name. -/
theorem finds_rename (h : namespaces.Identifies keys attributes) (hs : namespaces.Separates) (hk : k ∈ keys)
    (ha : a ∈ attributes) (key : String) :
    namespaces.finds k (namespaces.rename key a.name) = ((namespaces.rename key a.name).written == k) := by
  cases hr : namespaces.resolve? key with
  | none =>
    have hsame : namespaces.rename key a.name = a.name := by simp [rename, hr]
    rw [hsame]
    exact h.finds k hk a ha
  | some resolved =>
    have hnew : namespaces.rename key a.name = namespaces.nameOf key := by simp [rename, nameOf, hr]
    rw [hnew, hs.finds_nameOf, written_nameOf]

/-- Attributes stay identified when one of the keys is written. -/
theorem enter (h : namespaces.Identifies keys attributes) (hs : namespaces.Separates) (hk : key ∈ keys)
    (value : Option String) : namespaces.Identifies keys (namespaces.enter key value attributes) := by
  by_cases hne : key = "xmlns"
  · simpa [NamespaceTable.enter, hne] using h
  cases value with
  | none =>
    simp only [NamespaceTable.enter.eq_def, if_neg hne]
    exact h.sublist List.eraseP_sublist
  | some value =>
    constructor
    · intro key' hk'
      rw [← Attribute.keys_entries, h.entries_enter hk hne, Keyed.put, Keyed.keys_alter, Attribute.keys_entries]
      split
      · exact h.single key' hk'
      · rename_i hnot
        exact count_append_le (h.single key' hk') hnot
    · intro key' hk' b hb
      simp only [NamespaceTable.enter.eq_def, if_neg hne] at hb
      rcases mem_replaceOrPush hb with rfl | ⟨a, ha, rfl | rfl⟩
      · rw [hs.finds_nameOf, written_nameOf]
      · exact h.finds key' hk' _ ha
      · exact h.finds_rename hs hk' ha key

/-- Attributes stay identified when a prefix is declared, if the keys identify its declaration. -/
theorem declare (h : namespaces.Identifies keys attributes)
    (hd : ∀ key ∈ keys, namespaces.finds key ⟨Uri.xmlns, "xmlns", nsPrefix⟩ = ("xmlns:" ++ nsPrefix == key))
    (uri : String) : namespaces.Identifies keys (declare nsPrefix uri attributes) := by
  unfold NamespaceTable.declare
  split
  · exact h
  · rename_i hnot
    refine h.append ?_ hd
    intro b hb hw
    refine hnot (List.any_eq_true.2 ⟨b, hb, ?_⟩)
    simp [declares, hw]

end Identifies

/-- Declaring a prefix adds at most the entry of its declaration. -/
theorem lookup_declare (nsPrefix uri : String) (attributes : List (Attribute String)) (k : String) :
    (Attribute.entries (declare nsPrefix uri attributes)).lookup k = (Attribute.entries attributes).lookup k ∨
      ((Attribute.entries attributes).lookup k = none ∧ k = "xmlns:" ++ nsPrefix) := by
  unfold declare
  split
  · exact .inl rfl
  · rw [Attribute.entries, List.map_append, List.lookup_append]
    cases hl : (attributes.map Attribute.entry).lookup k with
    | some value => exact .inl (by rw [Attribute.entries, hl, Option.some_or])
    | none =>
      by_cases hk : k = "xmlns:" ++ nsPrefix
      · exact .inr ⟨hl, hk⟩
      · refine .inl ?_
        simp [Attribute.entries, hl, Attribute.entry, Keyed.lookup_cons_ite, hk]

/-- The prefixes that are declared where entries are written. -/
def published (namespaces : NamespaceTable) (entries : List (String × Option String)) : List String :=
  entries.filterMap fun entry => (namespaces.published? entry.1 entry.2).map Prod.fst

/-- Writing one entry leaves attributes that the keys identify. -/
theorem Identifies.step {apex : Bool} (h : namespaces.Identifies keys attributes) (hs : namespaces.Separates)
    (hkey : key ∈ keys) (hd : apex = true → ∀ b, namespaces.published? key value = some b →
      ∀ key ∈ keys, namespaces.finds key ⟨Uri.xmlns, "xmlns", b.1⟩ = ("xmlns:" ++ b.1 == key)) :
    namespaces.Identifies keys (namespaces.step true apex attributes (key, value)) := by
  have henter := h.enter hs hkey value
  cases apex with
  | false => exact henter
  | true =>
    show namespaces.Identifies keys (namespaces.publish key value (namespaces.enter key value attributes))
    unfold publish
    split
    · rename_i p uri hp
      exact henter.declare (hd rfl _ hp) uri
    · exact henter

/-- What is read after one entry was written is its value under its key, except that a declaration may have come. -/
theorem Identifies.lookup_step (h : namespaces.Identifies keys attributes) (apex : Bool) (hkey : key ∈ keys)
    (value : Option String) (hk : k ≠ "xmlns") :
    let former := if k = key then value else (Attribute.entries attributes).lookup k
    let found := (Attribute.entries (namespaces.step true apex attributes (key, value))).lookup k
    found = former ∨ (apex = true ∧ former = none ∧ ∃ b, namespaces.published? key value = some b ∧ k = "xmlns:" ++ b.1) := by
  have henter := h.lookup_enter hkey value hk
  cases apex with
  | false => exact .inl henter
  | true =>
    show (Attribute.entries (namespaces.publish key value (namespaces.enter key value attributes))).lookup k = _ ∨ _
    rw [← henter]
    unfold publish
    split
    · rename_i p uri hp
      rcases lookup_declare p uri (namespaces.enter key value attributes) k with hl | ⟨hl, hkp⟩
      · exact .inl hl
      · exact .inr ⟨rfl, hl, (p, uri), hp, hkp⟩
    · exact .inl rfl

/-- What is read after all entries were written is what was written last, and what was there under other names. -/
theorem Identifies.lookup_settle {entries : List (String × Option String)} {apex : Bool}
    {read : String → Option String} (h : namespaces.Identifies keys attributes) (hs : namespaces.Separates)
    (hkeys : ∀ e ∈ entries, e.1 ∈ keys)
    (hd : apex = true → ∀ p ∈ namespaces.published entries, ∀ key ∈ keys,
      namespaces.finds key ⟨Uri.xmlns, "xmlns", p⟩ = ("xmlns:" ++ p == key))
    (hread : ∀ e ∈ entries, e.2 = read e.1) (hk : k ≠ "xmlns")
    (hnew : apex = true → read k = none → ∀ p ∈ namespaces.published entries, k ≠ "xmlns:" ++ p)
    (hrest : k ∉ entries.map Prod.fst → (Attribute.entries attributes).lookup k = read k) :
    (Attribute.entries (namespaces.settle true apex entries attributes)).lookup k = read k := by
  induction entries generalizing attributes with
  | nil => exact hrest List.not_mem_nil
  | cons e rest ih =>
    obtain ⟨key, value⟩ := e
    have hkey : key ∈ keys := hkeys _ List.mem_cons_self
    have hvalue : value = read key := hread _ List.mem_cons_self
    have hfirst : ∀ b, namespaces.published? key value = some b → b.1 ∈ namespaces.published ((key, value) :: rest) := by
      intro b hb
      simp [published, hb]
    have hlater : ∀ p ∈ namespaces.published rest, p ∈ namespaces.published ((key, value) :: rest) := by
      intro p hp
      rw [published, List.filterMap_cons]
      split
      · exact hp
      · exact List.mem_cons_of_mem _ hp
    have hstep : namespaces.Identifies keys (namespaces.step true apex attributes (key, value)) :=
      h.step hs hkey fun ha b hb => hd ha b.1 (hfirst b hb)
    refine ih hstep (fun e he => hkeys e (List.mem_cons_of_mem _ he)) (fun ha p hp => hd ha p (hlater p hp))
      (fun e he => hread e (List.mem_cons_of_mem _ he)) (fun ha hn p hp => hnew ha hn p (hlater p hp)) ?_
    intro hnot
    -- the entry just written, or else what was read before
    have hformer : (if k = key then value else (Attribute.entries attributes).lookup k) = read k := by
      split
      · rename_i he
        rw [hvalue, he]
      · rename_i he
        apply hrest
        simpa [he] using hnot
    rcases h.lookup_step apex hkey value hk with hl | ⟨ha, hl, b, hb, hkb⟩
    · exact hl.trans hformer
    · exact absurd hkb (hnew ha (hformer ▸ hl) b.1 (hfirst b hb))

/-! ### Declarations -/

/-- One of the attributes declares the prefix. -/
def Declared (nsPrefix : String) (attributes : List (Attribute String)) : Prop :=
  ∃ a ∈ attributes, declares nsPrefix a.name = true

theorem declared_declare (nsPrefix uri : String) (attributes : List (Attribute String)) :
    Declared nsPrefix (declare nsPrefix uri attributes) := by
  unfold declare
  split
  · rename_i h
    exact List.any_eq_true.1 h
  · exact ⟨.declaration nsPrefix uri, by simp, by simp [declares, Attribute.declaration]⟩

/-- Declaring prefixes takes no attribute away. -/
theorem mem_publish (h : a ∈ attributes) (key : String) (value : Option String) :
    a ∈ namespaces.publish key value attributes := by
  unfold publish declare
  split
  · split
    · exact h
    · exact List.mem_append_left _ h
  · exact h

theorem Declared.publish (h : Declared nsPrefix attributes) (key : String) (value : Option String) :
    Declared nsPrefix (namespaces.publish key value attributes) := by
  obtain ⟨a, ha, hd⟩ := h
  exact ⟨a, mem_publish ha key value, hd⟩

theorem declared_step (hp : namespaces.published? key value = some (nsPrefix, uri)) (target : Bool)
    (attributes : List (Attribute String)) :
    Declared nsPrefix (namespaces.step target true attributes (key, value)) := by
  simp only [step, publish, hp, if_true]
  exact declared_declare nsPrefix uri _

/-- A node that is not the one that is written to keeps its declarations. -/
theorem Declared.settle (h : Declared nsPrefix attributes) (apex : Bool) (entries : List (String × Option String)) :
    Declared nsPrefix (namespaces.settle false apex entries attributes) := by
  induction entries generalizing attributes with
  | nil => exact h
  | cons e rest ih =>
    apply ih
    cases apex with
    | false => exact h
    | true => exact h.publish e.1 e.2

/-- The names that attributes can have after some of the entries were written: those they had before, those under
which the entries store a value, and those of declarations. -/
def Occurs (namespaces : NamespaceTable) (entries : List (String × Option String))
    (attributes : List (Attribute String)) (name : Name) : Prop :=
  (∃ a ∈ attributes, a.name = name) ∨ (∃ key value, (key, some value) ∈ entries ∧ name = namespaces.nameOf key) ∨
    ∃ p, name = ⟨Uri.xmlns, "xmlns", p⟩

/-- Writing the entry neither removes a declaration of the prefix nor gives it a name under which it is none. -/
def Spares (namespaces : NamespaceTable) (nsPrefix : String) (names : Name → Prop) (entry : String × Option String) :
    Prop :=
  entry.1 ≠ "xmlns" → ∀ name, names name → declares nsPrefix name = true → namespaces.finds entry.1 name = true →
    entry.2.isSome = true ∧ declares nsPrefix (namespaces.rename entry.1 name) = true

variable {entries : List (String × Option String)} {initial : List (Attribute String)}

/-- No other names come up. -/
theorem occurs_step (he : (key, value) ∈ entries) (h : ∀ a ∈ attributes, namespaces.Occurs entries initial a.name)
    (apex : Bool) : ∀ a ∈ namespaces.step true apex attributes (key, value), namespaces.Occurs entries initial a.name := by
  have henter : ∀ a ∈ namespaces.enter key value attributes, namespaces.Occurs entries initial a.name := by
    intro a ha
    unfold enter at ha
    split at ha
    · exact h a ha
    · cases value with
      | none => exact h a (List.mem_of_mem_eraseP ha)
      | some value =>
        have hnew : namespaces.Occurs entries initial (namespaces.nameOf key) := .inr (.inl ⟨key, value, he, rfl⟩)
        rcases mem_replaceOrPush ha with rfl | ⟨b, hb, rfl | rfl⟩
        · exact hnew
        · exact h _ hb
        · dsimp only
          rw [rename]
          split
          · rename_i hr
            rwa [nameOf, rename, hr] at hnew
          · exact h b hb
  intro a ha
  cases apex with
  | false => exact henter a ha
  | true =>
    have hp : a ∈ namespaces.publish key value (namespaces.enter key value attributes) := ha
    unfold publish declare at hp
    split at hp
    · split at hp
      · exact henter a hp
      · rcases List.mem_append.1 hp with hp | hp
        · exact henter a hp
        · obtain rfl := List.mem_singleton.1 hp
          exact .inr (.inr ⟨_, rfl⟩)
    · exact henter a hp

theorem mem_replaceOrPush_of_mem {α : Type} {p : α → Bool} {f : α → α} {x : α} {l : List α} (h : x ∈ l) (new : α) :
    x ∈ replaceOrPush p f new l ∨ (p x = true ∧ f x ∈ replaceOrPush p f new l) := by
  induction l with
  | nil => exact absurd h List.not_mem_nil
  | cons y rest ih =>
    rw [replaceOrPush]
    by_cases hy : p y = true
    · rw [if_pos hy]
      rcases List.mem_cons.1 h with rfl | h
      · exact .inr ⟨hy, List.mem_cons_self⟩
      · exact .inl (List.mem_cons_of_mem _ h)
    · rw [if_neg hy]
      rcases List.mem_cons.1 h with rfl | h
      · exact .inl List.mem_cons_self
      · rcases ih h with h | ⟨hp, h⟩
        · exact .inl (List.mem_cons_of_mem _ h)
        · exact .inr ⟨hp, List.mem_cons_of_mem _ h⟩

/-- An entry that spares the declarations of a prefix leaves one where there was one. -/
theorem Declared.step {names : Name → Prop} (h : Declared nsPrefix attributes) (hn : ∀ a ∈ attributes, names a.name)
    (hs : namespaces.Spares nsPrefix names (key, value)) (apex : Bool) :
    Declared nsPrefix (namespaces.step true apex attributes (key, value)) := by
  have henter : Declared nsPrefix (namespaces.enter key value attributes) := by
    obtain ⟨a, ha, hd⟩ := h
    unfold enter
    split
    · exact ⟨a, ha, hd⟩
    · rename_i hne
      by_cases hf : namespaces.finds key a.name = true
      · obtain ⟨hv, hr⟩ := hs hne _ (hn a ha) hd hf
        obtain ⟨value, rfl⟩ := Option.isSome_iff_exists.1 hv
        rcases mem_replaceOrPush_of_mem ha _ with hm | ⟨-, hm⟩
        · exact ⟨a, hm, hd⟩
        · exact ⟨_, hm, hr⟩
      · cases value with
        | none =>
          have hm := (List.mem_eraseP_of_neg (p := fun a : Attribute String => namespaces.finds key a.name) hf).2 ha
          exact ⟨a, hm, hd⟩
        | some value =>
          rcases mem_replaceOrPush_of_mem ha _ with hm | ⟨hp, -⟩
          · exact ⟨a, hm, hd⟩
          · exact absurd hp hf
  cases apex with
  | false => exact henter
  | true => exact henter.publish key value

theorem settle_append (target apex : Bool) (before after : List (String × Option String))
    (attributes : List (Attribute String)) :
    namespaces.settle target apex (before ++ after) attributes =
      namespaces.settle target apex after (namespaces.settle target apex before attributes) :=
  List.foldl_append

/-- The document element declares the prefix of a value that is written to another node. -/
theorem declared_elsewhere {before after : List (String × Option String)}
    (hp : namespaces.published? key value = some (nsPrefix, uri)) (attributes : List (Attribute String)) :
    Declared nsPrefix (namespaces.settle false true (before ++ (key, value) :: after) attributes) := by
  rw [settle_append]
  exact (declared_step hp false _).settle true after

theorem occurs_settle (part : List (String × Option String)) (hp : ∀ e ∈ part, e ∈ entries)
    (h : ∀ a ∈ attributes, namespaces.Occurs entries initial a.name) (apex : Bool) :
    ∀ a ∈ namespaces.settle true apex part attributes, namespaces.Occurs entries initial a.name := by
  induction part generalizing attributes with
  | nil => exact h
  | cons e rest ih =>
    apply ih
    · intro e' he
      exact hp e' (List.mem_cons_of_mem _ he)
    · exact occurs_step (hp e List.mem_cons_self) h apex

/-- Entries that spare the declarations of a prefix leave one where there was one. -/
theorem Declared.settle_spared (hd : Declared nsPrefix attributes) (part : List (String × Option String))
    (hp : ∀ e ∈ part, e ∈ entries) (h : ∀ a ∈ attributes, namespaces.Occurs entries initial a.name)
    (hs : ∀ e ∈ part, namespaces.Spares nsPrefix (namespaces.Occurs entries initial) e) (apex : Bool) :
    Declared nsPrefix (namespaces.settle true apex part attributes) := by
  induction part generalizing attributes with
  | nil => exact hd
  | cons e rest ih =>
    apply ih
    · exact hd.step h (hs e List.mem_cons_self) apex
    · intro e' he
      exact hp e' (List.mem_cons_of_mem _ he)
    · exact occurs_step (hp e List.mem_cons_self) h apex
    · intro e' he
      exact hs e' (List.mem_cons_of_mem _ he)

/-- The document element declares the prefix of a value that is written to it, if what is written afterwards spares
the declaration. -/
theorem declared_there {before after : List (String × Option String)}
    (hp : namespaces.published? key value = some (nsPrefix, uri))
    (hs : ∀ e ∈ after, namespaces.Spares nsPrefix
      (namespaces.Occurs (before ++ (key, value) :: after) attributes) e) :
    Declared nsPrefix (namespaces.settle true true (before ++ (key, value) :: after) attributes) := by
  have hinitial : ∀ a ∈ attributes, namespaces.Occurs (before ++ (key, value) :: after) attributes a.name :=
    fun a ha => .inl ⟨a, ha, rfl⟩
  have hbefore := occurs_settle before (fun e he => List.mem_append_left _ he) hinitial true
  have hmem : (key, value) ∈ before ++ (key, value) :: after := by simp
  rw [settle_append]
  refine (declared_step hp true _).settle_spared after ?_ (occurs_step hmem hbefore true) hs true
  intro e he
  simp [he]

end NamespaceTable

end RichText
