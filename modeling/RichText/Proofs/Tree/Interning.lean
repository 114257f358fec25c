import RichText.Proofs.Pass.Invariant

/-!
Numbers that stand for strings.

Strings get their numbers one after another. Since no string is stored twice, what is found for a string and what a
number stands for are inverse to each other after any sequence of calls, so that comparing numbers is comparing
strings.

A table is searched from its start. An `Interner` has a hash map besides, which finds the same numbers as long as these
fit into 32 bits.
-/

namespace RichText

/-! ### Storing one string -/

namespace SymbolTable

variable {table : SymbolTable} {s u : String} {a : Symbol}

/-- Finding and resolving are inverse to each other. -/
theorem Distinct.find?_iff (h : table.Distinct) : table.find? s = some a ↔ a < table.size ∧ table.resolve a = s :=
  ⟨find?_spec, fun ha => (h.find?_eq_some_iff ha.1).2 ha.2⟩

/-- A stored string is found at its symbol, and all other strings are found as before. -/
theorem Distinct.find?_intern (h : table.Distinct) (s u : String) :
    (table.intern s).2.find? u = if u = s then some (table.intern s).1 else table.find? u := by
  obtain ⟨-, hlt, hresolve⟩ := table.intern_spec s
  have hd := h.intern s
  split
  · rename_i hu
    exact (hd.find?_eq_some_iff hlt).2 (hresolve.trans hu.symm)
  · rename_i hu
    cases hf : table.find? s with
    | some a => simp only [SymbolTable.intern, hf]
    | none =>
      -- the new string has the last symbol, and all others resolve as before
      have hsize : (table.intern s).2.size = table.size + 1 := by simp [SymbolTable.intern, hf, size]
      have hlast : (table.intern s).1 = table.size := by simp [SymbolTable.intern, hf, size]
      have hx := (table.intern_spec s).1
      refine Option.ext fun a => ?_
      rw [hd.find?_iff, h.find?_iff, hsize]
      constructor
      · rintro ⟨ha, hr⟩
        have hne : a ≠ table.size := fun he => hu (hr.symm.trans ((he.trans hlast.symm) ▸ hresolve))
        have ha' : a < table.size := Nat.lt_of_le_of_ne (Nat.le_of_lt_succ ha) hne
        exact ⟨ha', (hx.resolve ha').symm.trans hr⟩
      · rintro ⟨ha, hr⟩
        exact ⟨Nat.lt_succ_of_lt ha, (hx.resolve ha).trans hr⟩

/-! ### Storing strings one after another -/

/-- Stores strings one after another, and gives their symbols. -/
def internAll (table : SymbolTable) : List String → List Symbol × SymbolTable
  | [] => ([], table)
  | s :: rest =>
    let (symbol, table) := table.intern s
    let (symbols, table) := table.internAll rest
    (symbol :: symbols, table)

theorem extends_internAll (table : SymbolTable) (ss : List String) : table.Extends (table.internAll ss).2 := by
  induction ss generalizing table with
  | nil => exact .refl table
  | cons s rest ih => exact (table.intern_spec s).1.trans (ih _)

theorem Sound.internAll (h : table.Sound) (ss : List String) : (table.internAll ss).2.Sound := by
  induction ss generalizing table with
  | nil => exact h
  | cons s rest ih => exact ih (h.intern s)

theorem length_internAll (table : SymbolTable) (ss : List String) : (table.internAll ss).1.length = ss.length := by
  induction ss generalizing table with
  | nil => rfl
  | cons s rest ih => exact congrArg Nat.succ (ih _)

/-- Every string resolves from the symbol that it got, whatever was stored after it. -/
theorem resolve_internAll (table : SymbolTable) (ss : List String) {p : String × Symbol}
    (hp : p ∈ ss.zip (table.internAll ss).1) :
    p.2 < (table.internAll ss).2.size ∧ (table.internAll ss).2.resolve p.2 = p.1 := by
  induction ss generalizing table with
  | nil => cases hp
  | cons s rest ih =>
    rcases List.mem_cons.1 hp with rfl | hp
    · obtain ⟨-, hlt, hresolve⟩ := table.intern_spec s
      have hx := extends_internAll (table.intern s).2 rest
      exact ⟨hlt.trans_le hx.size_le, (hx.resolve hlt).trans hresolve⟩
    · exact ih _ hp

/-- The strings that are found are those that were found before and those that were stored. -/
theorem Distinct.isSome_find?_internAll (h : table.Distinct) (ss : List String) (u : String) :
    ((table.internAll ss).2.find? u).isSome ↔ (table.find? u).isSome ∨ u ∈ ss := by
  induction ss generalizing table with
  | nil => simp [SymbolTable.internAll]
  | cons s rest ih =>
    refine (ih (h.intern s)).trans ?_
    rw [h.find?_intern]
    by_cases hu : u = s <;> simp [hu]

theorem isSome_find?_initial (u : String) : (initial.find? u).isSome ↔ u ∈ commonStrings := by
  rw [find?, Array.isSome_idxOf?]
  exact List.mem_toArray

end SymbolTable

/-! ### What is asked of numbers -/

/-- Every string of `ss` got the number of `ids` at its place, where `lookup` finds the numbers of strings, and `get`
gives the strings of the numbers that are `known`. -/
structure Numbering {ι : Type} (blank : ι) (known : ι → Prop) (lookup : String → Option ι) (get : ι → String)
    (ss : List String) (ids : List ι) : Prop where
  length : ids.length = ss.length
  /-- Strings have the same number exactly when they are equal. -/
  same : ∀ p ∈ ss.zip ids, ∀ q ∈ ss.zip ids, p.2 = q.2 ↔ p.1 = q.1
  resolves : ∀ p ∈ ss.zip ids, get p.2 = p.1
  found : ∀ p ∈ ss.zip ids, lookup p.1 = some p.2
  /-- Only the common strings and those of `ss` have numbers. -/
  stored : ∀ s, (lookup s).isSome ↔ s ∈ SymbolTable.commonStrings ∨ s ∈ ss
  inverse : ∀ s id, lookup s = some id ↔ known id ∧ get id = s
  empty : ∀ s, lookup s = some blank ↔ s = ""

namespace SymbolTable

variable {table : SymbolTable}

theorem numbering_initial (ss : List String) :
    Numbering 0 (· < (initial.internAll ss).2.size) (initial.internAll ss).2.find? (initial.internAll ss).2.resolve ss
      (initial.internAll ss).1 := by
  have hsound := sound_initial.internAll ss
  have hfound : ∀ p ∈ ss.zip (initial.internAll ss).1, (initial.internAll ss).2.find? p.1 = some p.2 := fun p hp =>
    hsound.distinct.find?_iff.2 (initial.resolve_internAll ss hp)
  have hresolves : ∀ p ∈ ss.zip (initial.internAll ss).1, (initial.internAll ss).2.resolve p.2 = p.1 := fun p hp =>
    (initial.resolve_internAll ss hp).2
  refine ⟨initial.length_internAll ss, fun p hp q hq => ⟨fun he => ?_, fun he => ?_⟩, hresolves, hfound, fun s => ?_,
    fun s a => hsound.distinct.find?_iff, fun s => ?_⟩
  · rw [← hresolves p hp, he, hresolves q hq]
  · have hboth := (hfound p hp).symm.trans (he ▸ hfound q hq)
    exact Option.some.inj hboth
  · rw [sound_initial.distinct.isSome_find?_internAll, isSome_find?_initial]
  · rw [hsound.distinct.find?_eq_some_iff hsound.zero_lt, hsound.resolve_zero, eq_comm]

end SymbolTable

/-! ### Tables with a hash map -/

/-- Stored strings in order of their numbers, and the number of each of them in 32 bits. -/
structure Interner where
  strings : Array String
  index : Std.HashMap String UInt32

namespace Interner

/-- The number of a string, if it is stored. -/
def lookup (i : Interner) (s : String) : Option UInt32 := i.index[s]?

/-- The string of a number; an unknown number stands for the empty string. -/
def get (i : Interner) (id : UInt32) : String := i.strings.getD id.toNat ""

/-- The number of a string, which is stored at the end if it is new. -/
def intern (i : Interner) (s : String) : UInt32 × Interner :=
  match i.lookup s with
  | some id => (id, i)
  | none =>
    let id := UInt32.ofNat i.strings.size
    (id, ⟨i.strings.push s, i.index.insert s id⟩)

/-- Stores strings one after another, and gives their numbers. -/
def internAll (i : Interner) : List String → List UInt32 × Interner
  | [] => ([], i)
  | s :: rest =>
    let (id, i) := i.intern s
    let (ids, i) := i.internAll rest
    (id :: ids, i)

/-- An interner that stores the common strings. -/
def fresh : Interner := (internAll ⟨#[], ∅⟩ SymbolTable.commonStrings).2

/-- The strings are those of the table, and the map finds what a search of the table finds. -/
structure Mirrors (i : Interner) (table : SymbolTable) : Prop where
  strings : i.strings = table.strings
  lookup : ∀ s, i.lookup s = (table.find? s).map UInt32.ofNat
  distinct : table.Distinct

variable {i : Interner} {table : SymbolTable}

/-- Storing a string keeps the vector and the map in step. -/
theorem Mirrors.intern (h : Mirrors i table) (s : String) :
    (i.intern s).1 = UInt32.ofNat (table.intern s).1 ∧ Mirrors (i.intern s).2 (table.intern s).2 := by
  have hd := h.distinct.intern s
  have hfind := h.distinct.find?_intern s
  cases hf : table.find? s with
  | some a =>
    have hi : i.intern s = (UInt32.ofNat a, i) := by simp only [Interner.intern, h.lookup s, hf, Option.map_some]
    have ht : table.intern s = (a, table) := by simp only [SymbolTable.intern, hf]
    rw [hi, ht]
    exact ⟨rfl, h⟩
  | none =>
    have hi : i.intern s = (UInt32.ofNat i.strings.size,
        ⟨i.strings.push s, i.index.insert s (UInt32.ofNat i.strings.size)⟩) := by
      simp only [Interner.intern, h.lookup s, hf, Option.map_none]
    have ht : table.intern s = (table.strings.size, ⟨table.strings.push s⟩) := by simp only [SymbolTable.intern, hf]
    rw [ht] at hd hfind
    rw [hi, ht, h.strings]
    refine ⟨rfl, rfl, fun u => ?_, hd⟩
    rw [hfind, Interner.lookup, Std.HashMap.getElem?_insert]
    by_cases hu : u = s
    · simp [hu]
    · rw [if_neg (by simpa using Ne.symm hu), if_neg hu]
      exact h.lookup u

theorem Mirrors.internAll (h : Mirrors i table) (ss : List String) :
    (i.internAll ss).1 = (table.internAll ss).1.map UInt32.ofNat ∧
      Mirrors (i.internAll ss).2 (table.internAll ss).2 := by
  induction ss generalizing i table with
  | nil => exact ⟨rfl, h⟩
  | cons s rest ih =>
    obtain ⟨hid, hs⟩ := h.intern s
    obtain ⟨hids, hrest⟩ := ih hs
    refine ⟨?_, hrest⟩
    rw [Interner.internAll, SymbolTable.internAll, List.map_cons]
    exact congrArg₂ List.cons hid hids

theorem mirrors_fresh : Mirrors fresh .initial := by
  have hempty : Mirrors ⟨#[], ∅⟩ ⟨#[]⟩ := by
    refine ⟨rfl, fun s => ?_, List.nodup_nil⟩
    simp [lookup, SymbolTable.find?]
  have hcommon : (SymbolTable.internAll ⟨#[]⟩ SymbolTable.commonStrings).2 = .initial := by decide +kernel
  exact hcommon ▸ (hempty.internAll SymbolTable.commonStrings).2

/-- A number stands for the string that it stands for in the table. -/
theorem Mirrors.get (h : Mirrors i table) (id : UInt32) : i.get id = table.resolve id.toNat := by
  rw [Interner.get, h.strings]
  rfl

theorem Mirrors.size (h : Mirrors i table) : table.size = i.strings.size := congrArg Array.size h.strings.symm

/-- Storing more strings changes no string that a number stands for. -/
theorem Mirrors.get_internAll (h : Mirrors i table) (more : List String) {id : UInt32}
    (hid : id.toNat < i.strings.size) : (i.internAll more).2.get id = i.get id := by
  rw [(h.internAll more).2.get, h.get, (table.extends_internAll more).resolve (h.size ▸ hid)]

/-- As long as they fit into 32 bits, numbers answer as symbols do. -/
theorem Mirrors.numbering (h : Mirrors i table) (hb : i.strings.size < 2 ^ 32) {ss : List String}
    {symbols : List Symbol} (hn : Numbering 0 (· < table.size) table.find? table.resolve ss symbols) :
    Numbering 0 (·.toNat < i.strings.size) i.lookup i.get ss (symbols.map UInt32.ofNat) := by
  have hfits : ∀ {a}, a < table.size → (UInt32.ofNat a).toNat = a := fun ha =>
    UInt32.toNat_ofNat_of_lt' (ha.trans (h.size ▸ hb))
  have hinj : ∀ {a b}, a < table.size → b < table.size → UInt32.ofNat a = UInt32.ofNat b → a = b := fun ha hb he => by
    rw [← hfits ha, he, hfits hb]
  have hzip : ∀ p ∈ ss.zip (symbols.map UInt32.ofNat), ∃ q ∈ ss.zip symbols,
      q.2 < table.size ∧ p = (q.1, UInt32.ofNat q.2) := by
    intro p hp
    rw [List.zip_map_right] at hp
    obtain ⟨q, hq, rfl⟩ := List.mem_map.1 hp
    exact ⟨q, hq, (SymbolTable.find?_spec (hn.found q hq)).1, rfl⟩
  refine ⟨(List.length_map _).trans hn.length, fun p hp q hq => ?_, fun p hp => ?_, fun p hp => ?_, fun s => ?_,
    fun s id => ?_, fun s => ?_⟩
  · obtain ⟨p', hp', hpt, rfl⟩ := hzip p hp
    obtain ⟨q', hq', hqt, rfl⟩ := hzip q hq
    exact ⟨fun he => (hn.same p' hp' q' hq').1 (hinj hpt hqt he),
      fun he => congrArg UInt32.ofNat ((hn.same p' hp' q' hq').2 he)⟩
  · obtain ⟨p', hp', hpt, rfl⟩ := hzip p hp
    rw [h.get, hfits hpt, hn.resolves p' hp']
  · obtain ⟨p', hp', -, rfl⟩ := hzip p hp
    rw [h.lookup, hn.found p' hp']
    rfl
  · rw [h.lookup, Option.isSome_map, hn.stored]
  · rw [h.lookup, h.get, Option.map_eq_some_iff, ← h.size]
    constructor
    · rintro ⟨a, ha, rfl⟩
      obtain ⟨hlt, hr⟩ := (hn.inverse s a).1 ha
      exact (hfits hlt).symm ▸ ⟨hlt, hr⟩
    · exact fun hid => ⟨id.toNat, (hn.inverse s id.toNat).2 hid, UInt32.ofNat_toNat⟩
  · rw [h.lookup, ← hn.empty, Option.map_eq_some_iff]
    constructor
    · rintro ⟨a, ha, he⟩
      obtain rfl : a = 0 := by rw [← hfits (SymbolTable.find?_spec ha).1, he]; rfl
      exact ha
    · exact fun ha => ⟨0, ha, rfl⟩

end Interner

end RichText
