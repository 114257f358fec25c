/-!
Ordered tables: lists of key and value in the order in which the keys first came.

Core's `List.lookup` reads them. Writing to a key that is present keeps its place.
-/

namespace RichText.Keyed

variable {κ α : Type} [DecidableEq κ]

/-- Writes `f` of the present value of `key`; a new key goes to the end. -/
def alter (key : κ) (f : Option α → α) : List (κ × α) → List (κ × α)
  | [] => [(key, f none)]
  | (k, v) :: rest => if k = key then (k, f (some v)) :: rest else (k, v) :: alter key f rest

/-- Writes a value to a key. -/
def put (key : κ) (value : α) (entries : List (κ × α)) : List (κ × α) :=
  alter key (fun _ => value) entries

theorem lookup_cons_ite (k key : κ) (v : α) (rest : List (κ × α)) :
    ((key, v) :: rest).lookup k = if k = key then some v else rest.lookup k := by
  rw [List.lookup_cons]
  by_cases h : k = key
  · simp [h]
  · simp [h, beq_eq_false_iff_ne.2 h]

theorem lookup_alter (key k : κ) (f : Option α → α) (entries : List (κ × α)) :
    (alter key f entries).lookup k =
      if k = key then some (f (entries.lookup key)) else entries.lookup k := by
  induction entries with
  | nil => simp [alter, lookup_cons_ite]
  | cons e rest ih =>
    obtain ⟨k', v⟩ := e
    simp only [alter]
    split <;> grind [lookup_cons_ite]

theorem lookup_put (key k : κ) (value : α) (entries : List (κ × α)) :
    (put key value entries).lookup k = if k = key then some value else entries.lookup k :=
  lookup_alter key k _ entries

theorem keys_alter (key : κ) (f : Option α → α) (entries : List (κ × α)) :
    (alter key f entries).map Prod.fst =
      if key ∈ entries.map Prod.fst then entries.map Prod.fst else entries.map Prod.fst ++ [key] := by
  induction entries with
  | nil => simp [alter]
  | cons e rest ih =>
    obtain ⟨k, v⟩ := e
    by_cases h : k = key
    · simp [alter, h]
    · have h' : ¬ key = k := fun hc => h hc.symm
      simp only [alter, h, if_false, List.map_cons, List.mem_cons, h', false_or, ih]
      split <;> simp

/-- Where no key comes twice, reading a table finds exactly its entries. -/
theorem lookup_eq_some_iff {entries : List (κ × α)} (h : (entries.map Prod.fst).Nodup) {key : κ} {value : α} :
    entries.lookup key = some value ↔ (key, value) ∈ entries := by
  induction entries with
  | nil => simp
  | cons e rest ih =>
    obtain ⟨k, v⟩ := e
    obtain ⟨hk, hrest⟩ := List.nodup_cons.1 h
    rw [lookup_cons_ite, List.mem_cons, Prod.mk.injEq]
    split
    · rename_i he
      subst he
      have hnot : (key, value) ∉ rest := fun hm => hk (List.mem_map.2 ⟨_, hm, rfl⟩)
      simp [hnot, eq_comm]
    · rename_i he
      simp [he, ih hrest]

end RichText.Keyed
