import RichText.Proofs.Proxy.Classes

/-!
Reading through the buffer of an element proxy.

The buffer lies over the attributes of the live element. A key that was written reads as the last write left it, and
any other key as the element has it; the names of the attributes are those of the live element, and after them those
that the buffer adds. The buffer keeps each key at the place of its first write, so that it can be computed from the
calls alone: from the last call on each key, and from the order in which the keys first came.
-/

namespace RichText

/-! ### Tables that are written one entry after another -/

namespace Keyed

variable {κ α : Type} [DecidableEq κ] {key : κ} {value : α} {entries table : List (κ × α)}

/-- Writes entries one after another. -/
def putAll (entries table : List (κ × α)) : List (κ × α) :=
  entries.foldl (fun table entry => put entry.1 entry.2 table) table

theorem putAll_append (entries more table : List (κ × α)) :
    putAll (entries ++ more) table = putAll more (putAll entries table) := List.foldl_append

/-- The last entry with a key is the one that is read. -/
theorem lookup_putAll (key : κ) (entries table : List (κ × α)) :
    (putAll entries table).lookup key = (entries.reverse.lookup key).or (table.lookup key) := by
  induction entries generalizing table with
  | nil => rfl
  | cons entry rest ih =>
    rw [putAll, List.foldl_cons, ← putAll, ih, lookup_put, List.reverse_cons, List.lookup_append, Option.or_assoc,
      lookup_cons_ite]
    split <;> rfl

/-- Keys keep the place of their first entry. -/
theorem keys_putAll (entries table : List (κ × α)) :
    (putAll entries table).map Prod.fst =
      table.map Prod.fst ++ ((entries.map Prod.fst).filter fun key => key ∉ table.map Prod.fst).eraseDups := by
  rw [← Distinct.foldl_add]
  induction entries generalizing table with
  | nil => rfl
  | cons entry rest ih => rw [putAll, List.foldl_cons, ← putAll, ih, put, keys_alter, List.map_cons, List.foldl_cons]

theorem put_of_not_mem (h : key ∉ table.map Prod.fst) (value : α) : put key value table = table ++ [(key, value)] := by
  induction table with
  | nil => rfl
  | cons entry rest ih =>
    rw [List.map_cons, List.mem_cons, not_or] at h
    rw [put, alter, if_neg (Ne.symm h.1), ← put, ih h.2, List.cons_append]

/-- Entries with distinct new keys are added as they are. -/
theorem putAll_of_nodup (h : ((table ++ entries).map Prod.fst).Nodup) : putAll entries table = table ++ entries := by
  induction entries generalizing table with
  | nil => rw [List.append_nil, putAll, List.foldl_nil]
  | cons entry rest ih =>
    have hnot : entry.1 ∉ table.map Prod.fst := by
      rw [List.map_append, List.map_cons] at h
      exact fun hm => (List.nodup_append.1 h).2.2 _ hm _ List.mem_cons_self rfl
    have hnext : ((table ++ [entry]) ++ rest).map Prod.fst = (table ++ entry :: rest).map Prod.fst := by simp
    rw [putAll, List.foldl_cons, ← putAll, put_of_not_mem hnot, ih (hnext ▸ h), List.append_assoc, List.singleton_append]

/-- Writing what is there already changes nothing. -/
theorem put_of_lookup (h : table.lookup key = some value) : put key value table = table := by
  induction table with
  | nil => cases h
  | cons entry rest ih =>
    rw [lookup_cons_ite] at h
    rw [put, alter]
    by_cases hk : key = entry.1
    · rw [if_pos hk] at h
      cases h
      rw [if_pos hk.symm]
    · rw [if_neg hk] at h
      rw [if_neg (Ne.symm hk), ← put, ih h]

theorem putAll_of_lookup (h : ∀ entry ∈ entries, table.lookup entry.1 = some entry.2) : putAll entries table = table := by
  induction entries with
  | nil => rfl
  | cons entry rest ih =>
    rw [putAll, List.foldl_cons, ← putAll, put_of_lookup (h entry List.mem_cons_self)]
    exact ih fun e he => h e (List.mem_cons_of_mem _ he)

end Keyed

namespace ElementProxy

open Effects

variable {p : ElementProxy} {names : List String} {entries calls : List (String × Option String)}

/-! ### Calls -/

/-- One call: it sets an attribute to a value, or deletes it where there is no value. -/
def write : String × Option String → ProxyM ElementProxy Unit
  | (key, some value) => setAttribute key value
  | (key, none) => deleteAttribute key

/-- What the last call on a key gave it, `none` being a deletion; there may be no call on the key. -/
def lastCall? (calls : List (String × Option String)) (key : String) : Option (Option String) :=
  calls.reverse.lookup key

theorem deleteAttribute_ok (hm : p.isMutable = true) (key : String) :
    deleteAttribute key p = (.ok (), { p with overrides := Keyed.put key none p.overrides }) := by
  rw [deleteAttribute, bind_ok (onNode_ok (NodeProxy.requireMutable_ok hm _))]
  rfl

theorem write_ok (hm : p.isMutable = true) (call : String × Option String) :
    write call p = (.ok (), { p with overrides := Keyed.put call.1 call.2 p.overrides }) := by
  obtain ⟨key, _ | value⟩ := call
  · exact deleteAttribute_ok hm key
  · exact setAttribute_ok hm key value

theorem writes_ok (hm : p.isMutable = true) (calls : List (String × Option String)) :
    calls.forM write p = (.ok (), { p with overrides := Keyed.putAll calls p.overrides }) := by
  induction calls generalizing p with
  | nil => rfl
  | cons call rest ih =>
    rw [List.forM, bind_ok (write_ok hm call)]
    exact ih hm

/-! ### Reading -/

/-- A key that was written is read as the last call left it, and any other key as before. -/
theorem attribute?_putAll (p : ElementProxy) (calls : List (String × Option String)) (key : String) :
    attribute? { p with overrides := Keyed.putAll calls p.overrides } key =
      (lastCall? calls key).getD (p.attribute? key) := by
  rw [attribute?, Keyed.lookup_putAll, ← lastCall?]
  cases lastCall? calls key <;> rfl

/-- The names that a buffer adds come after the others. -/
theorem addNew_eq (h : (entries.map Prod.fst).Nodup) :
    addNew names entries = names ++ (entries.filter fun e => e.2.isSome && e.1 ∉ names).map Prod.fst := by
  induction entries generalizing names with
  | nil => simp [addNew]
  | cons entry rest ih =>
    obtain ⟨key, value⟩ := entry
    obtain ⟨hnot, hrest⟩ := List.nodup_cons.1 h
    rw [addNew, ih hrest, List.filter_cons]
    by_cases hnew : (value.isSome && key ∉ names) = true
    · -- no later entry has this key, so that it does not matter to them that it was added
      have hlater : (rest.filter fun e => e.2.isSome && e.1 ∉ names ++ [key]) =
          rest.filter fun e => e.2.isSome && e.1 ∉ names := by
        refine List.filter_congr fun e he => ?_
        have hne : e.1 ≠ key := fun hk => hnot (List.mem_map.2 ⟨e, he, hk⟩)
        simp [hne]
      rw [if_pos hnew, if_pos hnew, hlater, List.map_cons, List.append_assoc, List.singleton_append]
    · rw [if_neg hnew, if_neg hnew]

/-- The names of the attributes: live ones that are not deleted, then the other keys of the buffer that have a value. -/
theorem Tidy.attributeNames_eq (h : p.Tidy) :
    p.attributeNames =
      ((p.tree.attributeNames p.delegate).filter fun key => p.overrides.lookup key ≠ some none) ++
        (p.overrides.map Prod.fst).filter fun key =>
          key ∉ p.tree.attributeNames p.delegate ∧ (p.overrides.lookup key).join.isSome = true := by
  rw [attributeNames, addNew_eq h, List.filter_map]
  refine congrArg _ (congrArg _ (List.filter_congr fun e he => ?_))
  have hread : p.overrides.lookup e.1 = some e.2 := (Keyed.lookup_eq_some_iff h).2 he
  cases hvalue : e.2 <;> simp [hread, hvalue]

theorem Tidy.hasAttribute_iff (h : p.Tidy) (key : String) : p.hasAttribute key = true ↔ key ∈ p.attributeNames :=
  ⟨mem_attributeNames_of_isSome, h.isSome_of_mem⟩

/-- `q` reads as `p` does after calls that began with an empty buffer, and but for its buffer it is `p`. -/
structure Overlaid (p : ElementProxy) (calls : List (String × Option String)) (q : ElementProxy) : Prop where
  /-- A key on which there was a call reads as the last one left it, and any other key as that of the live element. -/
  reads : ∀ key, q.attribute? key = (lastCall? calls key).getD (p.tree.attribute? p.delegate key)
  /-- The live names in document order without those that were deleted last, then the other keys that were set last,
  once each, in the order in which there first was a call on them. -/
  names : q.attributeNames =
    ((p.tree.attributeNames p.delegate).filter fun key => lastCall? calls key ≠ some none) ++
      (calls.map Prod.fst).eraseDups.filter fun key =>
        key ∉ p.tree.attributeNames p.delegate ∧ (lastCall? calls key).join.isSome = true
  has : ∀ key, q.hasAttribute key = true ↔ key ∈ q.attributeNames
  tree : q.tree = p.tree
  frame : { q with overrides := p.overrides } = p

/-- A buffer that was written by calls alone is read as these calls say. -/
theorem overlaid_putAll (p : ElementProxy) (calls : List (String × Option String)) :
    p.Overlaid calls { p with overrides := Keyed.putAll calls [] } := by
  have hkeys := Keyed.keys_putAll calls []
  have hlookup : ∀ key, (Keyed.putAll calls []).lookup key = lastCall? calls key := fun key => by
    rw [Keyed.lookup_putAll, List.lookup_nil, Option.or_none, lastCall?]
  simp only [List.map_nil, List.not_mem_nil, not_false_eq_true, decide_true, List.filter_true, List.nil_append] at hkeys
  have htidy : Tidy { p with overrides := Keyed.putAll calls [] } := by
    rw [Tidy, hkeys]
    exact Distinct.nodup_eraseDups _
  refine ⟨fun key => attribute?_putAll { p with overrides := [] } calls key, ?_, htidy.hasAttribute_iff, rfl, rfl⟩
  rw [htidy.attributeNames_eq, hkeys]
  simp only [hlookup]

/-- Setting and deleting attributes of a proxy that may change its element never fails. What was buffered before counts
as calls that came first: afterwards each key reads as the last call on it left it, and a key on which there was none
as the live element has it. -/
theorem writes_overlay (hm : p.isMutable = true) (ht : p.Tidy) (calls : List (String × Option String)) :
    ∃ q, calls.forM write p = (.ok (), q) ∧ p.Overlaid (p.overrides ++ calls) q := by
  refine ⟨_, writes_ok hm calls, ?_⟩
  have hnodup : (([] ++ p.overrides).map Prod.fst).Nodup := ht
  have hbuffer : Keyed.putAll p.overrides [] = p.overrides := Keyed.putAll_of_nodup hnodup
  have h := p.overlaid_putAll (p.overrides ++ calls)
  rwa [Keyed.putAll_append, hbuffer] at h

/-- Calls on the proxy of `b` in which `id` was set and the class deleted: the class has its place again once it is set,
and an attribute that was deleted before it was first set is added once. -/
theorem writes_overlay_classless :
    classless.isMutable = true ∧ classless.Tidy ∧ ∃ q,
      [("class", some "d"), ("id", none), ("x", none), ("id", some "j"), ("x", some "y"), ("xlink:href", none)].forM
        write classless = (.ok (), q) ∧
      q.attributeNames = ["class", "id", "x"] ∧ q.attribute? "class" = some "d" ∧ q.attribute? "xlink:href" = none ∧
      q.hasAttribute "xlink:href" = false ∧ q.tree = classless.tree := by
  have ht : classless.Tidy := by unfold Tidy; decide
  obtain ⟨q, hq, h⟩ := writes_overlay (p := classless) rfl ht
    [("class", some "d"), ("id", none), ("x", none), ("id", some "j"), ("x", some "y"), ("xlink:href", none)]
  have hdeleted : q.attribute? "xlink:href" = none := (h.reads _).trans (by decide)
  refine ⟨rfl, ht, q, hq, h.names.trans (by decide), (h.reads _).trans (by decide), hdeleted, ?_, h.tree⟩
  rw [hasAttribute, hdeleted]
  rfl

end ElementProxy

end RichText
