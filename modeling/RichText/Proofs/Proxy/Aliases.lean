import RichText.Proofs.Proxy.Overlay

/-!
Several spellings of one attribute.

The spellings are read before anything is written; then the aliases are deleted and the target is set. All that is
written are calls on the buffer, the one on the target last, even where the target is among the aliases or an alias
comes twice. Afterwards the target is the one spelling that is left, so that there is nothing more to collapse.
-/

namespace RichText.ElementProxy

open Effects

variable {p : ElementProxy} {target : String} {aliases : List String}

/-- The calls that delete the aliases. The target is not deleted. -/
def deletions (target : String) (aliases : List String) : List (String × Option String) :=
  (aliases.filter (· ≠ target)).map (·, none)

/-- The calls that collapse aliases, given the value that was found. -/
def collapsing (target : String) (aliases : List String) (value : Option String) : List (String × Option String) :=
  deletions target aliases ++ (value.map fun value => (target, some value)).toList

/-! ### What is written -/

theorem deleteAliases_ok (hm : p.isMutable = true) (target : String) (aliases : List String) :
    (forIn aliases PUnit.unit fun key _ =>
        if key ≠ target then do
          deleteAttribute key
          pure (ForInStep.yield PUnit.unit)
        else pure (ForInStep.yield PUnit.unit)) p =
      (.ok (), { p with overrides := Keyed.putAll (deletions target aliases) p.overrides }) := by
  induction aliases generalizing p with
  | nil => rfl
  | cons key rest ih =>
    rw [List.forIn_cons, deletions, List.filter_cons]
    by_cases hk : key = target
    · rw [if_neg (not_not.2 hk), if_neg (by simpa using hk), bind_ok (run_pure _ p)]
      exact ih hm
    · have hdelete : (do deleteAttribute key; pure (ForInStep.yield PUnit.unit)) p =
          (.ok (.yield PUnit.unit), { p with overrides := Keyed.put key none p.overrides }) :=
        bind_ok (deleteAttribute_ok hm key)
      rw [if_pos hk, if_pos (by simpa using hk), bind_ok hdelete]
      exact ih (p := { p with overrides := Keyed.put key none p.overrides }) hm

theorem collapseAliases_ok (hm : p.isMutable = true) (target : String) (aliases : List String) :
    collapseAliases target aliases p =
      (.ok ((target :: aliases).findSome? p.attribute?), { p with
        overrides := Keyed.putAll (collapsing target aliases ((target :: aliases).findSome? p.attribute?))
          p.overrides }) := by
  unfold collapseAliases
  rw [bind_ok (run_get p)]
  dsimp only
  rw [bind_ok (deleteAliases_ok hm target aliases), collapsing, Keyed.putAll_append]
  cases (target :: aliases).findSome? p.attribute? with
  | none => rfl
  | some value =>
    exact bind_ok (setAttribute_ok (p := { p with overrides := Keyed.putAll (deletions target aliases) p.overrides }) hm
      target value)

/-! ### What is read -/

theorem lookup_map_const {keys : List String} (value : Option String) :
    (keys.map (·, value)).lookup key = if key ∈ keys then some value else none := by
  induction keys with
  | nil => rfl
  | cons k rest ih =>
    rw [List.map_cons, Keyed.lookup_cons_ite, ih]
    by_cases hk : key = k <;> simp [hk]

/-- The last call on the target sets it, if there is one, and the only calls on the other aliases are deletions. -/
theorem lastCall?_collapsing (target : String) (aliases : List String) (value : Option String) (key : String) :
    lastCall? (collapsing target aliases value) key =
      if key = target then value.map some else if key ∈ aliases then some none else none := by
  rw [lastCall?, collapsing, List.reverse_append, List.lookup_append, deletions, ← List.map_reverse, lookup_map_const]
  by_cases hk : key = target
  · cases value <;> simp [hk]
  · cases value <;> simp [hk, Keyed.lookup_cons_ite]

/-- `q` reads as `p` does with the aliases collapsed into the target, and but for its buffer it is `p`. -/
structure Collapsed (p : ElementProxy) (target : String) (aliases : List String) (q : ElementProxy) : Prop where
  /-- The target reads as the first value among those of the target and the aliases, in this order. -/
  resolved : q.attribute? target = (target :: aliases).findSome? p.attribute?
  /-- Without such a value it reads as before. -/
  unresolved : (target :: aliases).findSome? p.attribute? = none → q.attribute? target = p.attribute? target
  deleted : ∀ key ∈ aliases, key ≠ target → q.attribute? key = none
  others : ∀ key, key ≠ target → key ∉ aliases → q.attribute? key = p.attribute? key
  tree : q.tree = p.tree
  frame : { q with overrides := p.overrides } = p

theorem collapsed_putAll (p : ElementProxy) (target : String) (aliases : List String) :
    p.Collapsed target aliases { p with
      overrides := Keyed.putAll (collapsing target aliases ((target :: aliases).findSome? p.attribute?))
        p.overrides } := by
  generalize hv : (target :: aliases).findSome? p.attribute? = value
  have habsent : value = none → p.attribute? target = none := by
    rintro rfl
    exact List.findSome?_eq_none_iff.1 hv target List.mem_cons_self
  have hresolved : attribute? { p with
      overrides := Keyed.putAll (collapsing target aliases value) p.overrides } target = value := by
    rw [attribute?_putAll, lastCall?_collapsing, if_pos rfl]
    cases value with
    | none => exact habsent rfl
    | some value => rfl
  refine ⟨hresolved.trans hv.symm, fun hnone => ?_, fun key ha hne => ?_, fun key hne ha => ?_, rfl, rfl⟩
  · rw [hv] at hnone
    rw [hresolved, habsent hnone, hnone]
  · rw [attribute?_putAll, lastCall?_collapsing, if_neg hne, if_pos ha, Option.getD_some]
  · rw [attribute?_putAll, lastCall?_collapsing, if_neg hne, if_neg ha, Option.getD_none]

/-- The target is the one spelling that is left, so that the same value is found again. -/
theorem Collapsed.findSome?_eq {q : ElementProxy} (h : p.Collapsed target aliases q) :
    (target :: aliases).findSome? q.attribute? = (target :: aliases).findSome? p.attribute? := by
  cases hv : (target :: aliases).findSome? p.attribute? with
  | some value =>
    have hread := h.resolved
    rw [hv] at hread
    rw [List.findSome?_cons, hread]
  | none =>
    have hread := h.resolved
    rw [hv] at hread
    refine List.findSome?_eq_none_iff.2 fun key hk => ?_
    by_cases hne : key = target
    · rw [hne, hread]
    · exact h.deleted key ((List.mem_cons.1 hk).resolve_left hne) hne

/-- What collapsing writes is in the buffer then, so that writing it again changes nothing. -/
theorem putAll_collapsing (target : String) (aliases : List String) (value : Option String)
    (table : List (String × Option String)) :
    Keyed.putAll (collapsing target aliases value) (Keyed.putAll (collapsing target aliases value) table) =
      Keyed.putAll (collapsing target aliases value) table := by
  refine Keyed.putAll_of_lookup fun call hc => ?_
  rw [Keyed.lookup_putAll, ← lastCall?, lastCall?_collapsing]
  rcases List.mem_append.1 hc with hc | hc
  · obtain ⟨key, hk, rfl⟩ := List.mem_map.1 hc
    obtain ⟨hk, hne⟩ := List.mem_filter.1 hk
    rw [if_neg (of_decide_eq_true hne), if_pos hk, Option.some_or]
  · obtain ⟨value, rfl, rfl⟩ : ∃ v, value = some v ∧ (target, some v) = call := by simpa using hc
    rw [if_pos rfl, Option.map_some, Option.some_or]

/-- Collapsing aliases never fails on a proxy that may change its element, and answers with the first value among those
of the target and the aliases, in this order; the target may be an alias, and an alias may come twice. Afterwards the
target reads as that value, the other aliases have none, and any other key reads as before. Collapsing the aliases again
gives the same answer and changes nothing. -/
theorem collapseAliases_collapses (hm : p.isMutable = true) (target : String) (aliases : List String) :
    ∃ q, collapseAliases target aliases p = (.ok ((target :: aliases).findSome? p.attribute?), q) ∧
      p.Collapsed target aliases q ∧
      collapseAliases target aliases q = (.ok ((target :: aliases).findSome? p.attribute?), q) := by
  have h := p.collapsed_putAll target aliases
  refine ⟨_, collapseAliases_ok hm target aliases, h, (collapseAliases_ok ?_ target aliases).trans ?_⟩
  · exact hm
  · rw [h.findSome?_eq, putAll_collapsing]

/-- The target is an alias of itself, one alias comes twice, and the first one was deleted before. -/
theorem collapseAliases_classless :
    classless.isMutable = true ∧ ∃ q,
      collapseAliases "href" ["class", "xlink:href", "href", "xlink:href", "id"] classless = (.ok (some "v"), q) ∧
      q.attribute? "href" = some "v" ∧ q.attribute? "xlink:href" = none ∧ q.attribute? "id" = none ∧
      q.attribute? "title" = classless.attribute? "title" ∧ q.tree = classless.tree ∧
      collapseAliases "href" ["class", "xlink:href", "href", "xlink:href", "id"] q = (.ok (some "v"), q) := by
  have hv : ["href", "class", "xlink:href", "href", "xlink:href", "id"].findSome? classless.attribute? = some "v" := by
    decide
  obtain ⟨q, hq, h, hagain⟩ := collapseAliases_collapses (p := classless) rfl "href"
    ["class", "xlink:href", "href", "xlink:href", "id"]
  rw [hv] at hq hagain
  exact ⟨rfl, q, hq, h.resolved.trans hv, h.deleted _ (by decide) (by decide), h.deleted _ (by decide) (by decide),
    h.others _ (by decide) (by decide), h.tree, hagain⟩

end RichText.ElementProxy
