import RichText.Proofs.Rules.Layers

/-!
The origins of view rules.

A view rule is filed when its entry is compiled, under its key if an entry up to this one has a data rule for the
key. Where the data rule of a key comes first, all its view rules are filed under it, and those of one target form
one chain. Where a view rule comes before the data rule, it stays apart from the later ones.
-/

namespace RichText

variable {κ σ : Type}

/-- The view rules of an entry, with their targets. -/
def ElementEntry.views (key : String) (entry : ElementEntry κ σ) : List (String × ElementRule κ σ) :=
  match entry.toView with
  | some (.same rule) => [(key, rule)]
  | some (.targets rules) => rules
  | none => []

/-- A view rule with the key of its entry and the origin that it is filed under. -/
structure ViewRule (κ σ : Type) where
  key : String
  origin : Origin
  target : String
  rule : ElementRule κ σ

/-- The view rules of an entry as rules of one origin. -/
def ElementEntry.viewRules (key : String) (origin : Origin) (entry : ElementEntry κ σ) : List (ViewRule κ σ) :=
  (entry.views key).map fun view => ⟨key, origin, view.1, view.2⟩

/-- Files a view rule. -/
def Buckets.file (buckets : Buckets κ σ) (view : ViewRule κ σ) : Buckets κ σ :=
  buckets.add view.target view.origin view.rule

/-- The rules among `views` that are filed for a target and an origin. -/
def rulesUnder (target : String) (origin : Origin) (views : List (ViewRule κ σ)) : List (ElementRule κ σ) :=
  (views.filter fun view => view.target = target ∧ view.origin = origin).map ViewRule.rule

/-- The chain of a target and an origin is made of the rules that were filed for them, in that order. -/
theorem Buckets.chain?_file (buckets : Buckets κ σ) (views : List (ViewRule κ σ)) (target : String)
    (origin : Origin) :
    (views.foldl file buckets).chain? target origin =
      stackOver (buckets.chain? target origin) (rulesUnder target origin views) := by
  induction views generalizing buckets with
  | nil => rfl
  | cons view views ih =>
    rw [List.foldl_cons, ih, file, chain?_add, rulesUnder, rulesUnder, List.filter_cons]
    by_cases h : view.target = target ∧ view.origin = origin
    · rw [if_pos ⟨h.1.symm, h.2.symm⟩, if_pos (decide_eq_true h)]
      rfl
    · rw [if_neg fun h' => h ⟨h'.1.symm, h'.2.symm⟩, if_neg (by simpa using h)]

namespace Configuration

/-- The data rules that entries have for a key, in order. -/
def dataRules (key : String) (entries : List (String × ElementEntry κ σ)) : List (ElementRule κ σ) :=
  entries.filterMap fun e => if e.1 = key then e.2.toData else none

/-- The entries for a key have a data rule among them. -/
def Bound (key : String) (entries : List (String × ElementEntry κ σ)) : Prop :=
  ∃ entry, (key, entry) ∈ entries ∧ entry.toData.isSome

/-- No entry with a view rule of the key comes before the first one with a data rule of it. -/
def DataFirst (key : String) (entries : List (String × ElementEntry κ σ)) : Prop :=
  ∀ before entry after, entries = before ++ (key, entry) :: after → entry.views key ≠ [] →
    Bound key entries → Bound key (before ++ [(key, entry)])

/-- All view rules that a key has for a target, in the order of the entries. -/
def rulesFor (key target : String) (entries : List (String × ElementEntry κ σ)) : List (ElementRule κ σ) :=
  entries.flatMap fun e =>
    if e.1 = key then ((e.2.views key).filter fun view => view.1 = target).map Prod.snd else []

/-- The entries of both layers in the order in which they are compiled. -/
def entries (custom default : Option (Configuration κ σ)) : List (String × ElementEntry κ σ) :=
  ([default, custom].filterMap id).flatMap elements

/-- The buckets that two configurations are compiled to. -/
def buckets (custom default : Option (Configuration κ σ)) : Buckets κ σ :=
  (([default, custom].filterMap id).foldl Progress.add {}).toView

namespace Progress

variable {p q : Progress κ σ}

/-- The view rules of entries that are compiled over `p`. -/
def viewRules (p : Progress κ σ) : List (String × ElementEntry κ σ) → List (ViewRule κ σ)
  | [] => []
  | (key, entry) :: rest =>
    entry.viewRules key ((p.addToData key entry.toData).originOf key) ++ (p.addEntry key entry).viewRules rest

/-- Compiles entries in order. -/
def addEntries (p : Progress κ σ) (entries : List (String × ElementEntry κ σ)) : Progress κ σ :=
  entries.foldl (fun p (key, entry) => p.addEntry key entry) p

theorem toData_addEntry (key : String) (entry : ElementEntry κ σ) :
    (p.addEntry key entry).toData = (p.addToData key entry.toData).toData := by
  rw [addEntry, addToView.eq_def]
  split <;> rfl

theorem toView_addToData (key : String) (rule : Option (ElementRule κ σ)) :
    (p.addToData key rule).toView = p.toView := by
  cases rule <;> rfl

theorem toView_addEntry (key : String) (entry : ElementEntry κ σ) :
    (p.addEntry key entry).toView =
      (entry.viewRules key ((p.addToData key entry.toData).originOf key)).foldl Buckets.file p.toView := by
  rw [addEntry, ← toView_addToData (p := p) key entry.toData, ElementEntry.viewRules, ElementEntry.views]
  cases entry.toView with
  | none => rfl
  | some view =>
    cases view with
    | same rule => rfl
    | targets rules =>
      rw [List.foldl_map]
      rfl

/-- Compiling entries files their view rules in order. -/
theorem toView_addEntries (entries : List (String × ElementEntry κ σ)) :
    (p.addEntries entries).toView = (p.viewRules entries).foldl Buckets.file p.toView := by
  induction entries generalizing p with
  | nil => rfl
  | cons e rest ih =>
    rw [viewRules, List.foldl_append, ← toView_addEntry]
    exact ih

/-- Text rules take no part in the compilation of elements. -/
theorem addEntries_congr (hd : p.toData = q.toData) (hv : p.toView = q.toView)
    (entries : List (String × ElementEntry κ σ)) :
    (p.addEntries entries).toData = (q.addEntries entries).toData ∧
      (p.addEntries entries).toView = (q.addEntries entries).toView := by
  induction entries generalizing p q with
  | nil => exact ⟨hd, hv⟩
  | cons e rest ih =>
    obtain ⟨key, entry⟩ := e
    have hk : (p.addToData key entry.toData).toData = (q.addToData key entry.toData).toData := by
      cases entry.toData with
      | none => exact hd
      | some rule => simp only [addToData, hd]
    refine ih ?_ ?_
    · rw [toData_addEntry, toData_addEntry, hk]
    · rw [toView_addEntry, toView_addEntry, hv, originOf, originOf, hk]

theorem add_elements (configuration : Configuration κ σ) :
    (p.add configuration).toData = (p.addEntries configuration.elements).toData ∧
      (p.add configuration).toView = (p.addEntries configuration.elements).toView := by
  rw [add]
  cases configuration.text <;> exact ⟨rfl, rfl⟩

theorem foldl_add_elements (configurations : List (Configuration κ σ)) (hd : p.toData = q.toData)
    (hv : p.toView = q.toView) :
    (configurations.foldl add p).toData = (q.addEntries (configurations.flatMap elements)).toData ∧
      (configurations.foldl add p).toView = (q.addEntries (configurations.flatMap elements)).toView := by
  induction configurations generalizing p q with
  | nil => exact ⟨hd, hv⟩
  | cons c rest ih =>
    obtain ⟨hcd, hcv⟩ := p.add_elements c
    obtain ⟨hed, hev⟩ := addEntries_congr hd hv c.elements
    have hrest := ih (hcd.trans hed) (hcv.trans hev)
    rw [List.foldl_cons, List.flatMap_cons, addEntries, List.foldl_append]
    exact hrest

theorem addEntries_concat (entries : List (String × ElementEntry κ σ)) (key : String) (entry : ElementEntry κ σ) :
    p.addEntries (entries ++ [(key, entry)]) = (p.addEntries entries).addEntry key entry := by
  rw [addEntries, List.foldl_append]
  rfl

theorem dataRules_cons (k key : String) (entry : ElementEntry κ σ) (rest : List (String × ElementEntry κ σ)) :
    dataRules k ((key, entry) :: rest) = (if key = k then entry.toData else none).toList ++ dataRules k rest := by
  rw [dataRules, List.filterMap_cons]
  cases if key = k then entry.toData else none <;> rfl

theorem lookup_addEntry (k key : String) (entry : ElementEntry κ σ) :
    (p.addEntry key entry).toData.lookup k =
      stackOver (p.toData.lookup k) (if key = k then entry.toData else none).toList := by
  rw [toData_addEntry]
  cases entry.toData with
  | none =>
    rw [ite_self]
    rfl
  | some rule =>
    rw [addToData, Keyed.lookup_alter]
    by_cases h : key = k
    · subst h
      rw [if_pos rfl, if_pos rfl]
      rfl
    · rw [if_neg (Ne.symm h), if_neg h]
      rfl

/-- The data rule of a key is the stack of the data rules of its entries. -/
theorem lookup_addEntries (k : String) (entries : List (String × ElementEntry κ σ)) :
    (p.addEntries entries).toData.lookup k = stackOver (p.toData.lookup k) (dataRules k entries) := by
  induction entries generalizing p with
  | nil => rfl
  | cons e rest ih =>
    obtain ⟨key, entry⟩ := e
    rw [dataRules_cons, stackOver_append, ← lookup_addEntry]
    exact ih

/-- The view rules of entries, each with the entry that it is from. -/
theorem mem_viewRules {entries : List (String × ElementEntry κ σ)} {view : ViewRule κ σ}
    (h : view ∈ p.viewRules entries) :
    ∃ before entry after, entries = before ++ (view.key, entry) :: after ∧ entry.views view.key ≠ [] ∧
      view.origin = ((p.addEntries before).addToData view.key entry.toData).originOf view.key := by
  induction entries generalizing p with
  | nil => exact absurd h List.not_mem_nil
  | cons e rest ih =>
    obtain ⟨key, entry⟩ := e
    rcases List.mem_append.1 h with h | h
    · obtain ⟨view, hm, rfl⟩ := List.mem_map.1 h
      exact ⟨[], entry, rest, rfl, List.ne_nil_of_mem hm, rfl⟩
    · obtain ⟨before, entry', after, rfl, hne, ho⟩ := ih h
      exact ⟨(key, entry) :: before, entry', after, rfl, hne, ho⟩

/-- The rules among the view rules of entries that are of one key and one target. -/
theorem map_rule_viewRules (key target : String) (entries : List (String × ElementEntry κ σ)) :
    ((p.viewRules entries).filter fun view => view.target = target ∧ view.key = key).map ViewRule.rule =
      rulesFor key target entries := by
  induction entries generalizing p with
  | nil => rfl
  | cons e rest ih =>
    obtain ⟨k, entry⟩ := e
    rw [viewRules, List.filter_append, List.map_append, ih, rulesFor, rulesFor, List.flatMap_cons]
    rw [ElementEntry.viewRules, List.filter_map, List.map_map]
    by_cases h : k = key
    · subst h
      simp [Function.comp_def]
    · simp [h, Function.comp_def]

end Progress

/-- The view rules of two configurations with their origins. -/
def viewRules (custom default : Option (Configuration κ σ)) : List (ViewRule κ σ) :=
  ({} : Progress κ σ).viewRules (entries custom default)

theorem buckets_eq (custom default : Option (Configuration κ σ)) :
    buckets custom default = (viewRules custom default).foldl Buckets.file [] := by
  rw [buckets, (Progress.foldl_add_elements _ rfl rfl).2, Progress.toView_addEntries]
  rfl

/-- The rule that is run for a target runs the chains of all its origins one after another. -/
theorem element?_toView (custom default : Option (Configuration κ σ)) (target : String) :
    (compile custom default).toView.element? target =
      ((buckets custom default).lookup target).map fun origins => Rule.sequence (origins.map Prod.snd) := by
  show ((buckets custom default).map _).lookup target = _
  induction buckets custom default with
  | nil => rfl
  | cons e rest ih =>
    obtain ⟨key, origins⟩ := e
    rw [List.map_cons, Keyed.lookup_cons_ite, Keyed.lookup_cons_ite, ih]
    split <;> rfl

theorem chain?_buckets (custom default : Option (Configuration κ σ)) (target : String) (origin : Origin) :
    (buckets custom default).chain? target origin =
      stack (rulesUnder target origin (viewRules custom default)) := by
  rw [buckets_eq, Buckets.chain?_file]
  rfl

/-- The entries for a key have a data rule where the key gets one. -/
theorem bound_iff (key : String) (entries : List (String × ElementEntry κ σ)) :
    Bound key entries ↔ dataRules key entries ≠ [] := by
  constructor
  · rintro ⟨entry, hm, hd⟩
    obtain ⟨rule, hr⟩ := Option.isSome_iff_exists.1 hd
    exact List.ne_nil_of_mem (List.mem_filterMap.2 ⟨(key, entry), hm, by rw [if_pos rfl, hr]⟩)
  · intro h
    obtain ⟨rule, hmem⟩ := List.exists_mem_of_ne_nil _ h
    obtain ⟨⟨k, entry⟩, hm, hr⟩ := List.mem_filterMap.1 hmem
    obtain ⟨rfl, hd⟩ := Option.ite_none_right_eq_some.1 hr
    exact ⟨entry, hm, Option.isSome_of_eq_some hd⟩

/-- A view rule is filed under its key exactly where its own entry or an earlier one has a data rule. -/
theorem origin_viewRules {custom default : Option (Configuration κ σ)} {view : ViewRule κ σ}
    (h : view ∈ viewRules custom default) :
    ∃ before entry after, entries custom default = before ++ (view.key, entry) :: after ∧
      entry.views view.key ≠ [] ∧
      (Bound view.key (before ++ [(view.key, entry)]) → view.origin = .tag view.key) ∧
      (¬ Bound view.key (before ++ [(view.key, entry)]) → view.origin = .unbound) := by
  obtain ⟨before, entry, after, he, hne, ho⟩ := Progress.mem_viewRules h
  have hlookup := Progress.lookup_addEntries (p := {}) view.key (before ++ [(view.key, entry)])
  rw [Progress.addEntries_concat, Progress.toData_addEntry, List.lookup_nil] at hlookup
  have hb := isSome_stackOver none (dataRules view.key (before ++ [(view.key, entry)]))
  rw [← bound_iff, ← hlookup, Option.isSome_none] at hb
  simp only [Bool.false_eq_true, false_or] at hb
  refine ⟨before, entry, after, he, hne, fun h => ?_, fun h => ?_⟩
  · rw [ho, Progress.originOf, if_pos (hb.2 h)]
  · rw [ho, Progress.originOf, if_neg (mt hb.1 h)]

/-- A data rule in the first entry comes before every view rule. -/
theorem DataFirst.of_head {key : String} {entry : ElementEntry κ σ} (h : entry.toData.isSome)
    (rest : List (String × ElementEntry κ σ)) : DataFirst key ((key, entry) :: rest) := by
  intro before entry' after he _ _
  cases before with
  | nil =>
    obtain ⟨he, rfl⟩ := List.cons.inj he
    cases he
    exact ⟨entry, by simp, h⟩
  | cons e before =>
    obtain ⟨rfl, -⟩ := List.cons.inj he
    exact ⟨entry, by simp, h⟩

/-- Where the data rule of a key comes first, the key alone decides on the origin of its view rules. -/
theorem DataFirst.origin {custom default : Option (Configuration κ σ)} {view : ViewRule κ σ}
    (hf : DataFirst view.key (entries custom default)) (h : view ∈ viewRules custom default) :
    (Bound view.key (entries custom default) → view.origin = .tag view.key) ∧
      (¬ Bound view.key (entries custom default) → view.origin = .unbound) := by
  obtain ⟨before, entry, after, he, hne, htag, hunbound⟩ := origin_viewRules h
  refine ⟨fun hb => htag (hf before entry after he hne hb), fun hb => hunbound fun ⟨e, hm, hd⟩ => hb ⟨e, ?_, hd⟩⟩
  rw [he, List.append_cons]
  exact List.mem_append_left after hm

/-- No rule is filed under the tag of another key. -/
theorem key_of_origin {custom default : Option (Configuration κ σ)} {view : ViewRule κ σ} {key : String}
    (h : view ∈ viewRules custom default) (ho : view.origin = .tag key) : view.key = key := by
  obtain ⟨before, entry, after, -, -, htag, hunbound⟩ := origin_viewRules h
  by_cases hb : Bound view.key (before ++ [(view.key, entry)])
  · exact Origin.tag.inj ((htag hb).symm.trans ho)
  · cases (hunbound hb).symm.trans ho

theorem DataFirst.rulesUnder_tag {custom default : Option (Configuration κ σ)} {key : String}
    (hf : DataFirst key (entries custom default)) (hb : Bound key (entries custom default)) (target : String) :
    rulesUnder target (.tag key) (viewRules custom default) = rulesFor key target (entries custom default) := by
  rw [rulesUnder, ← Progress.map_rule_viewRules (p := {})]
  congr 1
  refine List.filter_congr fun view hv => ?_
  have hiff : view.origin = .tag key ↔ view.key = key := by
    refine ⟨key_of_origin hv, ?_⟩
    rintro rfl
    exact (hf.origin hv).1 hb
  simp only [hiff]

/-- A target's rule runs, one after another, the chains of its origins, each made of the rules that were filed
there. Where the data rule of a key comes first, all view rules of the key are filed under its tag if it has a data
rule, and under the shared origin else. Those of one target are then one chain in the order of the entries, in
which a rule that does not run its parent hides all earlier ones. -/
theorem views_of_dataFirst {custom default : Option (Configuration κ σ)} {key : String}
    (hf : DataFirst key (entries custom default)) :
    (∀ target, (compile custom default).toView.element? target =
      ((buckets custom default).lookup target).map fun origins => Rule.sequence (origins.map Prod.snd)) ∧
    (∀ target origin, (buckets custom default).chain? target origin =
      stack (rulesUnder target origin (viewRules custom default))) ∧
    (Bound key (entries custom default) →
      (∀ view ∈ viewRules custom default, view.key = key → view.origin = .tag key) ∧
      ∀ target, (buckets custom default).chain? target (.tag key) =
          stack (rulesFor key target (entries custom default)) ∧
        ∀ before rule after, rulesFor key target (entries custom default) = before ++ rule :: after →
          rule.IgnoresParent → (buckets custom default).chain? target (.tag key) = stack (rule :: after)) ∧
    (¬ Bound key (entries custom default) →
      ∀ view ∈ viewRules custom default, view.key = key → view.origin = .unbound) := by
  have hchain : Bound key (entries custom default) → ∀ target,
      (buckets custom default).chain? target (.tag key) = stack (rulesFor key target (entries custom default)) := by
    intro hb target
    rw [chain?_buckets, hf.rulesUnder_tag hb]
  refine ⟨element?_toView custom default, chain?_buckets custom default, fun hb => ⟨?_, fun target => ?_⟩,
    fun hb => ?_⟩
  · rintro view hv rfl
    exact (hf.origin hv).1 hb
  · refine ⟨hchain hb target, fun before rule after he hr => ?_⟩
    rw [hchain hb, he, stack_hides hr]
  · rintro view hv rfl
    exact (hf.origin hv).2 hb

/-- Writes its name into the journal, and does not run its parent. -/
def marking (name : String) : ElementRule Unit (List String) := fun _ _ =>
  modify fun (proxy, log) => (proxy, log ++ [name])

/-- A key with a data rule and a view rule. -/
def twoWay : Configuration Unit (List String) where
  elements := [("p", { toData := some (marking "data"), toView := some (.same (marking "two-way")) })]

/-- A key with a view rule alone. -/
def viewOnly : Configuration Unit (List String) where
  elements := [("p", { toView := some (.same (marking "view-only")) })]

/-- A custom view rule hides the default one of a key that has a data rule by then. -/
theorem viewOnly_hides_twoWay :
    (buckets (some viewOnly) (some twoWay)).chain? "p" (.tag "p") = stack [marking "view-only"] :=
  ((views_of_dataFirst (.of_head rfl _)).2.2.1 ⟨_, List.mem_cons_self, rfl⟩).2 "p" |>.2
    [marking "two-way"] (marking "view-only") [] rfl fun _ _ => rfl

/-- A custom view rule does not hide the default one where the data rule comes with the custom one: the default
rule stays under the shared origin, and both run. -/
theorem twoWay_beside_viewOnly :
    Bound "p" (entries (some twoWay) (some viewOnly)) ∧
      (¬ ∀ view ∈ viewRules (some twoWay) (some viewOnly), view.key = "p" → view.origin = .tag "p") ∧
      ((compile (some twoWay) (some viewOnly)).toView.element? "p").map (fun rule =>
        (rule () Rule.noop (ElementProxy.ofNode .empty none .standard, [])).2.2) =
          some ["view-only", "two-way"] := by
  refine ⟨⟨_, List.mem_cons_of_mem _ List.mem_cons_self, rfl⟩, fun h => ?_, rfl⟩
  cases h _ List.mem_cons_self rfl

end Configuration

end RichText
