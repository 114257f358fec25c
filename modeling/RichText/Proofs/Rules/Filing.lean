import RichText.Proofs.Distinct
import RichText.Proofs.Effects
import RichText.Proofs.Rules.Cascade

/-!
The rules that view rules are collected to.

View rules are filed one after another, each for a target and an origin. A target is rendered by the rules of all its
origins, in the order in which the origins came first. Those of one origin are layered over one another, and meet no
rule of another origin or target.
-/

namespace RichText

variable {κ σ P : Type}

/-! ### Rules in a sequence -/

namespace Rule

/-- A sequence runs its rules in order, also where there is only one. -/
theorem run_sequence (rules : List (Rule κ σ P)) (context : κ) (parent : RuleM σ P Unit) :
    sequence rules context parent = inOrder (rules.map fun rule => rule context parent) := by
  match rules with
  | [] => rfl
  | [rule] => exact bind_pure_unit.symm
  | _ :: _ :: _ => rfl

/-- The first action that fails ends a row of actions. -/
theorem inOrder_error {before after : List (RuleM σ P Unit)} {action : RuleM σ P Unit} {s t u : P × σ}
    {e : FilterError} (hbefore : inOrder before s = (.ok (), t)) (h : action t = (.error e, u)) :
    inOrder (before ++ action :: after) s = (.error e, u) := by
  induction before generalizing s with
  | nil =>
    cases hbefore
    exact Effects.bind_error h
  | cons first before ih =>
    obtain ⟨⟨⟩, s', hfirst, hrest⟩ := Effects.run_bind_eq_ok hbefore
    exact (Effects.bind_ok hfirst).trans (ih hrest)

end Rule

/-! ### Targets and origins -/

/-- The origins of the rules for a target, in the order in which they came first. -/
def originsFor (target : String) (views : List (ViewRule κ σ)) : List Origin :=
  ((views.filter fun view => view.target = target).map ViewRule.origin).eraseDups

/-- Runs the rules that are filed for a target and an origin: the last one, with the one before as its parent, and so
on. -/
def runOrigin (context : κ) (target : String) (views : List (ViewRule κ σ)) (origin : Origin) :
    RuleM σ ElementProxy Unit :=
  Rule.cascade context (rulesUnder target origin views).reverse

/-- Rules that are filed for another target or another origin may as well be left out. -/
theorem runOrigin_filter (context : κ) (target : String) (views : List (ViewRule κ σ)) (origin : Origin) :
    runOrigin context target (views.filter fun view => view.target = target ∧ view.origin = origin) origin =
      runOrigin context target views origin := by
  rw [runOrigin, runOrigin, rulesUnder, rulesUnder, List.filter_filter]
  simp only [Bool.and_self]

namespace Buckets

/-- The origins that have rules for a target. -/
def origins (buckets : Buckets κ σ) (target : String) : List Origin :=
  ((buckets.lookup target).getD []).map Prod.fst

theorem targets_file (buckets : Buckets κ σ) (view : ViewRule κ σ) :
    (buckets.file view).map Prod.fst =
      if view.target ∈ buckets.map Prod.fst then buckets.map Prod.fst else buckets.map Prod.fst ++ [view.target] :=
  Keyed.keys_alter ..

theorem origins_file (buckets : Buckets κ σ) (view : ViewRule κ σ) (target : String) :
    (buckets.file view).origins target =
      if view.target = target then
        if view.origin ∈ buckets.origins target then buckets.origins target
        else buckets.origins target ++ [view.origin]
      else buckets.origins target := by
  rw [origins, file, add, Keyed.lookup_alter]
  by_cases h : view.target = target
  · rw [if_pos h.symm, if_pos h, Option.getD_some, Keyed.keys_alter, h]
    rfl
  · rw [if_neg (Ne.symm h), if_neg h]
    rfl

/-- Filing rules collects their targets. -/
theorem targets_foldl (buckets : Buckets κ σ) (views : List (ViewRule κ σ)) :
    (views.foldl file buckets).map Prod.fst =
      (views.map ViewRule.target).foldl (fun present target =>
        if target ∈ present then present else present ++ [target]) (buckets.map Prod.fst) := by
  induction views generalizing buckets with
  | nil => rfl
  | cons view views ih => rw [List.foldl_cons, ih, targets_file, List.map_cons, List.foldl_cons]

/-- Filing rules collects for each target the origins of its own rules. -/
theorem origins_foldl (buckets : Buckets κ σ) (views : List (ViewRule κ σ)) (target : String) :
    (views.foldl file buckets).origins target =
      ((views.filter fun view => view.target = target).map ViewRule.origin).foldl (fun present origin =>
        if origin ∈ present then present else present ++ [origin]) (buckets.origins target) := by
  induction views generalizing buckets with
  | nil => rfl
  | cons view views ih =>
    rw [List.foldl_cons, ih, origins_file, List.filter_cons]
    by_cases h : view.target = target
    · rw [if_pos h, if_pos (decide_eq_true h), List.map_cons, List.foldl_cons]
    · rw [if_neg h, if_neg (by simpa using h)]

theorem targets_filed (views : List (ViewRule κ σ)) :
    (views.foldl file ([] : Buckets κ σ)).map Prod.fst = (views.map ViewRule.target).eraseDups := by
  rw [targets_foldl, Distinct.foldl_add]
  simp

theorem origins_filed (views : List (ViewRule κ σ)) (target : String) :
    (views.foldl file ([] : Buckets κ σ)).origins target = originsFor target views := by
  rw [origins_foldl, Distinct.foldl_add]
  simp [origins, originsFor]

/-- The rule that is filed for an origin runs the rules of that origin. -/
theorem run_filed {views : List (ViewRule κ σ)} {target : String} {filed : List (Origin × ElementRule κ σ)}
    (h : (views.foldl file ([] : Buckets κ σ)).lookup target = some filed) (context : κ) :
    filed.map (fun e => e.2 context Rule.noop) = (originsFor target views).map (runOrigin context target views) := by
  have hkeys : filed.map Prod.fst = originsFor target views := by
    rw [← origins_filed, origins, h]
    rfl
  rw [← hkeys, List.map_map]
  refine List.map_congr_left fun e he => ?_
  have hnodup : (filed.map Prod.fst).Nodup := hkeys ▸ Distinct.nodup_eraseDups _
  have hchain : (views.foldl file ([] : Buckets κ σ)).chain? target e.1 = some e.2 := by
    rw [chain?, h]
    exact (Keyed.lookup_eq_some_iff hnodup).2 he
  rw [chain?_file] at hchain
  exact run_stack hchain context

/-- The rule of a target runs its origins in order. -/
theorem run_rules {views : List (ViewRule κ σ)} {target : String} {rule : ElementRule κ σ}
    (h : (target, rule) ∈ (views.foldl file []).rules) (context : κ) :
    rule context Rule.noop = Rule.inOrder ((originsFor target views).map (runOrigin context target views)) := by
  obtain ⟨⟨_, filed⟩, hmem, he⟩ := List.mem_map.1 h
  obtain ⟨rfl, rfl⟩ := Prod.mk.inj he
  have hnodup : ((views.foldl file ([] : Buckets κ σ)).map Prod.fst).Nodup :=
    targets_filed views ▸ Distinct.nodup_eraseDups _
  rw [← run_filed ((Keyed.lookup_eq_some_iff hnodup).2 hmem), Rule.run_sequence, List.map_map]
  rfl

/-- View rules are collected to one rule for each target, in the order in which the targets came first. The rule of a
target runs, for one origin after another in the order in which they came first, the rules of this origin: the last one,
which has the one before as its parent, and so on. The first origin whose rules fail ends it. Rules of other targets and
origins take no part in this. -/
theorem rules_filed (views : List (ViewRule κ σ)) :
    (views.foldl file []).rules.map Prod.fst = (views.map ViewRule.target).eraseDups ∧
      ∀ target rule, (target, rule) ∈ (views.foldl file []).rules → ∀ context,
        rule context Rule.noop = Rule.inOrder ((originsFor target views).map (runOrigin context target views)) ∧
        (∀ before origin after, originsFor target views = before ++ origin :: after → ∀ s t e u,
          Rule.inOrder (before.map (runOrigin context target views)) s = (.ok (), t) →
            runOrigin context target views origin t = (.error e, u) → rule context Rule.noop s = (.error e, u)) ∧
        ∀ origin, runOrigin context target views origin = runOrigin context target
          (views.filter fun view => view.target = target ∧ view.origin = origin) origin := by
  refine ⟨?_, fun target rule h context => ⟨run_rules h context, ?_, fun origin => (runOrigin_filter ..).symm⟩⟩
  · rw [rules, List.map_map]
    exact targets_filed views
  · intro before origin after ho s t e u hbefore hfails
    rw [run_rules h, ho, List.map_append, List.map_cons]
    exact Rule.inOrder_error hbefore hfails

/-- Writes its name into the journal, and fails. -/
def failing (name : String) : ElementRule Unit (List String) := fun _ _ => do
  modify fun (proxy, log) => (proxy, log ++ [name])
  throw (.rule name)

/-- Rules for two targets, in turn with one another. The first origin of the target `p` gets a second rule when others
have been filed, and its second origin fails. -/
def mixed : List (ViewRule Unit (List String)) :=
  [⟨"p", .tag "p", "p", Rule.passing "first"⟩, ⟨"p", .tag "p", "h1", Rule.passing "heading"⟩,
    ⟨"em", .unbound, "p", failing "shared"⟩, ⟨"h1", .tag "h1", "p", Rule.passing "last"⟩,
    ⟨"h1", .tag "h1", "h1", Rule.passing "heading"⟩, ⟨"p", .tag "p", "p", Rule.passing "late"⟩]

/-- The late rule runs in the place of its origin, before that of the second origin, with which the run ends. -/
theorem rules_mixed :
    (mixed.foldl Buckets.file []).rules.map Prod.fst = ["p", "h1"] ∧
      ∃ rule, ("p", rule) ∈ (mixed.foldl Buckets.file []).rules ∧
        (rule () Rule.noop (ElementProxy.ofNode .empty none .standard, [])).2.2 = ["late", "first", "shared"] ∧
        (rule () Rule.noop (ElementProxy.ofNode .empty none .standard, [])).1 = .error (.rule "shared") := by
  obtain ⟨hkeys, hrules⟩ := rules_filed mixed
  refine ⟨hkeys.trans (by decide), _, List.mem_cons_self, ?_⟩
  obtain ⟨-, hfails, -⟩ := hrules "p" _ List.mem_cons_self ()
  rw [hfails [.tag "p"] .unbound [.tag "h1"] (by decide) (ElementProxy.ofNode .empty none .standard, [])
    (ElementProxy.ofNode .empty none .standard, ["late", "first"]) (.rule "shared")
    (ElementProxy.ofNode .empty none .standard, ["late", "first", "shared"]) rfl rfl]
  exact ⟨rfl, rfl⟩

end Buckets

end RichText
