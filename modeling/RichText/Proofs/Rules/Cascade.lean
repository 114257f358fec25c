import Mathlib.Data.List.Forall2
import Mathlib.Data.List.Induction
import Mathlib.Data.Set.Insert
import RichText.Proofs.Rules.Origins

/-!
What runs when layered rules run.

A stack of rules runs the one that was added last. Its parent is the rule before it, whose parent is again the rule
before that one. The data rules of a key and the text rules of each direction are such stacks.
-/

namespace RichText

variable {κ σ P ι : Type}

/-! ### A stack from its top to its bottom -/

/-- Runs the first rule. Its parent runs the rules that follow in the same way, in the same context and on the state in
which it is called, and fails where they fail. -/
def Rule.cascade (context : κ) : List (Rule κ σ P) → RuleM σ P Unit
  | [] => Rule.noop
  | rule :: below => rule context (cascade context below)

theorem stack_concat (rules : List (Rule κ σ P)) (rule : Rule κ σ P) :
    stack (rules ++ [rule]) = some (layer rule (stack rules)) := stackOver_append none rules [rule]

theorem isSome_stack (rules : List (Rule κ σ P)) : (stack rules).isSome ↔ rules ≠ [] := by
  rw [stack, isSome_stackOver, Option.isSome_none]
  simp

/-- A stack runs its last rule, with the stack of those before it as its parent. -/
theorem run_stack {rules : List (Rule κ σ P)} {rule : Rule κ σ P} (h : stack rules = some rule) (context : κ) :
    rule context Rule.noop = Rule.cascade context rules.reverse := by
  induction rules using List.reverseRecOn generalizing rule with
  | nil => cases h
  | append_singleton rules top ih =>
    rw [stack_concat] at h
    obtain rfl := Option.some.inj h
    rw [List.reverse_concat, Rule.cascade]
    cases hb : stack rules with
    | none =>
      have hempty : rules = [] := by
        by_contra hne
        simpa [hb] using (isSome_stack rules).2 hne
      rw [hempty]
      rfl
    | some below =>
      rw [← ih hb]
      rfl

/-! ### How often each layer runs -/

/-- A run from one state to another that runs `parent` a number of times, and else leaves the log as it is. -/
inductive Calls (log : σ → List ι) (parent : RuleM σ P Unit) : Nat → P × σ → P × σ → Prop
  | quiet {s t : P × σ} (h : log t.2 = log s.2) : Calls log parent 0 s t
  | call {n : Nat} {s u t : P × σ} (h : log u.2 = log s.2) (rest : Calls log parent n (parent u).2 t) :
    Calls log parent (n + 1) s t

/-- The name that a rule leaves in the log, and how often it may run its parent. -/
structure Layer (ι : Type) where
  label : ι
  calls : Set Nat

/-- The rule writes its name to the log first. After that it runs its parent, whatever that is, and writes no more
itself. -/
def Rule.Logs (log : σ → List ι) (l : Layer ι) (rule : Rule κ σ P) : Prop :=
  ∀ context parent s, ∃ n ∈ l.calls, ∃ u : P × σ, log u.2 = log s.2 ++ [l.label] ∧
    Calls log parent n u (rule context parent s).2

/-- What the layers from the top down write to the log: each its name, and then for each call of its parent what the
layers below it write. -/
inductive Trace : List (Layer ι) → List ι → Prop
  | nil : Trace [] []
  | cons {l : Layer ι} {below : List (Layer ι)} (runs : List (List ι)) (hn : runs.length ∈ l.calls)
    (hruns : ∀ run ∈ runs, Trace below run) : Trace (l :: below) (l.label :: runs.flatten)

variable {log : σ → List ι} {parent : RuleM σ P Unit} {layers : List (Layer ι)}

/-- Where each run of the parent adds a trace, a number of runs adds that number of traces. -/
theorem Calls.trace (hp : ∀ s, ∃ added, Trace layers added ∧ log (parent s).2.2 = log s.2 ++ added) {n : Nat}
    {s t : P × σ} (h : Calls log parent n s t) :
    ∃ runs : List (List ι), runs.length = n ∧ (∀ run ∈ runs, Trace layers run) ∧
      log t.2 = log s.2 ++ runs.flatten := by
  induction h with
  | quiet h => exact ⟨[], rfl, by simp, by simp [h]⟩
  | @call n s u t h _ ih =>
    obtain ⟨added, ha, hl⟩ := hp u
    obtain ⟨runs, hn, hruns, ht⟩ := ih
    refine ⟨added :: runs, by rw [List.length_cons, hn], ?_, ?_⟩
    · intro run hrun
      rcases List.mem_cons.1 hrun with rfl | hrun
      · exact ha
      · exact hruns run hrun
    · rw [ht, hl, h, List.flatten_cons, List.append_assoc]

/-- A cascade runs a layer once for each call that the layer above it makes. -/
theorem trace_cascade {rules : List (Rule κ σ P)}
    (h : List.Forall₂ (fun l rule => Rule.Logs log l rule) layers rules) (context : κ) (s : P × σ) :
    ∃ added, Trace layers added ∧ log (Rule.cascade context rules s).2.2 = log s.2 ++ added := by
  induction h generalizing s with
  | nil => exact ⟨[], .nil, (List.append_nil _).symm⟩
  | @cons l rule layers rules hl _ ih =>
    obtain ⟨n, hn, u, hu, hcalls⟩ := hl context (Rule.cascade context rules) s
    obtain ⟨runs, rfl, hruns, ht⟩ := hcalls.trace ih
    refine ⟨l.label :: runs.flatten, .cons runs hn hruns, ?_⟩
    rw [Rule.cascade, ht, hu, List.append_assoc, List.singleton_append]

/-- Layers that run their parents at most once run once each, from the top down to the first that does not. -/
theorem Trace.isPrefix {added : List ι} (h : Trace layers added) (ho : ∀ l ∈ layers, ∀ n ∈ l.calls, n ≤ 1) :
    added <+: layers.map Layer.label := by
  induction h with
  | nil => exact List.prefix_rfl
  | @cons l below runs hn _ ih =>
    obtain ⟨hl, hbelow⟩ := List.forall_mem_cons.1 ho
    rw [List.map_cons, List.prefix_cons_inj]
    match runs, hl _ hn, ih with
    | [], _, _ => exact List.nil_prefix
    | [run], _, ih =>
      rw [List.flatten_singleton]
      exact ih run List.mem_cons_self hbelow

/-- Layers that run their parents exactly once run once each. -/
theorem Trace.eq_labels {added : List ι} (h : Trace layers added) (ho : ∀ l ∈ layers, l.calls = {1}) :
    added = layers.map Layer.label := by
  induction h with
  | nil => rfl
  | @cons l below runs hn _ ih =>
    obtain ⟨hl, hbelow⟩ := List.forall_mem_cons.1 ho
    rw [hl, Set.mem_singleton_iff, List.length_eq_one_iff] at hn
    obtain ⟨run, rfl⟩ := hn
    rw [List.flatten_singleton, ih run List.mem_cons_self hbelow, List.map_cons]

/-- Writes its name into the journal, and runs its parent. -/
def Rule.passing (name : String) : Rule Unit (List String) P := fun _ parent => do
  modify fun (proxy, log) => (proxy, log ++ [name])
  parent

theorem Rule.logs_passing (name : String) :
    Rule.Logs id ⟨name, {1}⟩ (Rule.passing name : Rule Unit (List String) P) := by
  intro context parent s
  exact ⟨1, rfl, (s.1, s.2 ++ [name]), rfl, .call rfl (.quiet rfl)⟩

/-! ### What is compiled from rules -/

/-- A rule is compiled from `rules`, in the order in which they were added, if there are any. It runs the last of them,
which has the one before as its parent, and so on down to the first, whose parent does nothing. -/
structure Layered (compiled : Option (Rule κ σ P)) (rules : List (Rule κ σ P)) : Prop where
  present : compiled.isSome ↔ rules ≠ []
  runs : ∀ rule ∈ compiled, ∀ context, rule context Rule.noop = Rule.cascade context rules.reverse
  /-- A rule that does not run its parent hides those that were added before it. -/
  hides : ∀ before top after, rules = before ++ top :: after → top.IgnoresParent → ∀ rule ∈ compiled,
    ∀ context, rule context Rule.noop = Rule.cascade context (top :: after).reverse
  /-- Each call of a parent runs the layer below once. -/
  logged : ∀ {ι : Type} (log : σ → List ι) (layers : List (Layer ι)),
    List.Forall₂ (fun l rule => Rule.Logs log l rule) layers rules.reverse → ∀ rule ∈ compiled, ∀ context s,
      ∃ added, log (rule context Rule.noop s).2.2 = log s.2 ++ added ∧ Trace layers added ∧
        ((∀ l ∈ layers, l.calls = {1}) → added = layers.map Layer.label) ∧
        ((∀ l ∈ layers, ∀ n ∈ l.calls, n ≤ 1) → added <+: layers.map Layer.label)

theorem layered_stack (rules : List (Rule κ σ P)) : Layered (stack rules) rules where
  present := isSome_stack rules
  runs := fun rule h context => run_stack h context
  hides := by
    rintro before top after rfl ht rule h context
    rw [stack_hides ht] at h
    exact run_stack h context
  logged := by
    intro ι log layers hl rule h context s
    obtain ⟨added, ha, hs⟩ := trace_cascade hl context s
    rw [run_stack h]
    exact ⟨added, hs, ha, ha.eq_labels, ha.isPrefix⟩

namespace Configuration

variable {p : Progress κ σ}

/-- The text rules of two configurations for one direction, in the order in which they are compiled. -/
def textRules (direction : TextEntry κ σ → Option (TextRule κ σ)) (custom default : Option (Configuration κ σ)) :
    List (TextRule κ σ) :=
  ([default, custom].filterMap id).filterMap fun configuration => configuration.text.bind direction

namespace Progress

theorem layerText_eq (present new : Option (TextRule κ σ)) : layerText present new = stackOver present new.toList := by
  cases new <;> rfl

/-- The entries of elements do not bear on the rules of text. -/
theorem text_addEntries (entries : List (String × ElementEntry κ σ)) :
    (p.addEntries entries).toDataText = p.toDataText ∧ (p.addEntries entries).toViewText = p.toViewText := by
  induction entries generalizing p with
  | nil => exact ⟨rfl, rfl⟩
  | cons e rest ih =>
    have hstep : (p.addEntry e.1 e.2).toDataText = p.toDataText ∧ (p.addEntry e.1 e.2).toViewText = p.toViewText := by
      rw [addEntry, addToView.eq_def, addToData.eq_def]
      split <;> split <;> exact ⟨rfl, rfl⟩
    exact ⟨ih.1.trans hstep.1, ih.2.trans hstep.2⟩

theorem text_add (configuration : Configuration κ σ) :
    (p.add configuration).toDataText = layerText p.toDataText (configuration.text.bind TextEntry.toData) ∧
      (p.add configuration).toViewText = layerText p.toViewText (configuration.text.bind TextEntry.toView) := by
  obtain ⟨hd, hv⟩ := p.text_addEntries configuration.elements
  rw [addEntries] at hd hv
  rw [add]
  cases configuration.text with
  | none => exact ⟨hd, hv⟩
  | some text => exact ⟨congrArg (layerText · text.toData) hd, congrArg (layerText · text.toView) hv⟩

/-- A text rule that each configuration layers over the one before is the stack of the rules of all configurations. -/
theorem foldl_text {text : Progress κ σ → Option (TextRule κ σ)} {direction : TextEntry κ σ → Option (TextRule κ σ)}
    (h : ∀ (p : Progress κ σ) c, text (p.add c) = layerText (text p) (c.text.bind direction))
    (configurations : List (Configuration κ σ)) :
    text (configurations.foldl add p) =
      stackOver (text p) (configurations.filterMap fun c => c.text.bind direction) := by
  induction configurations generalizing p with
  | nil => rfl
  | cons c rest ih =>
    rw [List.foldl_cons, ih, h, layerText_eq, List.filterMap_cons]
    cases c.text.bind direction <;> rfl

end Progress

theorem element?_toData (custom default : Option (Configuration κ σ)) (key : String) :
    (compile custom default).toData.element? key = stack (dataRules key (entries custom default)) := by
  show ((([default, custom].filterMap id).foldl Progress.add {}).toData).lookup key = _
  rw [(Progress.foldl_add_elements _ rfl rfl).1, Progress.lookup_addEntries]
  rfl

/-- The data rule of a key is layered from the data rules that the entries have for it, those of the default
configuration below those of the custom one. So is the text rule of each direction. -/
theorem compile_layered (custom default : Option (Configuration κ σ)) :
    (∀ key, Layered ((compile custom default).toData.element? key) (dataRules key (entries custom default))) ∧
      Layered (compile custom default).toData.text (textRules TextEntry.toData custom default) ∧
      Layered (compile custom default).toView.text (textRules TextEntry.toView custom default) := by
  have htext : (compile custom default).toData.text = stack (textRules TextEntry.toData custom default) :=
    Progress.foldl_text (fun p c => (p.text_add c).1) _
  have hview : (compile custom default).toView.text = stack (textRules TextEntry.toView custom default) :=
    Progress.foldl_text (fun p c => (p.text_add c).2) _
  refine ⟨fun key => ?_, ?_, ?_⟩
  · rw [element?_toData]
    exact layered_stack _
  · rw [htext]
    exact layered_stack _
  · rw [hview]
    exact layered_stack _

/-- Two entries for each of two keys; the later one for `q` does not run its parent. -/
def doubled : Configuration Unit (List String) where
  elements := [("p", { toData := some (Rule.passing "first") }), ("q", { toData := some (Rule.passing "first") }),
    ("p", { toData := some (Rule.passing "second") }), ("q", { toData := some (marking "second") })]

/-- A third entry for each of the two keys. -/
def third : Configuration Unit (List String) where
  elements := [("p", { toData := some (Rule.passing "third") }), ("q", { toData := some (Rule.passing "third") })]

/-- Three layers that all run their parents run once each. Where the second does not, the first is not run. -/
theorem doubled_below_third :
    (∃ rule ∈ (compile (some third) (some doubled)).toData.element? "p",
      (rule () Rule.noop (ElementProxy.ofNode .empty none .standard, [])).2.2 = ["third", "second", "first"]) ∧
    ∃ rule ∈ (compile (some third) (some doubled)).toData.element? "q",
      rule () Rule.noop = Rule.cascade () [Rule.passing "third", marking "second"] := by
  have hp := (compile_layered (some third) (some doubled)).1 "p"
  have hq := (compile_layered (some third) (some doubled)).1 "q"
  obtain ⟨rule, hrule⟩ := Option.isSome_iff_exists.1 (hp.present.2 (List.cons_ne_nil _ _))
  obtain ⟨other, hother⟩ := Option.isSome_iff_exists.1 (hq.present.2 (List.cons_ne_nil _ _))
  refine ⟨⟨rule, hrule, ?_⟩, other, hother, ?_⟩
  · obtain ⟨added, hlog, -, honce, -⟩ := hp.logged id [⟨"third", {1}⟩, ⟨"second", {1}⟩, ⟨"first", {1}⟩]
      (.cons (Rule.logs_passing _) (.cons (Rule.logs_passing _) (.cons (Rule.logs_passing _) .nil))) rule hrule ()
      (ElementProxy.ofNode .empty none .standard, [])
    have hadded : added = ["third", "second", "first"] := honce (by simp)
    rw [← hadded]
    exact hlog
  · exact hq.hides [Rule.passing "first"] (marking "second") [Rule.passing "third"] rfl (fun _ _ => rfl) other hother ()

end Configuration

end RichText
