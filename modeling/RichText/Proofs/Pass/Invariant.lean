import RichText.Proofs.Pass.Reachable
import RichText.Proofs.Pass.Staying
import RichText.Proofs.Tree.Written

/-!
What the trees that calls and passes lead to have in common.

An invariant that the single edits preserve is preserved by every call and by every pass, even one that a rule's error
ends, so that every reachable tree has it. One such invariant is that of the stored strings: the empty string is the
first of them, and none is stored twice.
-/

namespace RichText

open RichText.Tree Effects
open Relation (ReflTransGen)

variable {κ σ : Type} {I : Tree → Prop} {f : Filter κ σ} {t : Tree}

/-! ### Stages -/

theorem preserves_runStages {ε P : Type} {J : P × σ → Prop} {persist : Action ε σ P Response}
    {finish : Action ε σ P Ref} {stages : List (Action ε σ P Unit)} (hp : Preserves J persist)
    (hf : Preserves J finish) (hs : ∀ stage ∈ stages, Preserves J stage) :
    Preserves J (runStages persist finish stages) := by
  induction stages with
  | nil => exact hf
  | cons stage rest ih =>
    have hrest := ih fun x hx => hs x (List.mem_cons_of_mem _ hx)
    refine (hs stage List.mem_cons_self).bind fun _ => hp.bind fun response => ?_
    cases response with
    | proceed => exact hrest
    | stop => exact .pure _
    | restart node => exact .pure _

/-- How an action fails does not matter to what it preserves. -/
theorem preserves_stage {P α : Type} {J : P × σ → Prop} {action : RuleM σ P α} (h : Preserves J action) :
    Preserves J (Filter.stage action) := fun s hs => h s hs

theorem preserves_onProxy {P α : Type} {J : P → Prop} {action : ProxyM P α} (h : Preserves J action) :
    Preserves (fun s : P × σ => J s.1) (Rule.onProxy action) := fun s hs => h s.1 hs

/-! ### Rules -/

theorem Tree.Sustained.elementSteps (h : Sustained I) {q q' : ElementProxy} (hs : ReflTransGen ElementProxy.Step q q')
    (hq : I q.tree) : I q'.tree :=
  holds_of_steps (P := fun q : ElementProxy => I q.tree) hs hq h.elementStep

theorem Tree.Passable.textSteps (h : Passable I) {r : Ref} {q q' : TextProxy} (hs : ReflTransGen TextProxy.Step q q')
    (hq : q.delegate = r ∧ I q.tree) : q'.delegate = r ∧ I q'.tree :=
  holds_of_steps (P := fun q : TextProxy => q.delegate = r ∧ I q.tree) hs hq (h.toMovable.textStep h.setText)

/-! ### Passes -/

namespace Filter

variable {descend : Ref → Pass σ Unit}

theorem preserves_visitElement (hf : f.ThroughProxies) (h : Passable I)
    (hd : ∀ r, Preserves (fun s => I s.1) (descend r)) (x : Nat) :
    Preserves (fun s : Tree × σ => I s.1) (f.visitElement descend x) := by
  rintro ⟨u, j⟩ hu
  let q := ElementProxy.ofNode u (some x) f.namespaces
  have hrule : ∀ {key rule}, f.rules.element? key = some rule →
      Preserves (fun s : ElementProxy × σ => I s.1.tree) (stage (rule f.context Rule.noop)) := fun hkey =>
    preserves_stage fun s hs => h.elementSteps (hf.element hkey s.1 s.2) hs
  have hstages : ∀ stage ∈ f.stages descend q.currentName,
      Preserves (fun s : ElementProxy × σ => I s.1.tree) stage := by
    intro stage hs
    rcases List.mem_append.1 hs with hs | hs
    · obtain ⟨rule, hr, rfl⟩ := List.mem_map.1 hs
      obtain ⟨key, -, hkey⟩ := List.mem_filterMap.1 hr
      exact hrule hkey
    rcases List.mem_cons.1 hs with rfl | hs
    · exact fun s ht => hd s.1.delegate (s.1.tree, s.2) ht
    · obtain ⟨rule, hr, rfl⟩ := List.mem_map.1 hs
      exact hrule (Option.mem_toList.1 hr)
  exact preserves_runStages (preserves_stage (preserves_onProxy h.persist)) (fun _ ht => ht) hstages (q, j) hu

theorem preserves_visitText (hf : f.ThroughProxies) (h : Passable I) (x : Nat) :
    Preserves (fun s : Tree × σ => I s.1) (f.visitText x) := by
  rintro ⟨u, j⟩ hu
  simp only [visitText]
  split
  · exact hu
  · rename_i rule hr
    have hpersist := preserves_onProxy (σ := σ) (h.toMovable.persistText (r := some x) h.setText)
    have hstages : ∀ stage ∈ [rule].map fun rule => rule f.context Rule.noop,
        Preserves (fun s : TextProxy × σ => s.1.delegate = some x ∧ I s.1.tree) stage := by
      intro stage hs
      rw [List.mem_singleton.1 hs]
      exact fun s hs => h.textSteps (hf.text hr s.1 s.2) hs
    have hrun := preserves_runStages hpersist (.pure none) hstages
    exact (preserves_stage hrun (TextProxy.ofNode u (some x), j) ⟨rfl, hu⟩).2

theorem preserves_visit (hf : f.ThroughProxies) (h : Passable I) (hd : ∀ r, Preserves (fun s => I s.1) (descend r))
    (x : Nat) : Preserves (fun s : Tree × σ => I s.1) (f.visit descend x) := by
  refine .bind_get fun s _ => ?_
  dsimp only
  split
  · exact (preserves_visitElement hf h hd x).bind fun _ => .pure _
  · exact (preserves_visitText hf h x).bind fun _ => .pure _
  · exact .pure _

/-- A walk consists of visits, also where it runs out of fuel. -/
theorem preserves_walk (hf : f.ThroughProxies) (h : Passable I) (fuel : Nat) (r : Ref) :
    Preserves (fun s : Tree × σ => I s.1) (f.walk fuel r) := by
  induction fuel generalizing r with
  | zero =>
    cases r with
    | none => exact .pure _
    | some x => exact .throw _
  | succ fuel ih =>
    cases r with
    | none => exact .pure _
    | some x =>
      exact (preserves_visit hf h (fun _ => .bind_get fun _ _ => ih _) x).bind fun next => ih next

theorem preserves_run (hf : f.ThroughProxies) (h : Passable I) (start : Ref) :
    Preserves (fun s : Tree × σ => I s.1) (f.run start) :=
  .bind_get fun _ _ => preserves_walk hf h _ _

end Filter

/-! ### Reachable trees -/

namespace Tree

/-- What the empty tree has and the single edits preserve, all reachable trees have. -/
theorem Reachable.invariant (h : t.Reachable) (hi : Invariant I) (he : I .empty) : I t := by
  induction h with
  | empty => exact he
  | call _ call ih => exact hi.call call _ ih
  | pass _ hf start journal ih => exact Filter.preserves_run hf hi.passable start (_, journal) ih

end Tree

/-- The first stored string is the empty one, and no string is stored twice. -/
structure SymbolTable.Sound (table : SymbolTable) : Prop where
  blank : table.strings[0]? = some ""
  distinct : table.Distinct

namespace SymbolTable

variable {table : SymbolTable}

theorem sound_initial : initial.Sound := ⟨rfl, indexed_empty.distinct⟩

theorem Sound.intern (h : table.Sound) (s : String) : (table.intern s).2.Sound := by
  obtain ⟨⟨more, hx⟩, -⟩ := table.intern_spec s
  refine ⟨?_, h.distinct.intern s⟩
  obtain ⟨hlt, hblank⟩ := Array.getElem?_eq_some_iff.1 h.blank
  rw [hx, Array.getElem?_append_left hlt]
  exact h.blank

theorem Sound.zero_lt (h : table.Sound) : 0 < table.size := (Array.getElem?_eq_some_iff.1 h.blank).1

theorem Sound.resolve_zero (h : table.Sound) : table.resolve 0 = "" := by
  rw [resolve, Array.getD_eq_getD_getElem?, h.blank]
  rfl

/-- Symbol 0 stands for the empty string, and no other stored symbol does. -/
theorem Sound.resolve_eq_empty_iff (h : table.Sound) {s : Symbol} (hs : s < table.size) :
    table.resolve s = "" ↔ s = 0 :=
  ⟨fun he => h.distinct.inj hs h.zero_lt (he.trans h.resolve_zero.symm), fun he => he ▸ h.resolve_zero⟩

end SymbolTable

namespace Tree

/-- No edit but storing strings changes the stored strings. -/
theorem invariant_sound : Invariant fun t => t.symbols.Sound where
  store s h := h.intern s
  attributes r new h := (symbols_putAttributes r new).symm ▸ h
  detach hu h := (sameData_of_detach hu).symbols.symm ▸ h
  insertBefore hu h := (sameData_of_insertBefore hu).symbols.symm ▸ h
  push _ h := h
  setText hu h := (symbols_of_setText hu).symm ▸ h

theorem Reachable.sound (h : t.Reachable) : t.symbols.Sound := h.invariant invariant_sound SymbolTable.sound_initial

/-- All names of the tree are names whose parts it stores. -/
def Interned (t : Tree) : Prop := ∀ n ∈ t.nodes, ∀ s ∈ n.data.parts, s < t.symbols.size

instance (t : Tree) : Decidable t.Interned :=
  decidable_of_iff (∀ n ∈ t.nodes.toList, ∀ s ∈ n.data.parts, s < t.symbols.size) (by simp [Interned])

theorem Reachable.indexed (h : t.Reachable) (hi : t.Interned) : t.Indexed :=
  ⟨⟨h.sound.blank, hi⟩, h.sound.distinct⟩

end Tree

end RichText
