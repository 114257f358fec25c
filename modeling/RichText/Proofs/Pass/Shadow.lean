import RichText.Proofs.Pass.Course

/-!
Passes that keep something beside the journal.

An action `Shadows` another one if it does the same and may beside it change a state of its own, of which the other
knows nothing. A filter whose rules shadow those of another one has passes that shadow those of the other, and so has
one that does something beside persisting. Whatever a pass is to keep is kept by its rules and its writers, and what the
pass does without it is told here for all of them.
-/

namespace RichText

open Effects

variable {ε κ σ γ P α β : Type}

/-- `x` does what `y` does, and to the state `γ` whatever it likes. -/
def Shadows (x : Action ε (σ × γ) P α) (y : Action ε σ P α) : Prop :=
  ∀ p j c, ∃ c', x (p, j, c) = ((y (p, j)).1, (y (p, j)).2.1, (y (p, j)).2.2, c')

namespace Shadows

variable {x : Action ε (σ × γ) P α} {y : Action ε σ P α}

theorem pure (a : α) : Shadows (Pure.pure a : Action ε (σ × γ) P α) (Pure.pure a) := fun _ _ c => ⟨c, rfl⟩

theorem throw (e : ε) : Shadows (throw e : Action ε (σ × γ) P α) (MonadExcept.throw e) := fun _ _ c => ⟨c, rfl⟩

theorem bind {g : α → Action ε (σ × γ) P β} {g' : α → Action ε σ P β} (h : Shadows x y)
    (hg : ∀ a, Shadows (g a) (g' a)) : Shadows (x >>= g) (y >>= g') := by
  intro p j c
  obtain ⟨c', hx⟩ := h p j c
  rw [run_bind, run_bind, hx]
  rcases y (p, j) with ⟨e | a, p', j'⟩
  · exact ⟨c', rfl⟩
  · exact hg a p' j' c'

/-- What is done first may write to the state `γ` alone. -/
theorem after {x' : Action ε (σ × γ) P Unit} (h : Shadows x' (Pure.pure ())) (hx : Shadows x y) :
    Shadows (x' >>= fun _ => x) y := by
  intro p j c
  obtain ⟨c', hc⟩ := h p j c
  rw [bind_ok hc]
  exact hx p j c'

theorem bind_get {g : P × σ × γ → Action ε (σ × γ) P β} {g' : P × σ → Action ε σ P β}
    (hg : ∀ p j c, Shadows (g (p, j, c)) (g' (p, j))) : Shadows (get >>= g) (get >>= g') :=
  fun p j c => hg p j c p j c

theorem runStages {persist : Action ε (σ × γ) P Response} {persist' : Action ε σ P Response}
    {finish : Action ε (σ × γ) P Ref} {finish' : Action ε σ P Ref}
    {stages : List (Action ε (σ × γ) P Unit)} {stages' : List (Action ε σ P Unit)}
    (hp : Shadows persist persist') (hf : Shadows finish finish') (hs : List.Forall₂ Shadows stages stages') :
    Shadows (runStages persist finish stages) (RichText.runStages persist' finish' stages') := by
  induction hs with
  | nil => exact hf
  | cons hx _ ih =>
    refine hx.bind fun _ => hp.bind fun response => ?_
    cases response with
    | proceed => exact ih
    | stop => exact pure _
    | restart node => exact pure _

theorem onTree {part : Ref → Pass (σ × γ) Unit} {part' : Ref → Pass σ Unit} (h : ∀ r, Shadows (part r) (part' r)) :
    Shadows (Filter.onTree part) (Filter.onTree part') := by
  intro q j c
  obtain ⟨c', hx⟩ := h q.delegate q.tree j c
  refine ⟨c', ?_⟩
  simp only [Filter.onTree, hx]
  rfl

theorem successor : Shadows (ElementProxy.successor : Action ε (σ × γ) ElementProxy Ref) ElementProxy.successor :=
  fun _ _ c => ⟨c, rfl⟩

theorem stage {x : RuleM (σ × γ) P α} {y : RuleM σ P α} (h : Shadows x y) :
    Shadows (Filter.stage x) (Filter.stage y) := by
  intro p j c
  obtain ⟨c', hx⟩ := h p j c
  refine ⟨c', ?_⟩
  rw [Filter.run_stage, Filter.run_stage, hx]

end Shadows

/-! ### Lists of entries -/

/-- An action after which an entry on it is made: from the proxy before it, its answer and the proxy after it. -/
def Action.noted {E : Type} (x : Action ε σ P α) (entry : P → Except ε α → P → E) : Action ε (σ × List E) P α :=
  fun (p, j, entries) =>
    let (answer, p', j) := x (p, j)
    (answer, p', j, entries ++ [entry p answer p'])

theorem Shadows.noted {E : Type} (x : Action ε σ P α) (entry : P → Except ε α → P → E) : Shadows (x.noted entry) x :=
  fun p j entries => ⟨entries ++ [entry p (x (p, j)).1 (x (p, j)).2.1], rfl⟩

/-! ### Passes -/

theorem Keyed.lookup_map_snd {β γ : Type} (g : String → β → γ) (l : List (String × β)) (key : String) :
    (l.map fun (k, v) => (k, g k v)).lookup key = (l.lookup key).map (g key) := by
  induction l with
  | nil => rfl
  | cons entry l ih =>
    obtain ⟨k, v⟩ := entry
    rw [List.map_cons, Keyed.lookup_cons_ite, Keyed.lookup_cons_ite, ih]
    split
    · rename_i hk
      rw [hk]
      rfl
    · rfl

/-- The rules of a set, each of them exchanged for another one. -/
def RuleSet.exchange {τ : Type} (element : String → ElementRule κ σ → ElementRule κ τ)
    (text : TextRule κ σ → TextRule κ τ) (rules : RuleSet κ σ) : RuleSet κ τ where
  elements := rules.elements.map fun (key, rule) => (key, element key rule)
  text := rules.text.map text

theorem RuleSet.element?_exchange {τ : Type} (element : String → ElementRule κ σ → ElementRule κ τ)
    (text : TextRule κ σ → TextRule κ τ) (rules : RuleSet κ σ) (key : String) :
    (rules.exchange element text).element? key = (rules.element? key).map (element key) :=
  Keyed.lookup_map_snd element rules.elements key

/-- `x` is a rule that does what the rule `y` does, and to the state `γ` whatever it likes. -/
def Rule.Shadows (context : κ) (x : Rule κ (σ × γ) P) (y : Rule κ σ P) : Prop :=
  RichText.Shadows (x context noop) (y context noop)

/-- The writers persist proxies, and beside that write to the state `γ` alone. -/
structure Writers.Shadow (w : Writers (σ × γ)) : Prop where
  arrive : ∀ parent node, Shadows (w.arrive parent node) (pure ())
  element : Shadows w.element (Rule.onProxy ElementProxy.persist)
  text : Shadows w.text (Rule.onProxy TextProxy.persist)

theorem Writers.plain_shadow : (Writers.plain : Writers (σ × γ)).Shadow :=
  ⟨fun _ _ => .pure (), fun _ _ c => ⟨c, rfl⟩, fun _ _ c => ⟨c, rfl⟩⟩

namespace Filter

/-- Filters a tree, and gives what is kept as well. -/
def applyBy (f : Filter κ (σ × γ)) (w : Writers (σ × γ)) (start : Ref) (tree : Tree) (journal : σ) (kept : γ) :
    (Except Halt Unit × Tree × σ) × γ :=
  let (answer, tree, journal, kept) := f.walkBy w tree.size start (tree.firstChild start) (tree, journal, kept)
  ((answer, tree, journal), kept)

/-- The rules of `f'` shadow those of `f`, key by key. -/
structure Overlays (f' : Filter κ (σ × γ)) (f : Filter κ σ) : Prop where
  namespaces : f'.namespaces = f.namespaces
  context : f'.context = f.context
  element : ∀ key, Option.Rel (Rule.Shadows f.context) (f'.rules.element? key) (f.rules.element? key)
  text : Option.Rel (Rule.Shadows f.context) f'.rules.text f.rules.text

/-- A filter whose rules are exchanged for such as shadow them. -/
theorem overlays_exchange (f : Filter κ σ) {element : String → ElementRule κ σ → ElementRule κ (σ × γ)}
    {text : TextRule κ σ → TextRule κ (σ × γ)} (he : ∀ key rule, Rule.Shadows f.context (element key rule) rule)
    (ht : ∀ rule, Rule.Shadows f.context (text rule) rule) :
    Overlays { f with rules := f.rules.exchange element text } f where
  namespaces := rfl
  context := rfl
  element key := by
    rw [RuleSet.element?_exchange]
    cases f.rules.element? key with
    | none => exact .none
    | some rule => exact .some (he key rule)
  text := by
    rw [RuleSet.exchange]
    cases f.rules.text with
    | none => exact .none
    | some rule => exact .some (ht rule)

namespace Overlays

variable {f' : Filter κ (σ × γ)} {f : Filter κ σ} {w : Writers (σ × γ)}

theorem keyStages_shadow (h : f'.Overlays f) (keys : List String) :
    List.Forall₂ Shadows (f'.keyStages keys) (f.keyStages keys) := by
  induction keys with
  | nil => exact .nil
  | cons key keys ih =>
    have hkey := h.element key
    rw [keyStages_cons, keyStages_cons]
    generalize f'.rules.element? key = r', f.rules.element? key = r at hkey ⊢
    cases hkey with
    | none => exact ih
    | some hrule => exact .cons (.stage (h.context ▸ hrule)) ih

theorem stages_shadow (h : f'.Overlays f) {descend : Ref → Pass (σ × γ) Unit} {descend' : Ref → Pass σ Unit}
    (hd : ∀ r, Shadows (descend r) (descend' r)) (tag : String) :
    List.Forall₂ Shadows (f'.stages descend tag) (f.stages descend' tag) := by
  rw [stages_eq, stages_eq]
  exact List.rel_append (h.keyStages_shadow _) (.cons (.onTree hd) (h.keyStages_shadow _))

theorem visitElement_shadows (h : f'.Overlays f) (hw : w.Shadow)
    {descend : Ref → Pass (σ × γ) Unit} {descend' : Ref → Pass σ Unit}
    (hd : ∀ r, Shadows (descend r) (descend' r)) (node : Nat) :
    Shadows (f'.visitElementBy w descend node) (f.visitElement descend' node) := by
  intro t j c
  let q := ElementProxy.ofNode t (some node) f.namespaces
  have hstages : Shadows (stagesBy w (f'.stages descend q.currentName))
      (throughStages (f.stages descend' q.currentName)) :=
    .runStages hw.element.stage .successor (h.stages_shadow hd _)
  obtain ⟨c', hr⟩ := hstages q j c
  refine ⟨c', ?_⟩
  have hrun : f.elementStages descend' node t j = throughStages (f.stages descend' q.currentName) (q, j) := rfl
  rw [run_visitElement, hrun, visitElementBy]
  simp only [h.namespaces, hr, q]

theorem visitText_shadows (h : f'.Overlays f) (hw : w.Shadow) (node : Nat) :
    Shadows (f'.visitTextBy w node) (f.visitText node) := by
  intro t j c
  have htext := h.text
  rw [visitTextBy, visitText]
  generalize f'.rules.text = r', f.rules.text = r at htext ⊢
  cases htext with
  | none => exact ⟨c, rfl⟩
  | @some rule' rule hrule =>
    have hstages : Shadows (runStages w.text (pure none) [rule' f'.context Rule.noop])
        (TextProxy.applyRules f.context [rule]) :=
      .runStages hw.text (.pure none) (.cons (h.context ▸ hrule) .nil)
    obtain ⟨c', hs⟩ := hstages.stage (TextProxy.ofNode t (some node)) j c
    refine ⟨c', ?_⟩
    simp only [hs]
    rfl

theorem visit_shadows (h : f'.Overlays f) (hw : w.Shadow) {descend : Ref → Pass (σ × γ) Unit}
    {descend' : Ref → Pass σ Unit} (hd : ∀ r, Shadows (descend r) (descend' r)) (node : Nat) :
    Shadows (f'.visitBy w descend node) (f.visit descend' node) := by
  refine .bind_get fun t j c => ?_
  dsimp only
  rcases t.kind? (some node) with _ | kind
  · exact .pure _
  · cases kind with
    | element => exact (h.visitElement_shadows hw hd node).bind fun _ => .pure _
    | text => exact (h.visitText_shadows hw node).bind fun _ => .pure _
    | _ => exact .pure _

theorem walk_shadows (h : f'.Overlays f) (hw : w.Shadow) (fuel : Nat) (parent r : Ref) :
    Shadows (f'.walkBy w fuel parent r) (f.walk fuel r) := by
  induction fuel generalizing parent r with
  | zero =>
    cases r with
    | none => exact .pure _
    | some node => exact .throw _
  | succ fuel ih =>
    cases r with
    | none => exact .pure _
    | some node =>
      have hvisit : Shadows (f'.comeTo w (fromFirst (f'.walkBy w fuel)) parent node)
          (f.visit (fromFirst fun _ => f.walk fuel) node) :=
        .after (hw.arrive parent node)
          (h.visit_shadows hw (fun p => .bind_get fun t _ _ => ih p (t.firstChild p)) node)
      exact hvisit.bind fun next => ih parent next

/-- Without what it keeps, a pass is the one that it shadows. -/
theorem applyBy_fst (h : f'.Overlays f) (hw : w.Shadow) (start : Ref) (t : Tree) (journal : σ) (kept : γ) :
    (f'.applyBy w start t journal kept).1 = f.apply start t journal := by
  obtain ⟨kept', hk⟩ := h.walk_shadows hw t.size start (t.firstChild start) t journal kept
  rw [applyBy, hk]
  rfl

end Overlays

end Filter

end RichText
