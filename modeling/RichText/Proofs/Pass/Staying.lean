import RichText.Proofs.Pass.Rules
import RichText.Proofs.Proxy.Lasting

/-!
Visits in which the node stays.

A rule that never fails and lets its node stay leaves a delegate in the place of the node, above the same children.
Persisting puts an element into the namespace that a buffered `xmlns` asks for, and into the default namespace where
none is buffered: that an earlier persisting moved the element into another one is not remembered.
-/

namespace RichText

open RichText.Tree Effects
open Relation (ReflTransGen)

variable {κ σ : Type} {o : Cursor} {d : Nat} {below : Forest Nat} {I : Tree → Prop}

/-! ### Rules that let their nodes stay -/

/-- The rule never fails on an element that is to stay, and whatever it does through its proxy the element is still
to stay. -/
def KeepsElement (context : κ) (rule : ElementRule κ σ) : Prop :=
  ∀ q j, q.isMutable = true → q.fate = .keep → ∃ q' j', rule context Rule.noop (q, j) = (.ok (), q', j') ∧
    ReflTransGen (fun p p' => ElementProxy.Step p p' ∧ p'.fate = .keep) q q'

/-- The rule never fails on a text that is to stay, and whatever it does through its proxy the text is still to
stay. -/
def KeepsText (context : κ) (rule : TextRule κ σ) : Prop :=
  ∀ q j, q.isMutable = true → q.fate = .keep → ∃ q' j', rule context Rule.noop (q, j) = (.ok (), q', j') ∧
    ReflTransGen (fun p p' => TextProxy.Step p p' ∧ p'.fate = .keep) q q'

/-- The rule leaves an `xmlns` buffered that asks for this namespace, or leaves none buffered. -/
def PendsNamespace (context : κ) (rule : ElementRule κ σ) (space : Option String) : Prop :=
  ∀ q j, q.isMutable = true → q.fate = .keep → q.pendingNamespace = none →
    (rule context Rule.noop (q, j)).2.1.pendingNamespace = space

theorem Tree.Sustained.elementStep (h : Sustained I) {q q' : ElementProxy} (hs : ElementProxy.Step q q')
    (hq : I q.tree) : I q'.tree := by
  cases hs with
  | buffer => exact hq
  | persist => exact h.persist q hq
  | persistContent => exact h.persistContent q hq
  | persistNode => exact preserves_onElement h.persistNode q hq
  | replaceBy name space => exact h.replaceBy name space q hq

/-- The proxy of a text node moves its delegate and writes the text of its delegate alone. -/
theorem Tree.Movable.textStep (h : Movable I) {r : Ref}
    (hs : ∀ {t u : Tree} {content : String}, t.setText r content = .ok u → I t → I u) {q q' : TextProxy}
    (hstep : TextProxy.Step q q') (hq : q.delegate = r ∧ I q.tree) : q'.delegate = r ∧ I q'.tree := by
  cases hstep with
  | buffer => exact hq
  | persist => exact h.persistText hs q hq
  | persistContent => exact preserves_persistText hs q hq
  | persistNode => exact preserves_onText (h.persistNode r) q hq

/-! ### Elements -/

/-- An element is in some namespace. -/
theorem Tree.exists_namespace_of_kind {t : Tree} {x : Nat} (h : t.kind? (some x) = some .element) :
    ∃ space, t.namespace? (some x) = some space := by
  obtain ⟨name, attributes, hc⟩ := exists_element_of_kind h
  refine ⟨name.space, ?_⟩
  rw [namespace?, name?, content_of_lt (lt_of_kind h), hc]
  rfl

namespace OnElement

variable {q : ElementProxy} {place : Place}

/-- The element that replaces the delegate is a new one with the name and in the namespace that were asked for. -/
theorem replaceBy_name (h : OnElement o q d below place) (hn : q.tree.Named) (name : String)
    (space : Option String) :
    ∃ q', ElementProxy.replaceBy name space q = (.ok .proceed, q') ∧ OnElement o q' q.tree.size below place ∧
      q'.fate = q.fate ∧ q'.pendingName = q.pendingName ∧ q'.overrides = q.overrides ∧
      q'.tree.name? (some q.tree.size) = some (.ofWritten (q.spaceFor space) name) := by
  obtain ⟨u, hu, hv⟩ := h.visiting.renew h.kind q.namespaces (q.spaceFor space) name q.entries
  have hname := hn.name?_renew q.namespaces (some d) (q.spaceFor space) name q.entries
  rw [hu] at hname
  refine ⟨_, ElementProxy.replaceBy_ok h.isMutable (h.delegate.symm ▸ hu), ?_, rfl, rfl, rfl, hname⟩
  exact ⟨hv, rfl, h.isMutable, h.element, .inr rfl⟩

/-- The element that replaces the delegate is in the namespace that was asked for. -/
theorem replaceBy_space (h : OnElement o q d below place) (hn : q.tree.Named) (name : String)
    (space : Option String) :
    ∃ d' q', ElementProxy.replaceBy name space q = (.ok .proceed, q') ∧ OnElement o q' d' below place ∧
      q'.fate = q.fate ∧ q'.overrides = q.overrides ∧ q'.tree.namespace? (some d') = some (q.spaceFor space) := by
  obtain ⟨q', hq, ho, hf, -, hov, hname⟩ := h.replaceBy_name hn name space
  exact ⟨_, q', hq, ho, hf, hov, by rw [Tree.namespace?, hname, Option.map_some, space_ofWritten]⟩

/-- Writing the buffered name and attributes puts the element into the namespace that is asked for, and into the
default namespace where none is. -/
theorem persistContent_space (h : OnElement o q d below place) (hn : q.tree.Named) :
    ∃ d' q', ElementProxy.persistContent q = (.ok .proceed, q') ∧ OnElement o q' d' below place ∧
      q'.fate = q.fate ∧ q'.pendingNamespace = none ∧ q'.tree.namespace? (some d') = some (q.spaceFor none) := by
  rcases h.persistContent_cases with ⟨name, q', hr, hq⟩ | ⟨hnew, u, hu, hs, hq⟩
  · obtain ⟨d', q'', hr', h', hf, -, hspace⟩ := (h.buffer q.fate none q.overrides).replaceBy_space hn name none
    obtain rfl : q' = q'' := congrArg Prod.snd (hr.symm.trans hr')
    exact ⟨d', _, hq, h'.buffer q'.fate q'.pendingName [], hf, rfl, hspace⟩
  · have hrecalls := (lasting_recalls q.tree).steady.writeAttributes q.namespaces (some d) q.overrides q.tree (.refl hn)
    rw [hu] at hrecalls
    -- an element that is written to in place is in the default namespace, and no `xmlns` is buffered
    obtain ⟨space, hspace⟩ := exists_namespace_of_kind h.kind
    obtain ⟨hdefault, hpending⟩ := not_or.1 hnew
    rw [h.delegate, hspace, Option.getD_some, not_not] at hdefault
    have hnone : q.pendingNamespace = none := Option.not_isSome_iff_eq_none.1 hpending
    have hfor : q.spaceFor none = space := by rw [ElementProxy.spaceFor, hnone, hdefault]; rfl
    refine ⟨d, _, hq, ⟨h.visiting.write hs, h.delegate, h.isMutable, h.element, h.replacement⟩, rfl, rfl, ?_⟩
    rw [hrecalls.namespace? hn h.visiting.delegate_lt, hspace, hfor]

end OnElement

/-- The delegate stays in its place above `below`, and no name was changed since the visit began. -/
structure Staying (o : Cursor) (q : ElementProxy) (d : Nat) (below : Forest Nat) : Prop extends
    OnElement o q d below .attached where
  recalls : o.tree.Recalls q.tree
  fate : q.fate = .keep

namespace Staying

variable {q q' : ElementProxy}

theorem begin (h : o.tree.Ahead o.parent o.before o.ahead) (hn : o.tree.Named)
    (he : o.tree.kind? (some o.node) = some .element) (namespaces : NamespaceTable) :
    Staying o (ElementProxy.ofNode o.tree (some o.node) namespaces) o.node o.below :=
  ⟨⟨.begin h, rfl, rfl, he, .inl rfl⟩, .refl hn, rfl⟩

/-- The element that replaces the delegate is in the namespace that was asked for. -/
theorem replaceBy (h : Staying o q d below) (name : String) (space : Option String) :
    ∃ d' q', ElementProxy.replaceBy name space q = (.ok .proceed, q') ∧ Staying o q' d' below ∧
      q'.tree.namespace? (some d') = some (q.spaceFor space) := by
  have hr := (lasting_recalls o.tree).steady.replaceBy name space q h.recalls
  obtain ⟨d', q', hq, ho, hf, -, hspace⟩ := h.replaceBy_space h.recalls.named name space
  rw [hq] at hr
  exact ⟨d', q', hq, ⟨ho, hr, hf.trans h.fate⟩, hspace⟩

/-- Writing the buffered name and attributes puts the element into the namespace that is asked for, and into the
default namespace where none is. -/
theorem persistContent (h : Staying o q d below) :
    ∃ d' q', ElementProxy.persistContent q = (.ok .proceed, q') ∧ Staying o q' d' below ∧
      q'.pendingNamespace = none ∧ q'.tree.namespace? (some d') = some (q.spaceFor none) := by
  have hr := (lasting_recalls o.tree).steady.persistContent q h.recalls
  obtain ⟨d', q', hq, ho, hf, hp, hspace⟩ := h.persistContent_space h.recalls.named
  rw [hq] at hr
  exact ⟨d', q', hq, ⟨ho, hr, hf.trans h.fate⟩, hp, hspace⟩

/-- Where the element stays, persisting is writing its name and attributes. -/
theorem persist_eq (h : Staying o q d below) : ElementProxy.persist q = ElementProxy.persistContent q :=
  ElementProxy.persist_content h.isMutable (NodeProxy.settle_keep h.fate)

/-- An operation after which the element is still to stay. -/
theorem step (h : Staying o q d below) (hs : ElementProxy.Step q q') (hf : q'.fate = .keep) :
    ∃ d', Staying o q' d' below := by
  have hr := (lasting_recalls o.tree).steady.elementStep hs h.recalls
  cases hs with
  | buffer fate pendingName overrides => exact ⟨d, h.toOnElement.buffer fate pendingName overrides, hr, hf⟩
  | persist =>
    obtain ⟨d', q', hq, h', -⟩ := h.persistContent
    rw [h.persist_eq, hq]
    exact ⟨d', h'⟩
  | persistContent =>
    obtain ⟨d', q', hq, h', -⟩ := h.persistContent
    rw [hq]
    exact ⟨d', h'⟩
  | persistNode =>
    rw [ElementProxy.onNode_ok (NodeProxy.persist_keep h.fate)]
    exact ⟨d, h⟩
  | replaceBy name space =>
    obtain ⟨d', q', hq, h', -⟩ := h.replaceBy name space
    rw [hq]
    exact ⟨d', h'⟩

/-- A rule that lets the element stay. -/
theorem rule (h : Staying o q d below) {context : κ} {rule : ElementRule κ σ} (hr : KeepsElement context rule)
    (j : σ) :
    ∃ d' q' j', rule context Rule.noop (q, j) = (.ok (), q', j') ∧ Staying o q' d' below ∧
      q.tree.Recalls q'.tree := by
  obtain ⟨q', j', hrun, hsteps⟩ := hr q j h.isMutable h.fate
  suffices hstay : (∃ d', Staying o q' d' below) ∧ q.tree.Recalls q'.tree by
    obtain ⟨⟨d', h'⟩, hrecalls⟩ := hstay
    exact ⟨d', q', j', hrun, h', hrecalls⟩
  clear hrun
  induction hsteps with
  | refl => exact ⟨⟨d, h⟩, .refl h.recalls.named⟩
  | tail _ hs ih =>
    obtain ⟨⟨d', h'⟩, hrecalls⟩ := ih
    exact ⟨h'.step hs.1 hs.2, (lasting_recalls q.tree).steady.elementStep hs.1 hrecalls⟩

end Staying

/-! ### Text nodes -/

/-- The text stays in its place, and no name was changed since the visit began. -/
structure TextStaying (o : Cursor) (q : TextProxy) : Prop extends OnText o q o.below .attached where
  recalls : o.tree.Recalls q.tree
  fate : q.fate = .keep

theorem recalls_textStep {t : Tree} {q q' : TextProxy} (hs : TextProxy.Step q q') (h : t.Recalls q.tree) :
    t.Recalls q'.tree :=
  ((lasting_recalls t).steady.textStep (lasting_recalls t).setText hs ⟨rfl, h⟩).2

namespace TextStaying

variable {q q' : TextProxy}

theorem begin (h : o.tree.Ahead o.parent o.before o.ahead) (hn : o.tree.Named)
    (ht : o.tree.kind? (some o.node) = some .text) : TextStaying o (TextProxy.ofNode o.tree (some o.node)) :=
  ⟨⟨.begin h, rfl, rfl, ht⟩, .refl hn, rfl⟩

theorem persist (h : TextStaying o q) :
    ∃ q', TextProxy.persist q = (.ok .proceed, q') ∧ TextStaying o q' := by
  have hr := recalls_textStep (.persist q) h.recalls
  obtain ⟨q', hq, ho, hf⟩ := h.toOnText.persist
  rw [h.fate] at hq ho
  rw [hq] at hr
  exact ⟨q', hq, ho, hr, hf.trans h.fate⟩

/-- An operation after which the text is still to stay. -/
theorem step (h : TextStaying o q) (hs : TextProxy.Step q q') (hf : q'.fate = .keep) : TextStaying o q' := by
  have hr := recalls_textStep hs h.recalls
  cases hs with
  | buffer fate pendingText => exact ⟨h.toOnText.buffer fate pendingText, hr, hf⟩
  | persist =>
    obtain ⟨q', hq, h'⟩ := h.persist
    rw [hq]
    exact h'
  | persistContent =>
    obtain ⟨q', hq, ho, -⟩ := h.toOnText.persistContent
    rw [hq] at hr hf ⊢
    exact ⟨ho, hr, hf⟩
  | persistNode =>
    rw [TextProxy.onNode_ok (NodeProxy.persist_keep h.fate)]
    exact h

/-- A rule that lets the text stay. -/
theorem rule (h : TextStaying o q) {context : κ} {rule : TextRule κ σ} (hr : KeepsText context rule) (j : σ) :
    ∃ q' j', rule context Rule.noop (q, j) = (.ok (), q', j') ∧ TextStaying o q' := by
  obtain ⟨q', j', hrun, hsteps⟩ := hr q j h.isMutable h.fate
  exact ⟨q', j', hrun, holds_of_steps hsteps h fun hs ih => ih.step hs.1 hs.2⟩

end TextStaying

/-- One rule on a text, and what it left is persisted. -/
theorem TextProxy.applyRules_ok {context : κ} {rule : TextRule κ σ} {q q₁ q₂ : TextProxy} {j j₁ : σ}
    (hrun : rule context Rule.noop (q, j) = (.ok (), q₁, j₁)) (hq : TextProxy.persist q₁ = (.ok .proceed, q₂)) :
    TextProxy.applyRules context [rule] (q, j) = (.ok none, q₂, j₁) := by
  have hpersist : (Rule.onProxy TextProxy.persist : RuleM σ TextProxy Response) (q₁, j₁) = (.ok .proceed, q₂, j₁) := by
    simp only [Rule.onProxy, hq]
  rw [applyRules, List.map_singleton, runStages, bind_ok hrun, bind_ok hpersist]
  rfl

end RichText
