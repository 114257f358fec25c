import RichText.Proofs.Pass.Visiting
import RichText.Proofs.Proxy.Persist

/-!
Persisting the proxy of a visit.

Inside a visit persisting never fails. Its answer is fixed by the fate that the proxy recorded and by what is
below the delegate, and so is what is left in the place of the visited node.
-/

namespace RichText

open RichText.Tree Effects

variable {o : Cursor} {d : Nat} {below : Forest Nat} {place : Place}

namespace Fate

/-- What carrying out a fate answers; nothing where the node's other changes are still to be written. -/
def outcome (below : Forest Nat) : Fate → Option Response
  | keep | clear => none
  | remove => some .stop
  | unwrap => some (NodeProxy.afterUnwrap below.roots.head?)

/-- What carrying out a fate leaves below the delegate. -/
def remaining (below : Forest Nat) : Fate → Place → Forest Nat
  | clear, _ | unwrap, .attached => .nil
  | _, _ => below

/-- What carrying out a fate leaves in the place of the visited node. -/
def vacate (below : Forest Nat) : Fate → Place → Place
  | keep, place | clear, place => place
  | remove, place => place.leave .nil
  | unwrap, place => place.leave below

end Fate

/-- Carrying out the fate of a delegate never fails. -/
theorem Visiting.settle {p : NodeProxy} (h : Visiting o p.tree d below place) (hd : p.delegate = some d) :
    ∃ u, NodeProxy.settle p = (.ok (p.fate.outcome below), { p with tree := u }) ∧
      Visiting o u d (p.fate.remaining below place) (p.fate.vacate below place) := by
  obtain ⟨t, delegate, isMutable, fate⟩ := p
  obtain rfl : delegate = some d := hd
  cases fate with
  | keep => exact ⟨t, NodeProxy.settle_keep rfl, h⟩
  | remove =>
    obtain ⟨u, hu, hv⟩ := h.remove
    exact ⟨u, NodeProxy.settle_remove rfl hu, by cases place <;> exact hv⟩
  | clear =>
    obtain ⟨u, hu, hv⟩ := h.clear
    exact ⟨u, NodeProxy.settle_clear rfl hu, by cases place <;> exact hv⟩
  | unwrap =>
    have hc : NodeProxy.afterUnwrap (t.firstChild (some d)) = NodeProxy.afterUnwrap below.roots.head? := by
      rw [h.inner.firstChild]
    cases place with
    | attached =>
      obtain ⟨u, hu, hv⟩ := h.unwrap
      exact ⟨u, by rw [NodeProxy.settle_unwrap rfl hu, hc]; rfl, hv⟩
    -- an element in no list has no place that its children could take
    | vacated present =>
      have hu : t.unwrap (some d) = .ok t := unwrap_of_orphan h.parent_of_left
      exact ⟨t, by rw [NodeProxy.settle_unwrap rfl hu, hc]; rfl, h⟩

/-! ### Elements -/

/-- The proxy of a visit to an element. -/
structure OnElement (o : Cursor) (p : ElementProxy) (d : Nat) (below : Forest Nat) (place : Place) : Prop where
  visiting : Visiting o p.tree d below place
  delegate : p.delegate = some d
  isMutable : p.isMutable = true
  element : o.tree.kind? (some o.node) = some .element
  replacement : p.replacement = none ∨ p.replacement = some d

namespace OnElement

variable {p : ElementProxy}

theorem kind (h : OnElement o p d below place) : p.tree.kind? (some d) = some .element :=
  h.visiting.kind.trans h.element

/-- What is buffered does not matter. -/
theorem buffer (h : OnElement o p d below place) (fate : Fate) (pendingName : Option String)
    (overrides : List (String × Option String)) :
    OnElement o { p with fate, pendingName, overrides } d below place :=
  ⟨h.visiting, h.delegate, h.isMutable, h.element, h.replacement⟩

/-- A walk through the children of the delegate. -/
theorem descend (h : OnElement o p d below place) {u : Tree} {below' : Forest Nat}
    (ht : p.tree.Turned d [] below u below') : OnElement o { p with tree := u } d below' place :=
  ⟨h.visiting.descend ht, h.delegate, h.isMutable, h.element, h.replacement⟩

/-- After the last stage the walk goes on at what follows the replacement, or at what followed the element. -/
theorem successor {ε σ : Type} (h : OnElement o p d below .attached) (journal : σ) :
    ∃ next, (ElementProxy.successor : Action ε σ ElementProxy Ref) (p, journal) = (.ok next, p, journal) ∧
      (next = none ∨ next = o.rest.roots.head?) := by
  refine ⟨p.replacement.bind fun new => p.tree.nextSibling (some new), rfl, ?_⟩
  rcases h.replacement with hr | hr
  · exact .inl (by rw [hr]; rfl)
  · rw [hr, Option.bind_some]
    exact .inr (h.visiting.ahead.linked.nextSibling h.visiting.list_attached)

/-- Replacing the delegate never fails. -/
theorem replaceBy (h : OnElement o p d below place) (name : String) (space : Option String) :
    ∃ d' p', ElementProxy.replaceBy name space p = (.ok .proceed, p') ∧ OnElement o p' d' below place ∧
      p'.fate = p.fate := by
  obtain ⟨u, hu, hv⟩ := h.visiting.renew h.kind p.namespaces (p.spaceFor space) name p.entries
  have hr := ElementProxy.replaceBy_ok h.isMutable (h.delegate.symm ▸ hu)
  exact ⟨_, _, hr, ⟨hv, rfl, h.isMutable, h.element, .inr rfl⟩, rfl⟩

/-- Writing the buffered name and attributes either replaces the delegate or writes to it in place. -/
theorem persistContent_cases (h : OnElement o p d below place) :
    (∃ name p', ElementProxy.replaceBy name none { p with pendingName := none } = (.ok .proceed, p') ∧
        ElementProxy.persistContent p = (.ok .proceed, { p' with overrides := [] })) ∨
      ¬ p.needsNew ∧ ∃ u, Edit.writeAttributes p.namespaces (some d) p.overrides p.tree = (.ok (), u) ∧
        p.tree.SameShape u ∧
        ElementProxy.persistContent p =
          (.ok .proceed, { p with tree := u, pendingName := none, overrides := [] }) := by
  have hb := h.buffer p.fate none p.overrides
  by_cases hr : ∃ name, p.pendingName = some name ∧ name ≠ p.liveName
  · obtain ⟨name, hname, hne⟩ := hr
    obtain ⟨_, p', hp, -⟩ := hb.replaceBy name none
    exact .inl ⟨name, p', hp, ElementProxy.persistContent_renamed hname hne hp⟩
  · have hsame : ∀ name, p.pendingName = some name → name = p.liveName := fun name hname =>
      by_contra fun hne => hr ⟨name, hname, hne⟩
    by_cases hn : p.needsNew
    · have hn' : ElementProxy.needsNew { p with pendingName := none } := hn
      obtain ⟨_, p', hp, -⟩ := hb.replaceBy (ElementProxy.currentName { p with pendingName := none }) none
      have hw := (ElementProxy.persistAttributes_new hn').trans hp
      exact .inl ⟨_, p', hp, ElementProxy.persistContent_attributes hsame hw⟩
    · have hn' : ¬ ElementProxy.needsNew { p with pendingName := none } := hn
      obtain ⟨⟨⟩, u, hu, hs⟩ := Writes.writeAttributes p.namespaces h.kind p.overrides
      have hw := ElementProxy.persistAttributes_same hn' (h.delegate.symm ▸ hu)
      exact .inr ⟨hn, u, hu, hs, ElementProxy.persistContent_attributes hsame hw⟩

/-- Writing the buffered name and attributes never fails. -/
theorem persistContent (h : OnElement o p d below place) :
    ∃ d' p', ElementProxy.persistContent p = (.ok .proceed, p') ∧ OnElement o p' d' below place ∧
      p'.fate = p.fate := by
  rcases h.persistContent_cases with ⟨name, p', hr, hp⟩ | ⟨-, u, -, hs, hp⟩
  · obtain ⟨d', p'', hr', ho, hf⟩ := (h.buffer p.fate none p.overrides).replaceBy name none
    obtain rfl : p' = p'' := congrArg Prod.snd (hr.symm.trans hr')
    exact ⟨d', _, hp, ho.buffer _ _ _, hf⟩
  · exact ⟨d, _, hp, ⟨h.visiting.write hs, h.delegate, h.isMutable, h.element, h.replacement⟩, rfl⟩

theorem settle (h : OnElement o p d below place) :
    ∃ q, NodeProxy.settle p.toNodeProxy = (.ok (p.fate.outcome below), q) ∧ q.fate = p.fate ∧
      OnElement o { p with toNodeProxy := q } d (p.fate.remaining below place) (p.fate.vacate below place) := by
  obtain ⟨u, hu, hv⟩ := h.visiting.settle h.delegate
  exact ⟨_, hu, rfl, hv, h.delegate, h.isMutable, h.element, h.replacement⟩

/-- Persisting never fails, and answers as the recorded fate has it. Carrying out the fate keeps the delegate,
writing the rest may replace it. -/
theorem persist (h : OnElement o p d below place) :
    ∃ d' p', ElementProxy.persist p = (.ok ((p.fate.outcome below).getD .proceed), p') ∧
      OnElement o p' d' (p.fate.remaining below place) (p.fate.vacate below place) ∧ p'.fate = p.fate ∧
      ∃ t, Visiting o t d (p.fate.remaining below place) (p.fate.vacate below place) := by
  obtain ⟨q, hq, hf, ho⟩ := h.settle
  cases hc : p.fate.outcome below with
  | some response =>
    exact ⟨d, _, ElementProxy.persist_settled h.isMutable (hc ▸ hq), ho, hf, _, ho.visiting⟩
  | none =>
    obtain ⟨d', p', hp, ho', hf'⟩ := ho.persistContent
    have hp' := (ElementProxy.persist_content h.isMutable (hc ▸ hq)).trans hp
    exact ⟨d', p', hp', ho', hf'.trans hf, _, ho.visiting⟩

end OnElement

/-! ### Text nodes -/

/-- The proxy of a visit to a text node. -/
structure OnText (o : Cursor) (p : TextProxy) (below : Forest Nat) (place : Place) : Prop where
  visiting : Visiting o p.tree o.node below place
  delegate : p.delegate = some o.node
  isMutable : p.isMutable = true
  text : o.tree.kind? (some o.node) = some .text

namespace OnText

variable {p : TextProxy}

theorem buffer (h : OnText o p below place) (fate : Fate) (pendingText : Option String) :
    OnText o { p with fate, pendingText } below place :=
  ⟨h.visiting, h.delegate, h.isMutable, h.text⟩

/-- Writing the buffered text never fails. -/
theorem persistContent (h : OnText o p below place) :
    ∃ p', TextProxy.persistContent p = (.ok .proceed, p') ∧ OnText o p' below place ∧ p'.fate = p.fate := by
  by_cases hn : ∃ text, p.pendingText = some text ∧ p.tree.text? p.delegate ≠ some text
  · obtain ⟨text, hp, hne⟩ := hn
    obtain ⟨u, hu, hs⟩ := exists_setText (h.visiting.kind.trans h.text) text
    have hw := TextProxy.persistContent_text hp hne (h.delegate.symm ▸ hu)
    exact ⟨_, hw, ⟨h.visiting.write hs, h.delegate, h.isMutable, h.text⟩, rfl⟩
  · have hsame : ∀ text, p.pendingText = some text → p.tree.text? p.delegate = some text := fun text hp =>
      by_contra fun hne => hn ⟨text, hp, hne⟩
    exact ⟨_, TextProxy.persistContent_same hsame, h.buffer p.fate none, rfl⟩

theorem settle (h : OnText o p below place) :
    ∃ q, NodeProxy.settle p.toNodeProxy = (.ok (p.fate.outcome below), q) ∧ q.fate = p.fate ∧
      OnText o { p with toNodeProxy := q } (p.fate.remaining below place) (p.fate.vacate below place) := by
  obtain ⟨u, hu, hv⟩ := h.visiting.settle h.delegate
  exact ⟨_, hu, rfl, hv, h.delegate, h.isMutable, h.text⟩

/-- Persisting never fails, and answers as the recorded fate has it. -/
theorem persist (h : OnText o p below place) :
    ∃ p', TextProxy.persist p = (.ok ((p.fate.outcome below).getD .proceed), p') ∧
      OnText o p' (p.fate.remaining below place) (p.fate.vacate below place) ∧ p'.fate = p.fate := by
  obtain ⟨q, hq, hf, ho⟩ := h.settle
  cases hc : p.fate.outcome below with
  | some response => exact ⟨_, TextProxy.persist_settled h.isMutable (hc ▸ hq), ho, hf⟩
  | none =>
    obtain ⟨p', hp, ho', hf'⟩ := ho.persistContent
    exact ⟨p', (TextProxy.persist_content h.isMutable (hc ▸ hq)).trans hp, ho', hf'.trans hf⟩

end OnText

end RichText
