import RichText.Proofs.Pass.Walk

/-!
What rules may do to their proxy.

Rules that act `ThroughProxies` use the operations of their own proxy as they like, those included that write
to the tree. Rules that `Buffer` only record changes, and leave it to the pass to write them.
-/

namespace RichText

open RichText.Tree Effects
open Relation (ReflTransGen)

variable {κ σ : Type} {drops : Prop} {f : Filter κ σ} {o : Cursor}

/-- One operation on the proxy of an element: buffering changes, or writing them to the tree in one of the
ways that a proxy has. -/
inductive ElementProxy.Step : ElementProxy → ElementProxy → Prop
  | buffer (p : ElementProxy) (fate : Fate) (pendingName : Option String)
      (overrides : List (String × Option String)) : Step p { p with fate, pendingName, overrides }
  | persist (p : ElementProxy) : Step p (ElementProxy.persist p).2
  | persistContent (p : ElementProxy) : Step p (ElementProxy.persistContent p).2
  | persistNode (p : ElementProxy) : Step p (ElementProxy.onNode NodeProxy.persist p).2
  | replaceBy (p : ElementProxy) (name : String) (space : Option String) :
      Step p (ElementProxy.replaceBy name space p).2

/-- One operation on the proxy of a text node. -/
inductive TextProxy.Step : TextProxy → TextProxy → Prop
  | buffer (p : TextProxy) (fate : Fate) (pendingText : Option String) : Step p { p with fate, pendingText }
  | persist (p : TextProxy) : Step p (TextProxy.persist p).2
  | persistContent (p : TextProxy) : Step p (TextProxy.persistContent p).2
  | persistNode (p : TextProxy) : Step p (TextProxy.onNode NodeProxy.persist p).2

/-- The rule acts on the tree through the proxy of its element alone, in any number of operations. -/
def ThroughElement (context : κ) (rule : ElementRule κ σ) : Prop :=
  ∀ q j, ReflTransGen ElementProxy.Step q (rule context Rule.noop (q, j)).2.1

/-- The rule acts on the tree through the proxy of its text node alone. -/
def ThroughText (context : κ) (rule : TextRule κ σ) : Prop :=
  ∀ q j, ReflTransGen TextProxy.Step q (rule context Rule.noop (q, j)).2.1

/-- The rule only buffers changes on the proxy of its element. -/
def BuffersElement (context : κ) (rule : ElementRule κ σ) : Prop :=
  ∀ q j, ∃ fate pendingName overrides,
    (rule context Rule.noop (q, j)).2.1 = { q with fate, pendingName, overrides }

/-- The rule requests at most an unwrapping. -/
def SparesElement (context : κ) (rule : ElementRule κ σ) : Prop :=
  ∀ q j, q.fate = .keep ∨ q.fate = .unwrap →
    (rule context Rule.noop (q, j)).2.1.fate = .keep ∨ (rule context Rule.noop (q, j)).2.1.fate = .unwrap

/-- The rule only buffers changes on the proxy of its text node. -/
def BuffersText (context : κ) (rule : TextRule κ σ) : Prop :=
  ∀ q j, ∃ fate pendingText, (rule context Rule.noop (q, j)).2.1 = { q with fate, pendingText }

/-- What holds of every rule of a table holds of those that are looked up in it. -/
theorem RuleSet.forall_element {rules : RuleSet κ σ} {P : ElementRule κ σ → Prop}
    (h : ∀ entry ∈ rules.elements, P entry.2) {key : String} {rule : ElementRule κ σ}
    (hr : rules.element? key = some rule) : P rule := by
  obtain ⟨l, r, he, -⟩ := List.lookup_eq_some_iff.1 hr
  exact h (key, rule) (he ▸ by simp)

namespace Rule

variable (context : κ)

theorem state_record (fate : Fate) (operation : Operation) (q : ElementProxy) (j : σ) :
    (onProxy (ElementProxy.onNode (NodeProxy.toggle fate true operation)) (q, j)).2.1 =
      if q.isMutable then { q with fate } else q := by
  split
  · rename_i hm
    simp only [onProxy, ElementProxy.onNode_ok (p := q) (NodeProxy.toggle_ok hm fate operation)]
  · rename_i hm
    have he := NodeProxy.toggle_error (Bool.eq_false_iff.2 hm) fate true operation
    simp only [onProxy, ElementProxy.onNode_error (p := q) he]

theorem state_renameTo (name : String) (q : ElementProxy) (j : σ) :
    (renameTo name context noop (q, j)).2.1 =
      if q.isMutable then { q with pendingName := some (Text.lowerCase name) } else q := by
  split
  · rename_i hm
    simp only [renameTo, onProxy, ElementProxy.setName_ok hm name]
  · rename_i hm
    simp only [renameTo, onProxy, ElementProxy.setName_error (Bool.eq_false_iff.2 hm) name]

theorem buffers_removeElement : BuffersElement context (removeElement : ElementRule κ σ) := by
  intro q j
  refine ⟨if q.isMutable then .remove else q.fate, q.pendingName, q.overrides, ?_⟩
  refine (state_record .remove .setRemove q j).trans ?_
  split <;> rfl

theorem buffers_removeIfEmpty : BuffersElement context (removeIfEmpty : ElementRule κ σ) := by
  intro q j
  rw [removeIfEmpty, bind_ok (run_get _)]
  dsimp only
  split
  · exact buffers_removeElement context q j
  · exact ⟨q.fate, q.pendingName, q.overrides, rfl⟩

theorem buffers_unwrapElement : BuffersElement context (unwrapElement : ElementRule κ σ) := by
  intro q j
  refine ⟨if q.isMutable then .unwrap else q.fate, q.pendingName, q.overrides, ?_⟩
  refine (state_record .unwrap .setReplaceByChildren q j).trans ?_
  split <;> rfl

theorem buffers_renameTo (name : String) : BuffersElement context (renameTo name : ElementRule κ σ) := by
  intro q j
  refine ⟨q.fate, if q.isMutable then some (Text.lowerCase name) else q.pendingName, q.overrides, ?_⟩
  refine (state_renameTo context name q j).trans ?_
  split <;> rfl

theorem spares_unwrapElement : SparesElement context (unwrapElement : ElementRule κ σ) := by
  intro q j hq
  have he := state_record .unwrap .setReplaceByChildren q j
  rw [unwrapElement, NodeProxy.setReplaceByChildren, he]
  split
  · exact .inr rfl
  · exact hq

theorem spares_renameTo (name : String) : SparesElement context (renameTo name : ElementRule κ σ) := by
  intro q j hq
  rw [state_renameTo context]
  split
  · exact hq
  · exact hq

end Rule

namespace Filter

/-- Every rule acts on the tree through its own proxy alone, and may then fail. -/
structure ThroughProxies (f : Filter κ σ) : Prop where
  element : ∀ {key rule}, f.rules.element? key = some rule → ThroughElement f.context rule
  text : ∀ {rule}, f.rules.text = some rule → ThroughText f.context rule

/-- Every rule only buffers changes on its own proxy, and may then fail. -/
structure Buffers (f : Filter κ σ) : Prop where
  element : ∀ {key rule}, f.rules.element? key = some rule → BuffersElement f.context rule
  text : ∀ {rule}, f.rules.text = some rule → BuffersText f.context rule

/-- No rule requests that a node or its children go: element rules request at most an unwrapping, and the text
rule no structural change. -/
structure Spares (f : Filter κ σ) : Prop where
  element : ∀ {key rule}, f.rules.element? key = some rule → SparesElement f.context rule
  text : ∀ {rule}, f.rules.text = some rule → ∀ q j, q.fate = .keep →
    (rule f.context Rule.noop (q, j)).2.1.fate = .keep

end Filter

theorem Going.step {q q' : ElementProxy} (h : Going True o q) (hs : ElementProxy.Step q q') : Going True o q' := by
  cases hs with
  | buffer fate pendingName overrides => exact h.buffer _ _ _ (.inl trivial)
  | persist =>
    obtain ⟨r, q', hq, -, hg⟩ := h.persist
    rw [hq]
    exact hg
  | persistContent => exact h.persistContent
  | persistNode => exact h.persistNode
  | replaceBy name space => exact h.replaceBy name space

theorem Going.steps {q q' : ElementProxy} (h : Going True o q) (hs : ReflTransGen ElementProxy.Step q q') :
    Going True o q' :=
  holds_of_steps hs h fun hs ih => ih.step hs

theorem TextGoing.step {q q' : TextProxy} (h : TextGoing True o q) (hs : TextProxy.Step q q') :
    TextGoing True o q' := by
  cases hs with
  | buffer fate pendingText => exact h.buffer _ _ (.inl trivial)
  | persist =>
    obtain ⟨r, q', hq, -, hg⟩ := h.persist
    rw [hq]
    exact hg
  | persistContent => exact h.persistContent
  | persistNode => exact h.persistNode

theorem TextGoing.steps {q q' : TextProxy} (h : TextGoing True o q) (hs : ReflTransGen TextProxy.Step q q') :
    TextGoing True o q' :=
  holds_of_steps hs h fun hs ih => ih.step hs

namespace Filter

/-- Rules that only buffer changes act through their proxies. -/
theorem Buffers.throughProxies (hf : f.Buffers) : f.ThroughProxies where
  element hkey q j := by
    obtain ⟨fate, pendingName, overrides, he⟩ := hf.element hkey q j
    exact he ▸ .single (.buffer q fate pendingName overrides)
  text hr q j := by
    obtain ⟨fate, pendingText, he⟩ := hf.text hr q j
    exact he ▸ .single (.buffer q fate pendingText)

/-- However many operations of its proxy a rule uses, the visit can go on after them. -/
theorem ThroughProxies.respects (hf : f.ThroughProxies) : f.Respects True where
  element hkey _ _ j h := h.steps (hf.element hkey _ j)
  text hr _ _ j h := h.steps (hf.text hr _ j)

theorem Buffers.respects (hf : f.Buffers) (hs : ¬ drops → f.Spares) : f.Respects drops where
  element {key rule} hkey {o q} j h := by
    obtain ⟨fate, pendingName, overrides, he⟩ := hf.element hkey q j
    -- a rule that spares its delegate finds a fate that spares it, and leaves one
    have hfate : drops ∨ fate = .keep ∨ fate = .unwrap := by
      by_cases hd : drops
      · exact .inl hd
      · obtain ⟨d, below, place, -, -, hq⟩ := h
        have hspared := (hs hd).element hkey q j (hq.resolve_left hd)
        rw [he] at hspared
        exact .inr hspared
    rw [he]
    exact h.buffer fate pendingName overrides hfate
  text {rule} hr {o q} j h := by
    obtain ⟨fate, pendingText, he⟩ := hf.text hr q j
    have hfate : drops ∨ fate = .keep := by
      by_cases hd : drops
      · exact .inl hd
      · obtain ⟨below, place, -, -, hq⟩ := h
        have hspared := (hs hd).text hr q j (hq.resolve_left hd)
        rw [he] at hspared
        exact .inr hspared
    rw [he]
    exact h.buffer fate pendingText hfate

end Filter

end RichText
