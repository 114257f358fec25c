import RichText.Proofs.Tree.Renewal
import RichText.Proxy.Text

/-!
What persisting a proxy does to its tree.

The laws below run the operations of proxies down to the edits of trees that they consist of, for edits that
succeed.
-/

namespace RichText

open Effects

variable {u : Tree}

namespace NodeProxy

variable {p : NodeProxy}

theorem requireMutable_ok (h : p.isMutable = true) (operation : Operation) :
    requireMutable operation p = (.ok (), p) := by
  simp [requireMutable, run_bind, h]

theorem requireMutable_error (h : p.isMutable = false) (operation : Operation) :
    requireMutable operation p = (.error (.immutable operation), p) := by
  simp [requireMutable, run_bind, h]

theorem preserves_requireMutable {I : NodeProxy → Prop} (operation : Operation) :
    Preserves I (requireMutable operation) := by
  refine .bind_get fun p _ => ?_
  split
  · exact .throw _
  · exact .pure _

/-- Recording a fate. -/
theorem toggle_ok (h : p.isMutable = true) (fate : Fate) (operation : Operation) :
    toggle fate true operation p = (.ok (), { p with fate }) := by
  rw [toggle, bind_ok (requireMutable_ok h operation)]
  rfl

theorem toggle_error (h : p.isMutable = false) (fate : Fate) (on : Bool) (operation : Operation) :
    toggle fate on operation p = (.error (.immutable operation), p) := by
  rw [toggle, bind_error (requireMutable_error h operation)]

theorem edit_ok {α : Type} {action : Tree.Edit α} {a : α} (h : action p.tree = (.ok a, u)) :
    edit action p = (.ok a, { p with tree := u }) := by
  simp only [edit, h]
  rfl

/-- How a visit goes on after an unwrapping: at the first child that the node had. -/
def afterUnwrap (first : Ref) : Response := first.elim .stop .restart

theorem settle_keep (h : p.fate = .keep) : settle p = (.ok none, p) := by
  simp [settle, run_bind, h]

/-- Persisting a node that is to stay does nothing. -/
theorem persist_keep (h : p.fate = .keep) : persist p = (.ok .proceed, p) := by
  cases hm : p.isMutable <;> simp [persist, run_bind, run_map, hm, settle_keep h]

theorem settle_remove (h : p.fate = .remove) (hu : p.tree.detach p.delegate = .ok u) :
    settle p = (.ok (some .stop), { p with tree := u }) := by
  have he : edit (.ofExcept (·.detach p.delegate)) p = (.ok (), { p with tree := u }) :=
    edit_ok (Tree.Edit.ofExcept_ok hu)
  simp [settle, run_bind, run_map, h, he]

theorem settle_unwrap (h : p.fate = .unwrap) (hu : p.tree.unwrap p.delegate = .ok u) :
    settle p = (.ok (some (afterUnwrap (p.tree.firstChild p.delegate))), { p with tree := u }) := by
  have he : edit (.ofExcept (·.unwrap p.delegate)) p = (.ok (), { p with tree := u }) :=
    edit_ok (Tree.Edit.ofExcept_ok hu)
  cases hc : p.tree.firstChild p.delegate <;> simp [settle, run_bind, h, he, hc, afterUnwrap]

theorem settle_clear (h : p.fate = .clear) (hu : p.tree.removeChildren p.delegate = .ok u) :
    settle p = (.ok none, { p with tree := u }) := by
  have he : edit (.ofExcept (·.removeChildren p.delegate)) p = (.ok (), { p with tree := u }) :=
    edit_ok (Tree.Edit.ofExcept_ok hu)
  simp [settle, run_bind, run_map, h, he]

end NodeProxy

namespace ElementProxy

variable {p p' : ElementProxy} {α : Type}

theorem onNode_ok {action : ProxyM NodeProxy α} {a : α} {q : NodeProxy} (h : action p.toNodeProxy = (.ok a, q)) :
    onNode action p = (.ok a, { p with toNodeProxy := q }) := by
  simp only [onNode, h]

theorem onNode_error {action : ProxyM NodeProxy α} {e : FilterError} {q : NodeProxy}
    (h : action p.toNodeProxy = (.error e, q)) : onNode action p = (.error e, { p with toNodeProxy := q }) := by
  simp only [onNode, h]

/-- A read-only proxy refuses whatever asks for a mutable one first. -/
theorem refused (h : p.isMutable = false) (operation : Operation) (f : Unit → ProxyM ElementProxy α) :
    (onNode (NodeProxy.requireMutable operation) >>= f) p = (.error (.immutable operation), p) :=
  bind_error (onNode_error (NodeProxy.requireMutable_error h operation))

theorem setName_ok (h : p.isMutable = true) (name : String) :
    setName name p = (.ok (), { p with pendingName := some (Text.lowerCase name) }) := by
  rw [setName, bind_ok (onNode_ok (NodeProxy.requireMutable_ok h _))]
  rfl

theorem setName_error (h : p.isMutable = false) (name : String) :
    setName name p = (.error (.immutable .setName), p) := refused h _ _

/-- The attributes that a new element takes over. -/
def entries (p : ElementProxy) : List (String × Option String) :=
  p.attributeNames.map fun key => (key, p.attribute? key)

/-- The namespace of the element that replaces the delegate. -/
def spaceFor (p : ElementProxy) (space : Option String) : String :=
  (space <|> p.pendingNamespace).getD p.tree.defaultNamespace

theorem replaceBy_ok (hm : p.isMutable = true) {name : String} {space : Option String} {new : Nat}
    (h : Tree.Edit.renew p.namespaces p.delegate (p.spaceFor space) name p.entries p.tree = (.ok new, u)) :
    replaceBy name space p =
      (.ok .proceed, { p with tree := u, delegate := some new, replacement := some new }) := by
  have hr := onNode_ok (p := p) (NodeProxy.requireMutable_ok hm .replaceElement)
  have he := onNode_ok (p := p) (NodeProxy.edit_ok h)
  rw [replaceBy, bind_ok hr, bind_ok (run_get _)]
  exact (bind_ok he).trans rfl

/-- Whether writing the buffered attributes takes a new element. -/
def needsNew (p : ElementProxy) : Prop :=
  (p.tree.namespace? p.delegate).getD "" ≠ p.tree.defaultNamespace ∨ p.pendingNamespace.isSome = true

theorem persistAttributes_new (h : p.needsNew) : persistAttributes p = replaceBy p.currentName none p := by
  have hb : (decide ((p.tree.namespace? p.delegate).getD "" ≠ p.tree.defaultNamespace)
      || p.pendingNamespace.isSome) = true := by
    simpa [needsNew] using h
  rw [persistAttributes, bind_ok (run_get p)]
  simp only [hb, if_true]

theorem persistAttributes_same (h : ¬ p.needsNew)
    (hu : Tree.Edit.writeAttributes p.namespaces p.delegate p.overrides p.tree = (.ok (), u)) :
    persistAttributes p = (.ok .proceed, { p with tree := u }) := by
  have hb : (decide ((p.tree.namespace? p.delegate).getD "" ≠ p.tree.defaultNamespace)
      || p.pendingNamespace.isSome) = false := by
    simpa [needsNew] using h
  have he := onNode_ok (p := p) (NodeProxy.edit_ok hu)
  rw [persistAttributes, bind_ok (run_get p)]
  simp only [hb]
  exact (bind_ok he).trans rfl

/-- Persisting content that renames the element. -/
theorem persistContent_renamed {name : String} (hn : p.pendingName = some name) (hne : name ≠ p.liveName)
    {response : Response} (h : replaceBy name none { p with pendingName := none } = (.ok response, p')) :
    persistContent p = (.ok response, { p' with overrides := [] }) := by
  have hl : ElementProxy.liveName { p with pendingName := none } = p.liveName := rfl
  rw [persistContent, bind_ok (run_get p), hn, bind_ok (run_modify _ p)]
  simp only [run_bind, run_get, hl, hne, ne_eq, not_false_eq_true, if_true, h, run_modify, run_pure]

/-- Persisting content that leaves the element its name. -/
theorem persistContent_attributes (hn : ∀ name, p.pendingName = some name → name = p.liveName)
    {response : Response} (h : persistAttributes { p with pendingName := none } = (.ok response, p')) :
    persistContent p = (.ok response, { p' with overrides := [] }) := by
  have hl : ElementProxy.liveName { p with pendingName := none } = p.liveName := rfl
  rw [persistContent, bind_ok (run_get p), bind_ok (run_modify _ p)]
  cases hp : p.pendingName with
  | none => simp only [run_bind, h, run_modify, run_pure]
  | some name =>
    have he := hn name hp
    simp only [run_bind, run_get, hl, he, ne_eq, not_true_eq_false, if_false, h, run_modify, run_pure]

theorem persist_settled (hm : p.isMutable = true) {response : Response} {q : NodeProxy}
    (h : NodeProxy.settle p.toNodeProxy = (.ok (some response), q)) :
    persist p = (.ok response, { p with toNodeProxy := q }) := by
  simp [persist, run_bind, hm, onNode_ok h]

theorem persist_content (hm : p.isMutable = true) {q : NodeProxy}
    (h : NodeProxy.settle p.toNodeProxy = (.ok none, q)) :
    persist p = persistContent { p with toNodeProxy := q } := by
  simp [persist, run_bind, hm, onNode_ok h]

end ElementProxy

namespace TextProxy

variable {p : TextProxy} {α : Type}

theorem onNode_ok {action : ProxyM NodeProxy α} {a : α} {q : NodeProxy} (h : action p.toNodeProxy = (.ok a, q)) :
    onNode action p = (.ok a, { p with toNodeProxy := q }) := by
  simp only [onNode, h]

theorem onNode_error {action : ProxyM NodeProxy α} {e : FilterError} {q : NodeProxy}
    (h : action p.toNodeProxy = (.error e, q)) : onNode action p = (.error e, { p with toNodeProxy := q }) := by
  simp only [onNode, h]

theorem persist_settled (hm : p.isMutable = true) {response : Response} {q : NodeProxy}
    (h : NodeProxy.settle p.toNodeProxy = (.ok (some response), q)) :
    persist p = (.ok response, { p with toNodeProxy := q }) := by
  simp [persist, run_bind, hm, onNode_ok h]

theorem persist_content (hm : p.isMutable = true) {q : NodeProxy}
    (h : NodeProxy.settle p.toNodeProxy = (.ok none, q)) :
    persist p = persistContent { p with toNodeProxy := q } := by
  simp [persist, run_bind, hm, onNode_ok h]

/-- Nothing is written where no text is buffered, or only the one that the node has. -/
theorem persistContent_same (h : ∀ text, p.pendingText = some text → p.tree.text? p.delegate = some text) :
    persistContent p = (.ok .proceed, { p with pendingText := none }) := by
  rw [persistContent, bind_ok (run_get p), bind_ok (run_set _ _)]
  cases hp : p.pendingText with
  | none => rfl
  | some text => simp [h text hp]

theorem persistContent_text {text : String} (hp : p.pendingText = some text)
    (hne : p.tree.text? p.delegate ≠ some text) (hu : p.tree.setText p.delegate text = .ok u) :
    persistContent p = (.ok .proceed, { p with tree := u, pendingText := none }) := by
  have he : onNode (NodeProxy.edit (.ofExcept (·.setText p.delegate text))) { p with pendingText := none } =
      (.ok (), { p with tree := u, pendingText := none }) :=
    onNode_ok (NodeProxy.edit_ok (Tree.Edit.ofExcept_ok hu))
  rw [persistContent, bind_ok (run_get p), bind_ok (run_set _ _)]
  simp only [hp, hne, ne_eq, not_false_eq_true, if_true]
  exact (bind_ok he).trans rfl

end TextProxy

end RichText
