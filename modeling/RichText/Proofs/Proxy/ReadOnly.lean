import RichText.Proofs.Proxy.Fates

/-!
Proxies buffer, and read-only proxies do nothing.

The operations of a proxy of each kind are told apart as calls. A call that neither persists nor replaces leaves the
tree as it is, whatever proxy it is made on. On a read-only proxy every call is decided by its guard, before its
arguments are looked at: it is refused in its own name, or has nothing to write; in both cases the proxy stays as it was
created, so that it reads as the live tree does.
-/

namespace RichText

open Effects
open Relation (TransGen)

/-- The kinds of proxies. -/
inductive ProxyKind where
  | node
  | element
  | text
  deriving DecidableEq, Repr

namespace ProxyKind

/-- The proxies of a kind. -/
abbrev Proxy : ProxyKind → Type
  | node => NodeProxy
  | element => ElementProxy
  | text => TextProxy

/-- A proxy of a kind is one of the three. -/
def any : (k : ProxyKind) → k.Proxy → AnyProxy
  | node, p => .node p
  | element, p => .element p
  | text, p => .text p

variable {k : ProxyKind} {α : Type}

/-- What all proxies have. -/
abbrev base (p : k.Proxy) : NodeProxy := (k.any p).base

/-- An operation on the node alone. -/
def onNode : (k : ProxyKind) → ProxyM NodeProxy α → ProxyM k.Proxy α
  | node, action => action
  | element, action => ElementProxy.onNode action
  | text, action => TextProxy.onNode action

/-- Writes the buffered changes of a node that stays. -/
def persistContent : (k : ProxyKind) → ProxyM k.Proxy Response
  | node => pure .proceed
  | element => ElementProxy.persistContent
  | text => TextProxy.persistContent

/-- Writes all buffered changes to the tree. -/
def persist : (k : ProxyKind) → ProxyM k.Proxy Response
  | node => NodeProxy.persist
  | element => ElementProxy.persist
  | text => TextProxy.persist

/-! ### Calls -/

/-- An operation that may change a proxy of a kind. All others only read it. -/
inductive Call : ProxyKind → Type
  | setRemove {k : ProxyKind} (on : Bool) : Call k
  | setRemoveChildren {k : ProxyKind} (on : Bool) : Call k
  | setReplaceByChildren {k : ProxyKind} (on : Bool) : Call k
  | setName (name : String) : Call .element
  | setAttribute (key value : String) : Call .element
  | deleteAttribute (key : String) : Call .element
  | addClasses (tokens : List String) : Call .element
  | removeClasses (tokens : List String) : Call .element
  | toggleClass (token : String) (force : Option Bool) : Call .element
  | replaceClass (token new : String) : Call .element
  | collapseAliases (target : String) (aliases : List String) : Call .element
  | setText (content : String) : Call .text
  | replaceBy (name : String) (space : Option String) : Call .element
  | persistContent {k : ProxyKind} : Call k
  | persist {k : ProxyKind} : Call k

namespace Call

/-- Makes a call. What it answers is dropped, and its error is not. -/
def run : {k : ProxyKind} → k.Call → ProxyM k.Proxy Unit
  | k, setRemove on => k.onNode (NodeProxy.setRemove on)
  | k, setRemoveChildren on => k.onNode (NodeProxy.setRemoveChildren on)
  | k, setReplaceByChildren on => k.onNode (NodeProxy.setReplaceByChildren on)
  | _, setName name => ElementProxy.setName name
  | _, setAttribute key value => ElementProxy.setAttribute key value
  | _, deleteAttribute key => ElementProxy.deleteAttribute key
  | _, addClasses tokens => ElementProxy.addClasses tokens
  | _, removeClasses tokens => ElementProxy.removeClasses tokens
  | _, toggleClass token force => Functor.discard (ElementProxy.toggleClass token force)
  | _, replaceClass token new => Functor.discard (ElementProxy.replaceClass token new)
  | _, collapseAliases target aliases => Functor.discard (ElementProxy.collapseAliases target aliases)
  | _, setText content => TextProxy.setText content
  | _, replaceBy name space => Functor.discard (ElementProxy.replaceBy name space)
  | k, persistContent => Functor.discard k.persistContent
  | k, persist => Functor.discard k.persist

/-- Whether a call leaves it to a later one to write to the tree. Three calls do not: `persist` and `replaceBy`, and
beside these `persistContent`, which is the part of `persist` that writes the content of a node. -/
def buffers : {k : ProxyKind} → k.Call → Bool
  | _, replaceBy _ _ => false
  | _, persistContent => false
  | _, persist => false
  | _, _ => true

/-- What is refused where a call is made on a read-only proxy. Collapsing aliases and persisting come to writes of
others, if there is anything to write. -/
def refusal? : {k : ProxyKind} → k.Call → k.Proxy → Option Operation
  | _, setRemove _, _ => some .setRemove
  | _, setRemoveChildren _, _ => some .setRemoveChildren
  | _, setReplaceByChildren _, _ => some .setReplaceByChildren
  | _, setName _, _ => some .setName
  | _, setAttribute _ _, _ => some .setAttribute
  | _, deleteAttribute _, _ => some .deleteAttribute
  | _, addClasses _, _ => some .addToClassList
  | _, removeClasses _, _ => some .removeFromClassList
  | _, toggleClass _ _, _ => some .toggleClass
  | _, replaceClass _ _, _ => some .replaceClass
  | _, collapseAliases target aliases, p =>
    if ∃ key ∈ aliases, key ≠ target then some .deleteAttribute
    else ((target :: aliases).findSome? (ElementProxy.attribute? p)).map fun _ => .setAttribute
  | _, setText _, _ => some .setTextContent
  | _, replaceBy _ _, _ => some .replaceElement
  | element, persistContent, p =>
    if (p.tree.namespace? p.delegate).getD "" ≠ p.tree.defaultNamespace then some .replaceElement else none
  | _, persistContent, _ => none
  | _, persist, _ => none

end Call

/-- The answer of a read-only proxy, which refuses one operation or none. -/
def refusing : Option Operation → Except FilterError Unit
  | some operation => .error (.immutable operation)
  | none => .ok ()

/-- What calls leave, one made after another. A call that is refused does not keep the next one from being made. -/
def runAll (calls : List k.Call) (p : k.Proxy) : k.Proxy := calls.foldl (fun p call => (call.run p).2) p

/-! ### Buffering -/

theorem preserves_onNode {t : Tree} {action : ProxyM NodeProxy α}
    (h : Preserves (fun p : NodeProxy => p.tree = t) action) :
    Preserves (fun p : k.Proxy => (k.base p).tree = t) (k.onNode action) := by
  cases k with
  | node => exact h
  | element => exact fun p hp => h p.toNodeProxy hp
  | text => exact fun p hp => h p.toNodeProxy hp

theorem preserves_toggle {t : Tree} (fate : Fate) (on : Bool) (operation : Operation) :
    Preserves (fun p : NodeProxy => p.tree = t) (NodeProxy.toggle fate on operation) := by
  refine (NodeProxy.preserves_requireMutable operation).bind fun _ => .modify fun p h => ?_
  split
  · exact h
  · split <;> exact h

/-- No write to the buffer of an element proxy reaches the tree. -/
theorem survives_tree (t : Tree) : ElementProxy.Survives (fun _ => True) (fun p => p.tree = t) :=
  ⟨fun _ h => h, fun _ _ h => h⟩

/-- One call. -/
theorem Call.preserves_tree {call : k.Call} (h : call.buffers = true) (t : Tree) :
    Preserves (fun p => (k.base p).tree = t) call.run := by
  have hs := survives_tree t
  cases call with
  | setRemove on => exact preserves_onNode (preserves_toggle _ on _)
  | setRemoveChildren on => exact preserves_onNode (preserves_toggle _ on _)
  | setReplaceByChildren on => exact preserves_onNode (preserves_toggle _ on _)
  | setName name => exact hs.setName name
  | setAttribute key value => exact hs.setAttribute trivial value
  | deleteAttribute key => exact hs.deleteAttribute trivial
  | addClasses tokens => exact hs.addClasses trivial tokens
  | removeClasses tokens => exact hs.removeClasses trivial tokens
  | toggleClass token force => exact (hs.toggleClass trivial token force).discard
  | replaceClass token new => exact (hs.replaceClass trivial token new).discard
  | collapseAliases target aliases => exact (hs.collapseAliases trivial fun _ _ => trivial).discard
  | setText content =>
    have hguard := preserves_onNode (k := text) (NodeProxy.preserves_requireMutable (I := (·.tree = t)) .setTextContent)
    exact hguard.bind fun _ => .modify fun _ h => h
  | replaceBy name space => cases h
  | persistContent => cases h
  | persist => cases h

/-- Any number of calls. -/
theorem runAll_tree {calls : List k.Call} (h : ∀ call ∈ calls, call.buffers = true) (p : k.Proxy) :
    (k.base (runAll calls p)).tree = (k.base p).tree := by
  induction calls generalizing p with
  | nil => rfl
  | cons call rest ih =>
    obtain ⟨hcall, hrest⟩ := List.forall_mem_cons.1 h
    exact (ih hrest _).trans (Call.preserves_tree hcall _ p rfl)

end ProxyKind

/-! ### Read-only proxies -/

namespace AnyProxy

variable {q q' : AnyProxy}

/-- Proxies as they are created where they must not change anything. -/
inductive Created : AnyProxy → Prop
  | node (tree : Tree) (delegate : Ref) : Created (node (.readOnly tree delegate))
  | element (tree : Tree) (delegate : Ref) (namespaces : NamespaceTable) :
    Created (element (.readOnly tree delegate namespaces))
  | text (tree : Tree) (delegate : Ref) : Created (text (.readOnly tree delegate))

/-- From a proxy, which may be read-only or not, that of the parent is reached. -/
inductive Parent : AnyProxy → AnyProxy → Prop
  | node {q : AnyProxy} {b : NodeProxy} (h : q.base.parentNode = some b) : Parent q (node b)
  | element {q : AnyProxy} {p : ElementProxy} (h : q.base.parentElement = some p) : Parent q (element p)

/-- A proxy that was created read-only, or was reached from another one, at any height above it. -/
def ReadOnly (q : AnyProxy) : Prop := Created q ∨ ∃ origin, TransGen Parent origin q

theorem Parent.eq_readOnly (h : Parent q q') :
    ∃ parent, q' = .node (.readOnly q.base.tree parent) ∨ q' = .element (.readOnly q.base.tree parent .standard) := by
  cases h with
  | node h =>
    obtain ⟨parent, -, rfl⟩ := Option.map_eq_some_iff.1 h
    exact ⟨some parent, .inl rfl⟩
  | element h =>
    unfold NodeProxy.parentElement at h
    split at h
    · split_ifs at h
      cases h
      exact ⟨_, .inr rfl⟩
    · cases h

theorem ReadOnly.created (h : ReadOnly q) : Created q := by
  obtain h | ⟨origin, h⟩ := h
  · exact h
  · -- the last step alone decides what the proxy is
    obtain ⟨_, -, hlast⟩ := TransGen.tail'_iff.1 h
    obtain ⟨parent, rfl | rfl⟩ := hlast.eq_readOnly
    · exact .node _ _
    · exact .element _ _ _

/-- A proxy above another one shares its tree. -/
theorem tree_of_above (h : TransGen Parent q q') : q'.base.tree = q.base.tree := by
  have hstep : ∀ {q q' : AnyProxy}, Parent q q' → q'.base.tree = q.base.tree := by
    intro q q' h
    obtain ⟨parent, rfl | rfl⟩ := h.eq_readOnly <;> rfl
  induction h with
  | single h => exact hstep h
  | tail _ h ih => exact (hstep h).trans ih

end AnyProxy

/-! ### Refusals -/

namespace ElementProxy

variable {p : ElementProxy} (hm : p.isMutable = false)
include hm

theorem requireTokens_refused (operation : Operation) (tokens : List String) :
    requireTokens operation tokens p = (.error (.immutable operation), p) := refused hm _ _

/-- The first alias that is to be deleted ends the loop. -/
theorem deleteAliases_refused (target : String) (aliases : List String) :
    (forIn aliases PUnit.unit fun key _ =>
        if key ≠ target then do
          deleteAttribute key
          pure (ForInStep.yield PUnit.unit)
        else pure (ForInStep.yield PUnit.unit)) p =
      (if ∃ key ∈ aliases, key ≠ target then .error (.immutable .deleteAttribute) else .ok (), p) := by
  induction aliases with
  | nil => simp
  | cons key rest ih =>
    rw [List.forIn_cons]
    by_cases hk : key = target
    · rw [if_neg (not_not.2 hk), bind_ok (run_pure _ p)]
      refine ih.trans ?_
      simp [hk]
    · have hdelete : (do deleteAttribute key; pure (ForInStep.yield PUnit.unit)) p =
          (.error (.immutable .deleteAttribute), p) := bind_error (refused hm _ _)
      rw [if_pos hk, bind_error hdelete, if_pos ⟨key, List.mem_cons_self, hk⟩]

theorem collapseAliases_refused (target : String) (aliases : List String) :
    Functor.discard (collapseAliases target aliases) p =
      (ProxyKind.refusing (if ∃ key ∈ aliases, key ≠ target then some .deleteAttribute
        else ((target :: aliases).findSome? p.attribute?).map fun _ => .setAttribute), p) := by
  have hloop := deleteAliases_refused hm target aliases
  rw [run_discard, collapseAliases, bind_ok (run_get p)]
  dsimp only
  split_ifs at hloop ⊢ with hne
  · rw [bind_error hloop]
    rfl
  · rw [bind_ok hloop]
    cases (target :: aliases).findSome? p.attribute? with
    | none => rfl
    | some value =>
      have hset : setAttribute target value p = (.error (.immutable .setAttribute), p) := refused hm _ _
      dsimp only
      rw [bind_error hset]
      rfl

/-- Where nothing is buffered, an element outside the default namespace would be replaced, and nothing is to be written
to any other. -/
theorem persistContent_refused (hn : p.pendingName = none) (ho : p.overrides = []) :
    Functor.discard persistContent p =
      (ProxyKind.refusing (if (p.tree.namespace? p.delegate).getD "" ≠ p.tree.defaultNamespace then some .replaceElement
        else none), p) := by
  have hname : { p with pendingName := none } = p := by rw [← hn]
  have hforeign : p.needsNew ↔ (p.tree.namespace? p.delegate).getD "" ≠ p.tree.defaultNamespace := by
    simp [needsNew, pendingNamespace, ho]
  rw [run_discard, persistContent, bind_ok (run_get p), bind_ok (run_modify _ p), hname, hn]
  dsimp only
  by_cases h : p.needsNew
  · have hreplace : persistAttributes p = (.error (.immutable .replaceElement), p) :=
      (persistAttributes_new h).trans (refused hm _ _)
    rw [if_pos (hforeign.1 h), bind_error hreplace]
    rfl
  · have hwrite : persistAttributes p = (.ok .proceed, p) := persistAttributes_same h (by rw [ho]; rfl)
    rw [if_neg (hforeign.not.1 h), bind_ok hwrite, bind_ok (run_modify _ p)]
    exact congrArg (Except.ok (), ·) (by rw [← ho])

end ElementProxy

theorem TextProxy.persistContent_refused {p : TextProxy} (h : p.pendingText = none) :
    Functor.discard persistContent p = (.ok (), p) := by
  have htext : { p with pendingText := none } = p := by rw [← h]
  rw [run_discard, persistContent_same fun _ ht => nomatch h.symm.trans ht]
  exact congrArg (Except.ok (), ·) htext

/-! ### What a read-only proxy reads -/

/-- Nothing is recorded, and the element reads as the live one. -/
structure ElementProxy.Live (p : ElementProxy) : Prop where
  fate : p.fate = .keep
  pendingName : p.pendingName = none
  overrides : p.overrides = []
  replacement : p.replacement = none
  name : p.currentName = p.liveName
  attributes : ∀ key, p.attribute? key = p.tree.attribute? p.delegate key
  attributeNames : p.attributeNames = p.tree.attributeNames p.delegate
  classValue : p.classValue = (p.tree.attribute? p.delegate "class").getD ""

/-- Nothing is recorded, and the text reads as the live one. -/
structure TextProxy.Live (p : TextProxy) : Prop where
  fate : p.fate = .keep
  pendingText : p.pendingText = none
  text : p.text = (p.tree.text? p.delegate).getD ""

namespace AnyProxy

variable {q : AnyProxy}

/-- Nothing is recorded, and all that is read is that of the live tree. A node proxy has nothing to read but its fate
that is not read from the tree. -/
def Live : AnyProxy → Prop
  | node p => p.fate = .keep
  | element p => p.Live
  | text p => p.Live

theorem Created.isMutable (h : Created q) : q.base.isMutable = false := by
  cases h <;> rfl

theorem Created.live (h : Created q) : q.Live := by
  cases h with
  | node tree delegate => exact rfl
  | element tree delegate namespaces =>
    refine ⟨rfl, rfl, rfl, rfl, rfl, fun _ => rfl, ?_, rfl⟩
    exact List.filter_eq_self.2 fun _ _ => rfl
  | text tree delegate => exact ⟨rfl, rfl, rfl⟩

end AnyProxy

namespace ProxyKind

variable {k : ProxyKind} {α : Type} {p : k.Proxy}

theorem onNode_error {action : ProxyM NodeProxy α} {e : FilterError}
    (h : action (k.base p) = (.error e, k.base p)) : k.onNode action p = (.error e, p) := by
  cases k with
  | node => exact h
  | element => exact ElementProxy.onNode_error h
  | text => exact TextProxy.onNode_error h

theorem persist_readOnly (hm : (k.base p).isMutable = false) : k.persist p = (.ok .proceed, p) := by
  cases k with
  | node =>
    have hm : p.isMutable = false := hm
    simp [persist, NodeProxy.persist, run_bind, hm]
  | element =>
    have hm : p.isMutable = false := hm
    simp [persist, ElementProxy.persist, run_bind, hm]
  | text =>
    have hm : p.isMutable = false := hm
    simp [persist, TextProxy.persist, run_bind, hm]

/-- A call on a read-only proxy is refused in its own name or has nothing to write, and leaves the proxy as it is. -/
theorem Call.run_readOnly (h : (k.any p).Created) (call : k.Call) : call.run p = (refusing (call.refusal? p), p) := by
  have hm := h.isMutable
  cases call with
  | setRemove on => exact onNode_error (NodeProxy.toggle_error hm _ on _)
  | setRemoveChildren on => exact onNode_error (NodeProxy.toggle_error hm _ on _)
  | setReplaceByChildren on => exact onNode_error (NodeProxy.toggle_error hm _ on _)
  | setName name => exact ElementProxy.refused hm _ _
  | setAttribute key value => exact ElementProxy.refused hm _ _
  | deleteAttribute key => exact ElementProxy.refused hm _ _
  | addClasses tokens => exact bind_error (ElementProxy.requireTokens_refused hm _ tokens)
  | removeClasses tokens => exact bind_error (ElementProxy.requireTokens_refused hm _ tokens)
  | toggleClass token force =>
    rw [run, run_discard, ElementProxy.toggleClass, bind_error (ElementProxy.requireTokens_refused hm _ [token])]
    rfl
  | replaceClass token new =>
    rw [run, run_discard, ElementProxy.replaceClass, bind_error (ElementProxy.requireTokens_refused hm _ [token, new])]
    rfl
  | collapseAliases target aliases => exact ElementProxy.collapseAliases_refused hm target aliases
  | setText content =>
    exact bind_error (onNode_error (k := text) (NodeProxy.requireMutable_error hm _))
  | replaceBy name space =>
    rw [run, run_discard, ElementProxy.replaceBy, ElementProxy.refused hm]
    rfl
  | persistContent =>
    have hl := h.live
    cases k with
    | node => rfl
    | element => exact ElementProxy.persistContent_refused hm hl.pendingName hl.overrides
    | text => exact TextProxy.persistContent_refused hl.pendingText
  | persist =>
    rw [run, run_discard, persist_readOnly hm]
    cases k <;> rfl

/-- Any number of calls. -/
theorem runAll_readOnly (h : (k.any p).Created) (calls : List k.Call) : runAll calls p = p := by
  induction calls with
  | nil => rfl
  | cons call rest ih =>
    rw [runAll, List.foldl_cons, Call.run_readOnly h call]
    exact ih

/-- Proxies buffer, and read-only proxies do nothing. Calls that do not persist, not even the content of a node alone,
leave the tree as it is, on proxies of all kinds and whatever they are made with. All calls on a read-only proxy, those
that persist among them, leave the proxy as it is, so that it goes on reading as the live tree does; each is refused in
its own name before its arguments matter, and persisting succeeds. The tree of a proxy that was reached from another one
is that one's tree. -/
theorem calls_buffered_or_refused (p : k.Proxy) :
    (∀ calls : List k.Call, (∀ call ∈ calls, call.buffers = true) → (k.base (runAll calls p)).tree = (k.base p).tree) ∧
    ((k.any p).ReadOnly →
      (∀ calls, runAll calls p = p) ∧ (k.any p).Live ∧ k.persist p = (.ok .proceed, p) ∧
      ∀ call : k.Call, call.run p = (refusing (call.refusal? p), p)) ∧
    ∀ origin, TransGen AnyProxy.Parent origin (k.any p) → (k.base p).tree = origin.base.tree := by
  refine ⟨fun calls h => runAll_tree h p, fun h => ?_, fun origin h => AnyProxy.tree_of_above h⟩
  have hc := h.created
  exact ⟨runAll_readOnly hc, hc.live, persist_readOnly hc.isMutable, Call.run_readOnly hc⟩

/-- Writing the content of a node is a call of its own, and it does not buffer: it makes the outer element of the sample
anew where that was renamed before. On a node that stays it is all that persisting does. -/
theorem persistContent_writes :
    (¬ ∀ (p : ElementProxy) (calls : List (Call element)),
      (∀ call ∈ calls, call ≠ .persist ∧ ∀ name space, call ≠ .replaceBy name space) →
      (runAll (k := element) calls p).tree = p.tree) ∧
    runAll (k := element) [.setName "p", .persistContent] (.ofNode Tree.sample (some 1) .standard) =
      runAll (k := element) [.setName "p", .persist] (.ofNode Tree.sample (some 1) .standard) := by
  refine ⟨fun h => ?_, rfl⟩
  have hsame := h (.ofNode Tree.sample (some 1) .standard) [.setName "p", .persistContent] (by simp)
  exact absurd hsame (by decide +kernel)

/-- The outer element of the sample, as the proxy of the text in it reaches it. -/
def aboveText : ElementProxy := .readOnly Tree.sample (some 1) .standard

theorem parent_aboveText :
    TransGen AnyProxy.Parent (.text (.ofNode Tree.sample (some 3))) (.element aboveText) :=
  .tail (.single (.node (b := .readOnly Tree.sample (some 2)) rfl)) (.element rfl)

/-- An empty token and a fate that is taken back get no further than the guard, and the new name was never written. -/
theorem calls_aboveText :
    (runAll [.setName "p", .setAttribute "xmlns" "u", .setRemove true]
      (ElementProxy.ofNode Tree.sample (some 1) .standard : element.Proxy)).tree = Tree.sample ∧
    runAll (k := element) [.addClasses [""], .replaceBy "p" none, .setRemove false, .persist] aboveText = aboveText ∧
    ElementProxy.persist aboveText = (.ok .proceed, aboveText) ∧ aboveText.currentName = "div" ∧
    ElementProxy.addClasses [""] aboveText = (.error (.immutable .addToClassList), aboveText) ∧
    Functor.discard (ElementProxy.collapseAliases "href" ["src"]) aboveText =
      (.error (.immutable .deleteAttribute), aboveText) ∧
    TransGen AnyProxy.Parent (.text (.ofNode Tree.sample (some 3))) (.element aboveText) ∧
    aboveText.tree = Tree.sample := by
  obtain ⟨hbuffers, -, -⟩ :=
    calls_buffered_or_refused (k := element) (ElementProxy.ofNode Tree.sample (some 1) .standard)
  obtain ⟨-, hreadOnly, htree⟩ := calls_buffered_or_refused (k := element) aboveText
  obtain ⟨hall, hlive, hpersist, hcall⟩ := hreadOnly (.inr ⟨_, parent_aboveText⟩)
  refine ⟨hbuffers _ (by decide), hall _, hpersist, hlive.name.trans (by decide), hcall (.addClasses [""]), ?_,
    parent_aboveText, htree _ parent_aboveText⟩
  exact hcall (.collapseAliases "href" ["src"])

end ProxyKind

end RichText
