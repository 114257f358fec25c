import RichText.Proofs.Pass.Course
import RichText.Proofs.Pass.Shadow

/-!
A pass that keeps a chronicle.

The chronicle of a pass tells each node that the walk comes to, each call of a rule, with the tree that the rule saw
and what it answered, and each persisting of a proxy, with the tree before it and after it. A call is told by the rule
itself, and persisting by what persists. Without its chronicle such a pass is the pass itself.
-/

namespace RichText

open Effects

variable {κ σ P : Type}

/-- What a chronicle tells. -/
inductive Entry where
  /-- The walk through the children of `parent` came to a node, with this tree. -/
  | visit (parent : Ref) (node : Nat) (tree : Tree)
  /-- The rule of `key` was called on the proxy of a node, saw this tree and answered; the text rule has no key. -/
  | call (key : Option String) (node : Ref) (seen : Tree) (answer : Except FilterError Unit)
  /-- The proxy of a node was persisted, which led from one tree to another and made it the proxy of the node `left`. -/
  | persist (node : Ref) (before : Tree) (answer : Except FilterError Response) (left : Ref) (after : Tree)

/-- What happened in a pass so far. -/
abbrev Chronicle := List Entry

/-- A rule whose calls are told. -/
def Rule.noted (key : Option String) (node : P → NodeProxy) (rule : Rule κ σ P) : Rule κ (σ × Chronicle) P :=
  fun context _ => Action.noted (rule context noop) fun p answer _ => .call key (node p).delegate (node p).tree answer

/-- Rules whose calls are told. -/
def RuleSet.noted (rules : RuleSet κ σ) : RuleSet κ (σ × Chronicle) :=
  rules.exchange (fun key => Rule.noted (some key) ElementProxy.toNodeProxy) (Rule.noted none TextProxy.toNodeProxy)

/-- Persisting that is told. -/
def persistNoted (node : P → NodeProxy) (persist : ProxyM P Response) : RuleM (σ × Chronicle) P Response :=
  Action.noted (Rule.onProxy persist) fun p answer p' =>
    .persist (node p).delegate (node p).tree answer (node p').delegate (node p').tree

/-- Coming to nodes and persisting proxies, both told. -/
def Writers.noted : Writers (σ × Chronicle) where
  arrive parent node := Action.noted (pure ()) fun tree _ _ => .visit parent node tree
  element := persistNoted ElementProxy.toNodeProxy ElementProxy.persist
  text := persistNoted TextProxy.toNodeProxy TextProxy.persist

namespace Filter

/-- A filter whose calls of rules are told. -/
def noted (f : Filter κ σ) : Filter κ (σ × Chronicle) := { f with rules := f.rules.noted }

/-- Filters a tree and gives the chronicle as well. -/
def applyNoted (f : Filter κ σ) (start : Ref) (tree : Tree) (journal : σ) :
    (Except Halt Unit × Tree × σ) × Chronicle :=
  f.noted.applyBy .noted start tree journal []

end Filter

/-! ### Without the chronicle -/

theorem Shadows.persistNoted (node : P → NodeProxy) (persist : ProxyM P Response) :
    Shadows (persistNoted (σ := σ) node persist) (Rule.onProxy persist) := .noted _ _

theorem Writers.noted_shadow : (Writers.noted (σ := σ)).Shadow where
  arrive parent node := Shadows.noted (E := Entry) (pure ()) fun tree _ _ => .visit parent node tree
  element := .persistNoted _ _
  text := .persistNoted _ _

theorem RuleSet.element?_noted (rules : RuleSet κ σ) (key : String) :
    rules.noted.element? key = (rules.element? key).map (Rule.noted (some key) ElementProxy.toNodeProxy) :=
  rules.element?_exchange _ _ key

/-- Without its chronicle a pass that keeps one is the pass itself. -/
theorem Filter.applyNoted_fst (f : Filter κ σ) (start : Ref) (t : Tree) (journal : σ) :
    (f.applyNoted start t journal).1 = f.apply start t journal := by
  have hrules : f.noted.Overlays f := f.overlays_exchange (fun _ _ => .noted _ _) fun _ => .noted _ _
  exact hrules.applyBy_fst Writers.noted_shadow start t journal []

/-! ### Stages that are told -/

namespace Filter

variable {context : κ} {p p' : P} {j : σ} {c : Chronicle}

/-- A rule whose calls are told ends as the rule does, with one entry more. -/
theorem noted_ends (node : P → NodeProxy) (key : Option String) {rule : Rule κ σ P} {post : P × σ × Chronicle → Prop}
    {fail : Halt → P × σ × Chronicle → Prop}
    (h : Ends (fun _ s => post (s.1, s.2, c ++ [.call key (node p).delegate (node p).tree (.ok ())]))
      (fun e s => fail (.failed e) (s.1, s.2, c ++ [.call key (node p).delegate (node p).tree (.error e)]))
      (rule context Rule.noop (p, j))) :
    Ends (fun _ => post) fail (stage (rule.noted key node context Rule.noop) (p, j, c)) := by
  refine stage_ends ?_
  simp only [Rule.noted, Action.noted]
  rcases hr : rule context Rule.noop (p, j) with ⟨e | ⟨⟨⟩⟩, p', j'⟩
  · rw [hr] at h
    exact h
  · rw [hr] at h
    exact h

/-- Persisting that is told answers as persisting does, with one entry more. -/
theorem persistNoted_ends (node : P → NodeProxy) {persist : ProxyM P Response} {response : Response}
    {post : Response → P × σ × Chronicle → Prop} {fail : Halt → P × σ × Chronicle → Prop}
    (hp : persist p = (.ok response, p'))
    (h : post response
      (p', j, c ++ [.persist (node p).delegate (node p).tree (.ok response) (node p').delegate (node p').tree])) :
    Ends post fail (stage (persistNoted node persist) (p, j, c)) := by
  refine stage_ends ?_
  simp only [persistNoted, Action.noted, Rule.onProxy, hp]
  exact h

end Filter

/-! ### Entries that are added -/

namespace Chronicle

variable {c c' c'' : Chronicle} {Q : Entry → Prop}

/-- `c'` continues `c` by entries that all have the property. -/
def Adds (Q : Entry → Prop) (c c' : Chronicle) : Prop := ∃ entries, c' = c ++ entries ∧ ∀ entry ∈ entries, Q entry

theorem Adds.refl (c : Chronicle) : Adds Q c c := ⟨[], (List.append_nil c).symm, nofun⟩

theorem Adds.trans (h : Adds Q c c') (h' : Adds Q c' c'') : Adds Q c c'' := by
  obtain ⟨l, rfl, hl⟩ := h
  obtain ⟨l', rfl, hl'⟩ := h'
  exact ⟨l ++ l', List.append_assoc .., fun entry he => (List.mem_append.1 he).elim (hl entry) (hl' entry)⟩

theorem Adds.append (h : Adds Q c c') {entry : Entry} (he : Q entry) : Adds Q c (c' ++ [entry]) :=
  h.trans ⟨[entry], rfl, fun _ hm => List.mem_singleton.1 hm ▸ he⟩

end Chronicle

end RichText
