import RichText.Proofs.Pass.Walk

/-!
The course of a visit, with a choice of how proxies are persisted.

`visitBy` and `walkBy` are the visits and the walk of a pass in which something may be done beside persisting, and where
the walk comes to a node. A `Course` says what holds along the stages of a visit: before a rule, after it, after the
walk through the children, and where the visit ends.
-/

namespace RichText

open RichText.Tree Effects

/-- How the proxies of a pass are persisted, and what is done before that at a node. -/
structure Writers (σ : Type) where
  /-- What is done where the walk through the children of a node comes to one of them. -/
  arrive : Ref → Nat → Pass σ Unit
  element : RuleM σ ElementProxy Response
  text : RuleM σ TextProxy Response

/-- Persisting, and nothing beside it. -/
def Writers.plain : Writers σ := ⟨fun _ _ => pure (), Rule.onProxy ElementProxy.persist, Rule.onProxy TextProxy.persist⟩

variable {κ σ : Type} {f : Filter κ σ} {w : Writers σ} {o : Cursor} {descend : Ref → Pass σ Unit} {j : σ}
  {going acted turned : ElementProxy × σ → Prop} {ended : Ref → Tree × σ → Prop} {fail : Halt → Tree × σ → Prop}

theorem RuleSet.closing_eq (rules : RuleSet κ σ) :
    rules.closing = [afterChildren].filterMap rules.element? := by
  rw [closing, List.filterMap_cons]
  cases rules.element? afterChildren <;> rfl

namespace Filter

/-- The stages of a visit to an element, the proxy persisted after each. -/
def stagesBy (w : Writers σ) : List (Action Halt σ ElementProxy Unit) → Action Halt σ ElementProxy Ref :=
  runStages (stage w.element) ElementProxy.successor

/-- Persisting the proxy of an element, and the stages that are still to come. -/
def persistBy (w : Writers σ) (rest : List (Action Halt σ ElementProxy Unit)) : Action Halt σ ElementProxy Ref := do
  match ← stage w.element with
  | .proceed => stagesBy w rest
  | .stop => return none
  | .restart node => return some node

/-- The stages after the walk through the children. -/
def closingStages (f : Filter κ σ) : List (Action Halt σ ElementProxy Unit) :=
  f.rules.closing.map fun rule => stage (rule f.context Rule.noop)

/-- A visit to an element. -/
def visitElementBy (f : Filter κ σ) (w : Writers σ) (descend : Ref → Pass σ Unit) (element : Nat) : Pass σ Ref :=
  fun (tree, journal) =>
    let proxy := ElementProxy.ofNode tree (some element) f.namespaces
    let (answer, proxy, journal) := stagesBy w (f.stages descend proxy.currentName) (proxy, journal)
    (answer, proxy.tree, journal)

/-- A visit to a text node. -/
def visitTextBy (f : Filter κ σ) (w : Writers σ) (text : Nat) : Pass σ Ref := fun (tree, journal) =>
  match f.rules.text with
  | none => (.ok none, tree, journal)
  | some rule =>
    let stages := runStages w.text (pure none) [rule f.context Rule.noop]
    let (answer, proxy, journal) := stage stages (TextProxy.ofNode tree (some text), journal)
    (answer, proxy.tree, journal)

/-- A visit to any node, with the node at which the walk goes on. -/
def visitBy (f : Filter κ σ) (w : Writers σ) (descend : Ref → Pass σ Unit) (node : Nat) : Pass σ Ref := do
  let (tree, _) ← get
  let following := tree.nextSibling (some node)
  let restart ←
    match tree.kind? (some node) with
    | some .element => f.visitElementBy w descend node
    | some .text => f.visitTextBy w node
    | _ => pure none
  return restart <|> following

/-- A visit to the node that the walk through the children of `parent` has come to. -/
def comeTo (f : Filter κ σ) (w : Writers σ) (descend : Ref → Pass σ Unit) (parent : Ref) (node : Nat) : Pass σ Ref := do
  w.arrive parent node
  f.visitBy w descend node

/-- Visits `node` and all that comes after it below `parent`. -/
def walkBy (f : Filter κ σ) (w : Writers σ) : Nat → Ref → Ref → Pass σ Unit
  | _, _, none => pure ()
  | 0, _, some _ => throw .outOfFuel
  | fuel + 1, parent, some node => do
    let next ← f.comeTo w (fromFirst (f.walkBy w fuel)) parent node
    f.walkBy w fuel parent next

theorem visitBy_plain (f : Filter κ σ) (descend : Ref → Pass σ Unit) : f.visitBy .plain descend = f.visit descend := rfl

theorem walkBy_plain (f : Filter κ σ) (fuel : Nat) : f.walkBy .plain fuel = fun _ => f.walk fuel := by
  induction fuel with
  | zero =>
    funext parent r
    cases r <;> rfl
  | succ fuel ih =>
    funext parent r
    cases r with
    | none => rfl
    | some node =>
      rw [walkBy, ih]
      rfl

theorem walkBy_none (f : Filter κ σ) (w : Writers σ) (fuel : Nat) (parent : Ref) (s : Tree × σ) :
    f.walkBy w fuel parent none s = (.ok (), s) := by
  cases fuel <;> rfl

/-! ### Stages by keys -/

/-- The stages of the rules of some keys. -/
def keyStages (f : Filter κ σ) (keys : List String) : List (Action Halt σ ElementProxy Unit) :=
  (keys.filterMap f.rules.element?).map fun rule => stage (rule f.context Rule.noop)

theorem keyStages_cons (f : Filter κ σ) (key : String) (keys : List String) :
    f.keyStages (key :: keys) = match f.rules.element? key with
      | none => f.keyStages keys
      | some rule => stage (rule f.context Rule.noop) :: f.keyStages keys := by
  rw [keyStages, List.filterMap_cons]
  cases f.rules.element? key <;> rfl

theorem stages_eq (f : Filter κ σ) (descend : Ref → Pass σ Unit) (tag : String) :
    f.stages descend tag = f.keyStages [RuleSet.beforeElement, tag, RuleSet.afterElement] ++
      onTree descend :: f.keyStages [RuleSet.afterChildren] := by
  rw [stages, RuleSet.closing_eq]
  rfl

/-! ### Visits -/

/-- What is left of a stage: `post` of its proxy and its journal, or `fail` of the tree and the journal. -/
def StageEnds {P α : Type} (tree : P → Tree) (post : α → P × σ → Prop) (fail : Halt → Tree × σ → Prop)
    (r : Except Halt α × P × σ) : Prop :=
  Ends post (fun halt s => fail halt (tree s.1, s.2)) r

/-- What holds along a visit at `o` that begins with the journal `j`: `going` before each stage up to the walk through
the children, `acted` after each rule before it is persisted, `turned` right after that walk, and `ended` with the node
at which the walk goes on where the visit is over. Where it fails `fail` holds. -/
structure Course (f : Filter κ σ) (w : Writers σ) (o : Cursor) (descend : Ref → Pass σ Unit) (j : σ)
    (going acted turned : ElementProxy × σ → Prop) (ended : Ref → Tree × σ → Prop) (fail : Halt → Tree × σ → Prop) :
    Prop where
  begin : o.tree.kind? (some o.node) = some .element →
    going (.ofNode o.tree (some o.node) f.namespaces, j)
  rule : ∀ {key rule}, f.rules.element? key = some rule → ∀ s, going s →
    StageEnds (·.tree) (fun _ => acted) fail (stage (rule f.context Rule.noop) s)
  persist : ∀ s, acted s →
    StageEnds (·.tree) (Answered going fun next s' => ended next (s'.1.tree, s'.2)) fail (stage w.element s)
  descend : ∀ s, going s → StageEnds (·.tree) (fun _ => turned) fail (onTree descend s)
  closing : ∀ s, turned s →
    StageEnds (·.tree) (fun next s' => ended next (s'.1.tree, s'.2)) fail (persistBy w f.closingStages s)
  text : o.tree.kind? (some o.node) = some .text → Ends ended fail (f.visitTextBy w o.node (o.tree, j))
  other : o.tree.kind? (some o.node) ≠ some .element → o.tree.kind? (some o.node) ≠ some .text → ended none (o.tree, j)

/-- A visit that ended with a proxy ended with its tree. -/
theorem ends_of_stages {P : Type} (tree : P → Tree) {r : Except Halt Ref × P × σ}
    (h : StageEnds tree (fun next s => ended next (tree s.1, s.2)) fail r) :
    Ends ended fail (r.1, tree r.2.1, r.2.2) := by
  obtain ⟨e | next, q, j⟩ := r
  · exact h
  · exact h

/-- A stage ends as its action does. -/
theorem ends_of_stage {P α : Type} {action : RuleM σ P α} {s : P × σ} {post : α → P × σ → Prop}
    {fail : Halt → P × σ → Prop} (h : Ends post fail (stage action s)) :
    Ends post (fun e s' => fail (.failed e) s') (action s) := by
  rw [run_stage] at h
  rcases hs : action s with ⟨e | a, s'⟩
  · rw [hs] at h
    exact h
  · rw [hs] at h
    exact h

/-- Whether it succeeds or fails, a rule leaves what holds of the proxy and the journal after it. -/
theorem stage_leaves {P α : Type} {tree : P → Tree} {action : RuleM σ P α} {s : P × σ} {post : P × σ → Prop}
    (h : post (action s).2) : StageEnds tree (fun _ => post) (fun _ _ => True) (stage action s) := by
  rw [StageEnds, run_stage]
  rcases hs : action s with ⟨e | a, s'⟩
  · trivial
  · rw [hs] at h
    exact h

/-- The walk through the children leaves the proxy with another tree. -/
theorem onTree_leaves {s : ElementProxy × σ} {post : ElementProxy × σ → Prop}
    (h : Ends (fun _ s' => post ({ s.1 with tree := s'.1 }, s'.2)) fail (descend s.1.delegate (s.1.tree, s.2))) :
    StageEnds (·.tree) (fun _ => post) fail (onTree descend s) := by
  rw [StageEnds, onTree]
  rcases hr : descend s.1.delegate (s.1.tree, s.2) with ⟨e | a, u, j⟩
  · rw [hr] at h
    exact h
  · rw [hr] at h
    exact h

/-- A visit whose delegate still stands in its place ends, and leaves the proxy as it is. -/
theorem successor_ends (ended : Ref → Tree × σ → Prop) {s : ElementProxy × σ} {d : Nat} {below : Forest Nat}
    (h : OnElement o s.1 d below .attached)
    (hnext : ∀ next, next = none ∨ next = o.rest.roots.head? → ended next (s.1.tree, s.2)) :
    StageEnds (·.tree) (fun next s' => ended next (s'.1.tree, s'.2)) fail
      ((ElementProxy.successor : Action Halt σ ElementProxy Ref) s) := by
  obtain ⟨next, hn, hor⟩ := h.successor (ε := Halt) s.2
  rw [show s = (s.1, s.2) from rfl, hn]
  exact hnext next hor

/-- Stages that keep what holds between them, and the end of the visit after them. -/
theorem persistBy_ends {settled : ElementProxy × σ → Prop} {rest : List (Action Halt σ ElementProxy Unit)}
    {s : ElementProxy × σ}
    (hp : StageEnds (·.tree) (Answered settled fun next s' => ended next (s'.1.tree, s'.2)) fail (stage w.element s))
    (hrest : ∀ s', settled s' →
      StageEnds (·.tree) (fun next s' => ended next (s'.1.tree, s'.2)) fail (stagesBy w rest s')) :
    StageEnds (·.tree) (fun next s' => ended next (s'.1.tree, s'.2)) fail (persistBy w rest s) := by
  refine Ends.bind hp fun response s' ha => ?_
  cases response with
  | proceed => exact hrest s' ha
  | stop => exact ha
  | restart node => exact ha

/-- From a state that is settled once it is persisted the closing rule follows, if there is one, and the end of the
visit. -/
theorem closing_ends (ended : Ref → Tree × σ → Prop) (settled acted final : ElementProxy × σ → Prop)
    {s : ElementProxy × σ}
    (hp : StageEnds (·.tree) (Answered settled fun next s' => ended next (s'.1.tree, s'.2)) fail (stage w.element s))
    (hrule : ∀ {rule}, f.rules.element? RuleSet.afterChildren = some rule → ∀ s, settled s →
      StageEnds (·.tree) (fun _ => acted) fail (stage (rule f.context Rule.noop) s))
    (hpersist : ∀ s, acted s →
      StageEnds (·.tree) (Answered final fun next s' => ended next (s'.1.tree, s'.2)) fail (stage w.element s))
    (hfinal : ∀ s, final s → StageEnds (·.tree) (fun next s' => ended next (s'.1.tree, s'.2)) fail
      ((ElementProxy.successor : Action Halt σ ElementProxy Ref) s))
    (hnone : f.rules.element? RuleSet.afterChildren = none → ∀ s, settled s → final s) :
    StageEnds (·.tree) (fun next s' => ended next (s'.1.tree, s'.2)) fail (persistBy w f.closingStages s) := by
  refine persistBy_ends hp fun s' hs => ?_
  rw [closingStages, RuleSet.closing]
  cases hr : f.rules.element? RuleSet.afterChildren with
  | none => exact hfinal s' (hnone hr s' hs)
  | some rule =>
    exact (hrule hr s' hs).bind fun _ s'' h'' => persistBy_ends (hpersist s'' h'') hfinal

/-- A visit ends as visits to nodes of its kind do, and the walk goes on at the node it answers. -/
theorem visitBy_ends (ho : o.tree.Ahead o.parent o.before o.ahead)
    (helement : o.tree.kind? (some o.node) = some .element →
      Ends ended fail (f.visitElementBy w descend o.node (o.tree, j)))
    (htext : o.tree.kind? (some o.node) = some .text → Ends ended fail (f.visitTextBy w o.node (o.tree, j)))
    (hother : o.tree.kind? (some o.node) ≠ some .element → o.tree.kind? (some o.node) ≠ some .text →
      ended none (o.tree, j)) :
    Ends (fun next s => ∃ next', ended next' s ∧ next = (next' <|> o.rest.roots.head?)) fail
      (f.visitBy w descend o.node (o.tree, j)) := by
  have hfollowing : o.tree.nextSibling (some o.node) = o.rest.roots.head? := ho.linked.nextSibling ho.list
  have hnext : ∀ {x : Pass σ Ref}, Ends ended fail (x (o.tree, j)) →
      Ends (fun next s => ∃ next', ended next' s ∧ next = (next' <|> o.rest.roots.head?)) fail
        ((x >>= fun restart => pure (restart <|> o.rest.roots.head?) : Pass σ Ref) (o.tree, j)) := by
    intro x hx
    exact Ends.bind hx fun next s ho => ⟨next, ho, rfl⟩
  rw [visitBy, bind_ok (run_get _)]
  simp only [hfollowing]
  rcases hk : o.tree.kind? (some o.node) with _ | kind
  · exact ⟨none, hother (hk ▸ nofun) (hk ▸ nofun), rfl⟩
  · cases kind with
    | element => exact hnext (helement hk)
    | text => exact hnext (htext hk)
    | _ => exact ⟨none, hother (hk ▸ nofun) (hk ▸ nofun), rfl⟩

namespace Course

theorem visitElement_ends (h : f.Course w o descend j going acted turned ended fail)
    (he : o.tree.kind? (some o.node) = some .element) :
    Ends ended fail (f.visitElementBy w descend o.node (o.tree, j)) := by
  let q := ElementProxy.ofNode o.tree (some o.node) f.namespaces
  suffices hstages : StageEnds (·.tree) (fun next s => ended next (s.1.tree, s.2)) fail
      (stagesBy w (f.stages descend q.currentName) (q, j)) from
    ends_of_stages (fun q : ElementProxy => q.tree) hstages
  rw [stagesBy, stages, runStages_append]
  -- up to the descent the stages keep `going`, from there on `turned` has to do
  refine runStages_ends (fun x hx s hs => ?_) h.persist (fun s hs => ?_) (h.begin he)
  · obtain ⟨rule, hr, rfl⟩ := List.mem_map.1 hx
    obtain ⟨key, -, hkey⟩ := List.mem_filterMap.1 hr
    exact h.rule hkey s hs
  · exact (h.descend s hs).bind fun _ => h.closing

/-- A visit ends, and the walk goes on at the node it answers. -/
theorem visit_ends (h : f.Course w o descend j going acted turned ended fail)
    (ho : o.tree.Ahead o.parent o.before o.ahead) :
    Ends (fun next s => ∃ next', ended next' s ∧ next = (next' <|> o.rest.roots.head?)) fail
      (f.visitBy w descend o.node (o.tree, j)) :=
  visitBy_ends ho h.visitElement_ends h.text h.other

end Course

/-- A visit to a text node goes through one stage. -/
theorem visitTextBy_ends (begun acted settled : TextProxy × σ → Prop)
    (hnone : f.rules.text = none → ended none (o.tree, j)) (hbegin : begun (.ofNode o.tree (some o.node), j))
    (hrule : ∀ {rule}, f.rules.text = some rule → ∀ s, begun s →
      StageEnds (·.tree) (fun _ => acted) fail (stage (rule f.context Rule.noop) s))
    (hpersist : ∀ s, acted s →
      StageEnds (·.tree) (Answered settled fun next s' => ended next (s'.1.tree, s'.2)) fail (stage w.text s))
    (hend : ∀ s, settled s → ended none (s.1.tree, s.2)) : Ends ended fail (f.visitTextBy w o.node (o.tree, j)) := by
  rw [visitTextBy]
  cases hr : f.rules.text with
  | none => exact hnone hr
  | some rule =>
    have hstages : Ends (fun next s' => ended next (s'.1.tree, s'.2)) (fun e s' => fail (.failed e) (s'.1.tree, s'.2))
        (runStages w.text (pure none) [rule f.context Rule.noop] (TextProxy.ofNode o.tree (some o.node), j)) := by
      refine (ends_of_stage (hrule hr _ hbegin)).bind fun _ s hs => ?_
      refine (ends_of_stage (hpersist s hs)).bind fun response s' ha => ?_
      cases response with
      | proceed => exact hend s' ha
      | stop => exact ha
      | restart node => exact ha
    exact ends_of_stages (fun q : TextProxy => q.tree) (stage_ends hstages)

/-! ### Walks -/

section

variable {R : Tree × σ → Nat → List Nat → Forest Nat → Tree × σ → Prop}
  {E : Tree × σ → Nat → List Nat → Forest Nat → Halt → Tree × σ → Prop}

/-- A walk over a forest ahead ends as its visits have it. -/
theorem walkBy_induction {I : Ref → Tree × σ → Nat → List Nat → Forest Nat → Prop}
    (hahead : ∀ {parent s p pre g}, I parent s p pre g → s.1.Ahead p pre g)
    (hnil : ∀ {parent s p pre}, I parent s p pre .nil → R s p pre .nil s)
    (hvisit : ∀ {o : Cursor} {parent} (fuel : Nat) {j}, I parent (o.tree, j) o.parent o.before o.ahead →
      (∀ {t d below} j, I (some d) (t, j) d [] below → below.size ≤ o.below.size →
        Ends (fun _ s => R (t, j) d [] below s) (E (t, j) d [] below)
          (fromFirst (f.walkBy w fuel) (some d) (t, j))) →
      Ends (Proceeds (I parent) R E (o.tree, j) o.parent o.before o.ahead) (E (o.tree, j) o.parent o.before o.ahead)
        (f.comeTo w (fromFirst (f.walkBy w fuel)) parent o.node (o.tree, j)))
    {p : Nat} {pre : List Nat} {g : Forest Nat} {fuel : Nat} {parent : Ref} {s : Tree × σ} (h : I parent s p pre g)
    (hs : g.size ≤ fuel) : Ends (fun _ s' => R s p pre g s') (E s p pre g) (f.walkBy w fuel parent g.roots.head? s) :=
  visits_induction (I := I) (f.comeTo w) (f.walkBy w) (f.walkBy_none w) (fun _ _ _ => rfl) hahead hnil hvisit
    parent h hs

end

end Filter

end RichText
