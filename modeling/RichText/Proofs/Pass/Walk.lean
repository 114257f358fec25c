import RichText.Filter
import RichText.Proofs.Pass.Going

/-!
The walk of a pass.

A walk over a forest ahead leaves a forest that is no larger in its place. The walk goes on after each visit
at a forest that is smaller than the one it came from, whether that is what followed, what took the place of
the visited node or what is below it; so a bound of the size of the forest is never reached.
-/

namespace RichText

open RichText.Tree Effects

variable {κ σ : Type} {drops : Prop} {f : Filter κ σ} {o : Cursor} {t u : Tree} {p : Nat} {pre : List Nat}
  {g : Forest Nat}

/-- From `t` to `u` the forest `g` in the list of `p` after `pre` became another one, and no node that is no
element was dropped without leave. -/
def Tree.Goes (drops : Prop) (t : Tree) (p : Nat) (pre : List Nat) (g : Forest Nat) (u : Tree) : Prop :=
  ∃ g', t.Turned p pre g u g' ∧ Kept drops (t.others g) (t.others g')

theorem Tree.Goes.refl (h : t.Ahead p pre g) : t.Goes drops p pre g t := ⟨g, .refl h, .refl _⟩

/-! ### The children of a delegate -/

/-- A walk through the children of the delegate is a stage that the visit can go on after. -/
theorem Going.descend {q : ElementProxy} (h : Going drops o q) :
    ∃ d below place, OnElement o q d below place ∧
      ∀ u, q.tree.Goes drops d [] below u → Going drops o { q with tree := u } := by
  obtain ⟨d, below, place, ho, hk, hf⟩ := h
  refine ⟨d, below, place, ho, ?_⟩
  rintro u ⟨below', ht, hkept⟩
  refine ⟨d, below', place, ho.descend ht, ?_, hf⟩
  rw [ho.visiting.evolves.others] at hkept
  cases place with
  | vacated present => exact hk
  | attached =>
    refine hk.trans ?_
    simp only [Place.seat, others_node]
    exact (Kept.refl _).append (hkept.append (.refl _))

/-! ### After a visit -/

/-- The list of `p` and the forest `g` in it consist of what a walk at `o` has ahead, and of new nodes. -/
structure Cursor.Reaches (o : Cursor) (p : Nat) (g : Forest Nat) : Prop where
  list : p = o.parent ∨ p = o.node ∨ o.tree.size ≤ p
  nodes : ∀ {x}, x ∈ g.toList → x ∈ o.ahead.toList ∨ o.tree.size ≤ x

namespace Cursor

theorem reaches_rest (o : Cursor) : o.Reaches o.parent o.rest :=
  ⟨.inl rfl, fun hx => .inl (Forest.mem_toList_rest hx _ _)⟩

theorem reaches_below {d : Nat} {below : Forest Nat} {place : Place} (h : Visiting o t d below place) :
    o.Reaches d below :=
  ⟨.inr h.own, fun hx => (h.source hx).imp_left fun hx => Forest.mem_toList_below hx _ _⟩

theorem reaches_present {d : Nat} {below present : Forest Nat} (h : Visiting o t d below (.vacated present)) :
    o.Reaches o.parent (present ++ o.rest) := by
  refine ⟨.inl rfl, fun {x} hx => ?_⟩
  rcases Forest.mem_toList_append.1 hx with hx | hx
  · exact ((h.left rfl).source hx).imp_left fun hx => Forest.mem_toList_below hx _ _
  · exact .inl (Forest.mem_toList_rest hx _ _)

namespace Over

variable {next : Ref}

theorem goes (h : o.Over drops t next) : o.tree.Goes drops o.parent o.before o.ahead t := by
  obtain ⟨d, below, place, hv, hk, -⟩ := h
  refine ⟨_, hv.turned, ?_⟩
  have he : o.ahead = .node o.node o.below .nil ++ o.rest := rfl
  rw [he, others_append, others_append]
  exact hk.append (.refl _)

/-- Where a visit is over the walk goes on at a smaller forest, and what becomes of that is what becomes of
the forest that was ahead. -/
theorem proceed (h : o.Over drops t next) :
    ∃ p pre g, t.Ahead p pre g ∧ o.Reaches p g ∧ g.size < o.ahead.size ∧
      (next <|> o.rest.roots.head?) = g.roots.head? ∧
      ∀ u, t.Goes drops p pre g u → o.tree.Goes drops o.parent o.before o.ahead u := by
  obtain ⟨d, below, place, hv, hk, hn⟩ := h
  have hothers := hv.evolves.others
  have he : o.ahead = .node o.node o.below .nil ++ o.rest := rfl
  have hsize : o.ahead.size = o.below.size + o.rest.size + 1 := rfl
  have hrest : (none <|> o.rest.roots.head?) = o.rest.roots.head? := rfl
  have hafter : ∀ u, t.Goes drops o.parent (o.before ++ (place.seat d below).roots) o.rest u →
      o.tree.Goes drops o.parent o.before o.ahead u := by
    rintro u ⟨g', ht, hkept⟩
    refine ⟨_, hv.turned_rest ht, ?_⟩
    rw [he, others_append, others_append]
    exact hk.append (hothers ▸ hkept)
  have hrests : o.rest.size < o.ahead.size := by omega
  -- the kinds of restart are the places at which the walk can go on
  cases hn with
  | none => exact ⟨_, _, _, hv.ahead.after, o.reaches_rest, hrests, hrest, hafter⟩
  | rest =>
    refine ⟨_, _, _, hv.ahead.after, o.reaches_rest, hrests, ?_, hafter⟩
    cases o.rest.roots.head? <;> rfl
  | again present =>
    -- what took the place of the node has no more nodes than were below it
    have hsz := (hv.left rfl).size
    refine ⟨_, _, _, hv.ahead, reaches_present hv, ?_, ?_, ?_⟩
    · rw [Place.seat, Forest.size_append]
      omega
    · rw [Place.seat, Forest.roots_append, List.head?_append]
      cases present.roots.head? <;> cases o.rest.roots.head? <;> rfl
    · rintro u ⟨g', ht, hkept⟩
      refine ⟨g', hv.turned_again ht, .trans ?_ (hothers ▸ hkept)⟩
      rw [he, others_append, others_append]
      exact hk.append (.refl _)
  | below present =>
    cases hb : below.roots.head? with
    | none => exact ⟨_, _, _, hv.ahead.after, o.reaches_rest, hrests, hrest, hafter⟩
    | some c =>
      -- the walk goes on below a delegate that left its place, and never comes to what follows
      refine ⟨d, [], below, hv.inner, reaches_below hv, ?_, ?_, ?_⟩
      · have := hv.size
        omega
      · rw [hb]
        rfl
      · rintro u ⟨g', ht, -⟩
        refine ⟨_, hv.turned_below ht, ?_⟩
        rw [he, others_append, others_append]
        exact hk.append (.refl _)

end Over

end Cursor

/-! ### Stages -/

/-- Stages that lead from `inv` to `mid`, and persisting that leads back or ends the visit. -/
theorem runStages_ends {ε σ P : Type} {persist : Action ε σ P Response} {finish : Action ε σ P Ref}
    {stages : List (Action ε σ P Unit)} {inv mid : P × σ → Prop} {post : Ref → P × σ → Prop}
    {fail : ε → P × σ → Prop} (hs : ∀ stage ∈ stages, ∀ s, inv s → Ends (fun _ s' => mid s') fail (stage s))
    (hp : ∀ s, mid s → Ends (Answered inv post) fail (persist s))
    (hf : ∀ s, inv s → Ends post fail (finish s)) {s : P × σ} (h : inv s) :
    Ends post fail (runStages persist finish stages s) := by
  induction stages generalizing s with
  | nil => exact hf s h
  | cons stage rest ih =>
    -- the invariant has to hold again when persisting answers that the visit goes on
    refine (hs stage List.mem_cons_self s h).bind fun _ s' h' => ?_
    refine (hp s' h').bind fun r s'' h'' => ?_
    cases r with
    | proceed => exact ih (fun x hx => hs x (List.mem_cons_of_mem _ hx)) h''
    | stop => exact h''
    | restart node => exact h''

theorem runStages_append {ε σ P : Type} {persist : Action ε σ P Response} {finish : Action ε σ P Ref}
    (stages stages' : List (Action ε σ P Unit)) :
    runStages persist finish (stages ++ stages') = runStages persist (runStages persist finish stages') stages := by
  induction stages with
  | nil => rfl
  | cons stage rest ih => rw [List.cons_append, runStages, runStages, ih]

namespace Filter

/-- The rules of `f` lead from every state in which a visit can go on to another one, whatever they answer. -/
structure Respects (drops : Prop) (f : Filter κ σ) : Prop where
  element : ∀ {key rule}, f.rules.element? key = some rule → ∀ {o q} j, Going drops o q →
    Going drops o (rule f.context Rule.noop (q, j)).2.1
  text : ∀ {rule}, f.rules.text = some rule → ∀ {o q} j, TextGoing drops o q →
    TextGoing drops o (rule f.context Rule.noop (q, j)).2.1

/-- A rule of `f` raised the error `e` and left this tree and this journal. -/
def Raised (f : Filter κ σ) (e : FilterError) (s : Tree × σ) : Prop :=
  (∃ key rule, f.rules.element? key = some rule ∧
    ∃ s' q, rule f.context Rule.noop s' = (.error e, q, s.2) ∧ q.tree = s.1) ∨
  ∃ rule, f.rules.text = some rule ∧ ∃ s' q, rule f.context Rule.noop s' = (.error e, q, s.2) ∧ q.tree = s.1

/-- How a part of a pass fails: a rule raised an error. -/
def Fails (f : Filter κ σ) (halt : Halt) (s : Tree × σ) : Prop := ∃ e, halt = .failed e ∧ f.Raised e s

theorem run_stage {P α : Type} (action : RuleM σ P α) (s : P × σ) :
    stage action s = ((action s).1.mapError .failed, (action s).2) := rfl

theorem stage_ok {P α : Type} {action : RuleM σ P α} {s s' : P × σ} {a : α} (h : action s = (.ok a, s')) :
    stage action s = (.ok a, s') := by
  rw [run_stage, h]
  rfl

theorem stage_ends {P α : Type} {action : RuleM σ P α} {s : P × σ} {post : α → P × σ → Prop}
    {fail : Halt → P × σ → Prop} (h : Ends post (fun e s' => fail (.failed e) s') (action s)) :
    Ends post fail (stage action s) := by
  rw [run_stage]
  rcases hs : action s with ⟨e | a, s'⟩
  · rw [hs] at h
    exact h
  · rw [hs] at h
    exact h

/-- What is asked of the walk through the children of a delegate, for child lists up to a bound. -/
def Descends (drops : Prop) (f : Filter κ σ) (bound : Nat) (descend : Ref → Pass σ Unit) : Prop :=
  ∀ {t d below} j, t.Ahead d [] below → below.size ≤ bound →
    Ends (fun _ s => t.Goes drops d [] below s.1) (fun halt s => f.Fails halt s ∧ t.Goes drops d [] below s.1)
      (descend (some d) (t, j))

/-! ### Visits -/

/-- What a visit at `o` goes through: `going` and `goingText` hold of its proxy between the stages, whatever the rules
and the walk through the children do, and `ended` holds of the tree wherever the visit ends, with the node at which the
walk goes on. -/
structure Carries (f : Filter κ σ) (o : Cursor) (descend : Ref → Pass σ Unit) (going : ElementProxy → Prop)
    (goingText : TextProxy → Prop) (ended : Tree → Ref → Prop) : Prop where
  leave : ended o.tree none
  begin : o.tree.kind? (some o.node) = some .element → going (.ofNode o.tree (some o.node) f.namespaces)
  rule : ∀ {key rule}, f.rules.element? key = some rule → ∀ {q} j, going q →
    going (rule f.context Rule.noop (q, j)).2.1
  descend : ∀ {s : ElementProxy × σ}, going s.1 →
    Ends (fun _ s' => going s'.1) (fun halt s' => f.Fails halt (s'.1.tree, s'.2) ∧ ended s'.1.tree none)
      (onTree descend s)
  persist : ∀ {q}, going q → ∃ r q', ElementProxy.persist q = (.ok r, q') ∧
    Answered going (fun next q => ended q.tree next) r q'
  successor : ∀ {q} (j : σ), going q → ∃ next,
    (ElementProxy.successor : Action Halt σ ElementProxy Ref) (q, j) = (.ok next, q, j) ∧ ended q.tree next
  halt : ∀ {q}, going q → ended q.tree none
  beginText : o.tree.kind? (some o.node) = some .text → goingText (.ofNode o.tree (some o.node))
  textRule : ∀ {rule}, f.rules.text = some rule → ∀ {q} j, goingText q →
    goingText (rule f.context Rule.noop (q, j)).2.1
  persistText : ∀ {q}, goingText q → ∃ r q', TextProxy.persist q = (.ok r, q') ∧
    Answered goingText (fun next q => ended q.tree next) r q'
  haltText : ∀ {q}, goingText q → ended q.tree none

/-- The stages of a visit to an element with this tag. -/
def stages (f : Filter κ σ) (descend : Ref → Pass σ Unit) (tag : String) : List (Action Halt σ ElementProxy Unit) :=
  (f.rules.opening tag).map (fun rule => stage (rule f.context Rule.noop)) ++
    onTree descend :: f.rules.closing.map fun rule => stage (rule f.context Rule.noop)

/-- The run of the stages of a visit to an element. -/
def elementStages (f : Filter κ σ) (descend : Ref → Pass σ Unit) (node : Nat) (t : Tree) (j : σ) :
    Except Halt Ref × ElementProxy × σ :=
  let q := ElementProxy.ofNode t (some node) f.namespaces
  runStages (stage (Rule.onProxy ElementProxy.persist)) ElementProxy.successor (f.stages descend q.currentName) (q, j)

theorem run_visitElement (f : Filter κ σ) (descend : Ref → Pass σ Unit) (node : Nat) (t : Tree) (j : σ) :
    f.visitElement descend node (t, j) =
      ((f.elementStages descend node t j).1, (f.elementStages descend node t j).2.1.tree,
        (f.elementStages descend node t j).2.2) := rfl

/-- A visit to an element goes on at what followed where the element has no answer of its own. -/
theorem visit_element {descend : Ref → Pass σ Unit} {t u : Tree} {x : Nat} {next : Ref} {j j' : σ}
    (hx : t.kind? (some x) = some .element) (hu : f.visitElement descend x (t, j) = (.ok next, u, j')) :
    f.visit descend x (t, j) = (.ok (next <|> t.nextSibling (some x)), u, j') := by
  rw [visit, bind_ok (run_get _)]
  simp only [hx]
  exact (bind_ok hu).trans rfl

/-- The stages of a visit to an element, the proxy persisted after each. -/
def throughStages (stages : List (Action Halt σ ElementProxy Unit)) : Action Halt σ ElementProxy Ref :=
  runStages (stage (Rule.onProxy ElementProxy.persist)) ElementProxy.successor stages

/-- How a visit goes on where persisting the proxy answered. -/
def onward (rest : List (Action Halt σ ElementProxy Unit)) : Response → Action Halt σ ElementProxy Ref
  | .proceed => throughStages rest
  | .stop => pure none
  | .restart node => pure (some node)

theorem throughStages_cons {x : Action Halt σ ElementProxy Unit} {rest : List (Action Halt σ ElementProxy Unit)}
    {q q₁ q₂ : ElementProxy} {j j' : σ} {response : Response} (hx : x (q, j) = (.ok (), q₁, j'))
    (hp : ElementProxy.persist q₁ = (.ok response, q₂)) :
    throughStages (x :: rest) (q, j) = onward rest response (q₂, j') := by
  have hpersist : stage (Rule.onProxy ElementProxy.persist) (q₁, j') = (.ok response, q₂, j') := by
    simp only [run_stage, Rule.onProxy, hp]
    rfl
  rw [throughStages, runStages, bind_ok hx, bind_ok hpersist]
  cases response <;> rfl

namespace Carries

variable {descend : Ref → Pass σ Unit} {going : ElementProxy → Prop} {goingText : TextProxy → Prop}
  {ended : Tree → Ref → Prop}

/-- How a stage of a visit fails: a rule failed, and the visit is over. -/
def StageFails {P : Type} (f : Filter κ σ) (ended : Tree → Ref → Prop) (tree : P → Tree) (halt : Halt) (s : P × σ) :
    Prop :=
  f.Fails halt (tree s.1, s.2) ∧ ended (tree s.1) none

/-- How a visit ends: it is over, with a rule's error or without one. -/
def VisitEnds (f : Filter κ σ) (ended : Tree → Ref → Prop) (r : Except Halt Ref × Tree × σ) : Prop :=
  Ends (fun next s => ended s.1 next) (fun halt s => f.Fails halt s ∧ ended s.1 none) r

theorem elementRule_ends (h : f.Carries o descend going goingText ended) {key : String} {rule : ElementRule κ σ}
    (hkey : f.rules.element? key = some rule) {s : ElementProxy × σ} (hs : going s.1) :
    Ends (fun _ s' => going s'.1) (StageFails f ended (·.tree)) (stage (rule f.context Rule.noop) s) := by
  have hg := h.rule hkey s.2 hs
  refine stage_ends ?_
  rcases hr : rule f.context Rule.noop s with ⟨e | a, q, j'⟩
  · rw [hr] at hg
    exact ⟨⟨e, rfl, .inl ⟨key, rule, hkey, s, q, hr, rfl⟩⟩, h.halt hg⟩
  · rw [hr] at hg
    exact hg

theorem stages_end (h : f.Carries o descend going goingText ended) (tag : String) :
    ∀ x ∈ f.stages descend tag, ∀ s : ElementProxy × σ, going s.1 →
      Ends (fun _ s' => going s'.1) (StageFails f ended (·.tree)) (x s) := by
  intro x hx s hs
  rcases List.mem_append.1 hx with hx | hx
  · obtain ⟨rule, hr, rfl⟩ := List.mem_map.1 hx
    obtain ⟨key, -, hkey⟩ := List.mem_filterMap.1 hr
    exact h.elementRule_ends hkey hs
  · rcases List.mem_cons.1 hx with rfl | hx
    · exact h.descend hs
    · obtain ⟨rule, hr, rfl⟩ := List.mem_map.1 hx
      exact h.elementRule_ends (Option.mem_toList.1 hr) hs

theorem persist_ends (h : f.Carries o descend going goingText ended) {s : ElementProxy × σ} (hs : going s.1) :
    Ends (Answered (fun s' => going s'.1) fun next s' => ended s'.1.tree next) (StageFails f ended (·.tree))
      (stage (Rule.onProxy ElementProxy.persist) s) := by
  obtain ⟨r, q, hq, ha⟩ := h.persist hs
  refine stage_ends ?_
  simp only [Rule.onProxy, hq, Ends]
  cases r <;> exact ha

theorem successor_ends (h : f.Carries o descend going goingText ended) {s : ElementProxy × σ} (hs : going s.1) :
    Ends (fun next s' => ended s'.1.tree next) (StageFails f ended (·.tree))
      ((ElementProxy.successor : Action Halt σ ElementProxy Ref) s) := by
  obtain ⟨next, hn, ho⟩ := h.successor s.2 hs
  rw [hn]
  exact ho

theorem visitEnds_of_stages {P : Type} (tree : P → Tree) {r : Except Halt Ref × P × σ}
    (h : Ends (fun next s => ended (tree s.1) next) (StageFails f ended tree) r) :
    VisitEnds f ended (r.1, tree r.2.1, r.2.2) := by
  obtain ⟨e | next, q, j⟩ := r
  · exact h
  · exact h

theorem visitElement_ends (h : f.Carries o descend going goingText ended)
    (he : o.tree.kind? (some o.node) = some .element) (j : σ) :
    VisitEnds f ended (f.visitElement descend o.node (o.tree, j)) := by
  rw [run_visitElement]
  refine visitEnds_of_stages (fun q : ElementProxy => q.tree) ?_
  exact runStages_ends (h.stages_end _) (fun _ => h.persist_ends) (fun _ => h.successor_ends) (h.begin he)

theorem textRule_ends (h : f.Carries o descend going goingText ended) {rule : TextRule κ σ}
    (hr : f.rules.text = some rule) {s : TextProxy × σ} (hs : goingText s.1) :
    Ends (fun _ s' => goingText s'.1) (fun e => StageFails f ended (·.tree) (.failed e))
      (rule f.context Rule.noop s) := by
  have hg := h.textRule hr s.2 hs
  rcases hx : rule f.context Rule.noop s with ⟨e | a, q, j'⟩
  · rw [hx] at hg
    exact ⟨⟨e, rfl, .inr ⟨rule, hr, s, q, hx, rfl⟩⟩, h.haltText hg⟩
  · rw [hx] at hg
    exact hg

theorem persistText_ends (h : f.Carries o descend going goingText ended) {s : TextProxy × σ} (hs : goingText s.1) :
    Ends (Answered (fun s' => goingText s'.1) fun next s' => ended s'.1.tree next)
      (fun e => StageFails f ended (·.tree) (.failed e)) (Rule.onProxy TextProxy.persist s) := by
  obtain ⟨r, q, hq, ha⟩ := h.persistText hs
  simp only [Rule.onProxy, hq, Ends]
  cases r <;> exact ha

theorem textRules_end (h : f.Carries o descend going goingText ended) {rule : TextRule κ σ}
    (hr : f.rules.text = some rule) {s : TextProxy × σ} (hs : goingText s.1) :
    Ends (fun next s' => ended s'.1.tree next) (fun e => StageFails f ended (·.tree) (.failed e))
      (TextProxy.applyRules f.context [rule] s) := by
  have hfinish : ∀ s' : TextProxy × σ, goingText s'.1 →
      Ends (fun next s' => ended s'.1.tree next) (fun e => StageFails f ended (·.tree) (.failed e))
        ((pure none : RuleM σ TextProxy Ref) s') := fun _ => h.haltText
  refine runStages_ends (fun x hx s hs => ?_) (fun _ => h.persistText_ends) hfinish hs
  obtain rfl : x = rule f.context Rule.noop := by simpa using hx
  exact h.textRule_ends hr hs

theorem visitText_ends (h : f.Carries o descend going goingText ended)
    (ht : o.tree.kind? (some o.node) = some .text) (j : σ) :
    VisitEnds f ended (f.visitText o.node (o.tree, j)) := by
  cases hr : f.rules.text with
  | none =>
    simp only [visitText, hr]
    exact h.leave
  | some rule =>
    simp only [visitText, hr]
    exact visitEnds_of_stages (fun q : TextProxy => q.tree)
      (stage_ends (h.textRules_end hr (s := (_, j)) (h.beginText ht)))

/-- A visit ends, and the walk goes on at the node it answers. -/
theorem visit_ends (h : f.Carries o descend going goingText ended) (ho : o.tree.Ahead o.parent o.before o.ahead)
    (j : σ) :
    Ends (fun next s => ∃ next', ended s.1 next' ∧ next = (next' <|> o.rest.roots.head?))
      (fun halt s => f.Fails halt s ∧ ended s.1 none) (f.visit descend o.node (o.tree, j)) := by
  have hfollowing : o.tree.nextSibling (some o.node) = o.rest.roots.head? := ho.linked.nextSibling ho.list
  have hnext : ∀ {x : Pass σ Ref}, VisitEnds f ended (x (o.tree, j)) →
      Ends (fun next s => ∃ next', ended s.1 next' ∧ next = (next' <|> o.rest.roots.head?))
        (fun halt s => f.Fails halt s ∧ ended s.1 none)
        ((x >>= fun restart => pure (restart <|> o.rest.roots.head?) : Pass σ Ref) (o.tree, j)) := by
    intro x hx
    exact Ends.bind hx fun next s ho => ⟨next, ho, rfl⟩
  rw [visit, bind_ok (run_get _)]
  simp only [hfollowing]
  rcases hk : o.tree.kind? (some o.node) with _ | kind
  · exact ⟨none, h.leave, rfl⟩
  · cases kind with
    | element => exact hnext (h.visitElement_ends hk j)
    | text => exact hnext (h.visitText_ends hk j)
    | _ => exact ⟨none, h.leave, rfl⟩

end Carries

theorem onTree_ends {descend : Ref → Pass σ Unit} (hd : Descends drops f o.below.size descend)
    {s : ElementProxy × σ} (h : Going drops o s.1) :
    Ends (fun _ s' => Going drops o s'.1) (fun halt s' => f.Fails halt (s'.1.tree, s'.2) ∧ o.Over drops s'.1.tree none)
      (onTree descend s) := by
  obtain ⟨d, below, place, ho, hgo⟩ := h.descend
  have hw := hd s.2 ho.visiting.inner ho.visiting.size
  rw [← ho.delegate] at hw
  simp only [onTree]
  rcases hr : descend s.1.delegate (s.1.tree, s.2) with ⟨e | a, u, j'⟩
  · rw [hr] at hw
    exact ⟨hw.1, (hgo u hw.2).over⟩
  · rw [hr] at hw
    exact hgo u hw

/-- Where the rules respect their visits, every visit can go on after each of its stages. -/
theorem Respects.carries (hf : f.Respects drops) {descend : Ref → Pass σ Unit}
    (hd : Descends drops f o.below.size descend) (h : o.tree.Ahead o.parent o.before o.ahead) :
    f.Carries o descend (Going drops o) (TextGoing drops o) (o.Over drops) where
  leave := ⟨o.node, o.below, .attached, .begin h, .refl o, .none _⟩
  begin he := .begin h he f.namespaces
  rule hkey _ j hq := hf.element hkey j hq
  descend hs := onTree_ends hd hs
  persist hq := by
    obtain ⟨r, q', hp, ha, -⟩ := hq.persist
    exact ⟨r, q', hp, ha⟩
  successor j hq := hq.successor j
  halt hq := hq.over
  beginText ht := .begin h ht
  textRule hr _ j hq := hf.text hr j hq
  persistText hq := by
    obtain ⟨r, q', hp, ha, -⟩ := hq.persist
    exact ⟨r, q', hp, ha⟩
  haltText hq := hq.over

/-! ### Walks -/

theorem walk_none (f : Filter κ σ) (fuel : Nat) (s : Tree × σ) : f.walk fuel none s = (.ok (), s) := by
  cases fuel <;> rfl

/-- A walk through the children of `parent` from the first of them on. -/
def fromFirst (walk : Ref → Ref → Pass σ Unit) (parent : Ref) : Pass σ Unit := do
  let (tree, _) ← get
  walk parent (tree.firstChild parent)

theorem run_fromFirst (walk : Ref → Ref → Pass σ Unit) {d : Nat} {below : Forest Nat} (h : t.Ahead d [] below) (j : σ) :
    fromFirst walk (some d) (t, j) = walk (some d) below.roots.head? (t, j) := by
  rw [← h.firstChild]
  rfl

section

variable {I : Tree × σ → Nat → List Nat → Forest Nat → Prop}
  {R : Tree × σ → Nat → List Nat → Forest Nat → Tree × σ → Prop}
  {E : Tree × σ → Nat → List Nat → Forest Nat → Halt → Tree × σ → Prop}

/-- What a visit owes to the walk that comes to it: the walk goes on at a smaller forest with the invariant `I`, and
what becomes of that one, a result `R` or an error `E`, is what becomes of the forest that was ahead. -/
def Proceeds (I : Tree × σ → Nat → List Nat → Forest Nat → Prop)
    (R : Tree × σ → Nat → List Nat → Forest Nat → Tree × σ → Prop)
    (E : Tree × σ → Nat → List Nat → Forest Nat → Halt → Tree × σ → Prop) (s : Tree × σ) (p : Nat) (pre : List Nat)
    (g : Forest Nat) (next : Ref) (s' : Tree × σ) : Prop :=
  ∃ p' pre' g', I s' p' pre' g' ∧ g'.size < g.size ∧ next = g'.roots.head? ∧
    (∀ v, R s' p' pre' g' v → R s p pre g v) ∧ ∀ halt v, E s' p' pre' g' halt v → E s p pre g halt v

/-- Whatever visits single nodes and goes on where they answer ends as the visits have it over a forest ahead, for
every bound that is not below the size of the forest. A visit may rely on the walk through the children of its
delegate. The walk is told through whose children it goes, and the invariant may speak of that. -/
theorem visits_induction {I : Ref → Tree × σ → Nat → List Nat → Forest Nat → Prop}
    (visit : (Ref → Pass σ Unit) → Ref → Nat → Pass σ Ref) (walk : Nat → Ref → Ref → Pass σ Unit)
    (hnone : ∀ fuel parent s, walk fuel parent none s = (.ok (), s))
    (hsome : ∀ fuel parent node,
      walk (fuel + 1) parent (some node) = (visit (fromFirst (walk fuel)) parent node >>= walk fuel parent))
    (hahead : ∀ {parent s p pre g}, I parent s p pre g → s.1.Ahead p pre g)
    (hnil : ∀ {parent s p pre}, I parent s p pre .nil → R s p pre .nil s)
    (hvisit : ∀ {o : Cursor} {parent} (fuel : Nat) {j}, I parent (o.tree, j) o.parent o.before o.ahead →
      (∀ {t d below} j, I (some d) (t, j) d [] below → below.size ≤ o.below.size →
        Ends (fun _ s => R (t, j) d [] below s) (E (t, j) d [] below) (fromFirst (walk fuel) (some d) (t, j))) →
      Ends (Proceeds (I parent) R E (o.tree, j) o.parent o.before o.ahead) (E (o.tree, j) o.parent o.before o.ahead)
        (visit (fromFirst (walk fuel)) parent o.node (o.tree, j)))
    {fuel : Nat} (parent : Ref) {s : Tree × σ} (h : I parent s p pre g) (hs : g.size ≤ fuel) :
    Ends (fun _ s' => R s p pre g s') (E s p pre g) (walk fuel parent g.roots.head? s) := by
  induction fuel generalizing parent s p pre g with
  | zero =>
    cases g with
    | nil => exact (hnone 0 parent s).symm ▸ hnil h
    | node a below rest => exact absurd hs (by simp [Forest.size])
  | succ fuel ih =>
    cases g with
    | nil => exact (hnone (fuel + 1) parent s).symm ▸ hnil h
    | node a below rest =>
      obtain ⟨t, j⟩ := s
      let o : Cursor := ⟨t, p, pre, a, below, rest⟩
      have hsize : o.ahead.size = below.size + rest.size + 1 := rfl
      rw [Forest.size] at hs
      have hv := hvisit (o := o) fuel h fun {u d b} j' hb hbs => by
        have hbelow : b.size ≤ below.size := hbs
        rw [run_fromFirst _ (hahead hb)]
        exact ih (some d) hb (by omega)
      rw [Forest.roots, List.head?_cons, hsome]
      -- only the size of what is ahead decreases, the tree and the list may both be others
      refine hv.bind ?_
      rintro _ s' ⟨p', pre', g', hg', hlt, rfl, hr, he⟩
      exact (ih parent hg' (by omega)).mono (fun _ => hr) he

/-- A walk over a forest ahead ends as its visits have it, for every bound that is not below the size of the forest. A
visit may rely on the walk through the children of its delegate. -/
theorem walk_induction (hahead : ∀ {s p pre g}, I s p pre g → s.1.Ahead p pre g)
    (hnil : ∀ {s p pre}, I s p pre .nil → R s p pre .nil s)
    (hvisit : ∀ {o : Cursor} (descend : Ref → Pass σ Unit) {j}, I (o.tree, j) o.parent o.before o.ahead →
      (∀ {t d below} j, I (t, j) d [] below → below.size ≤ o.below.size →
        Ends (fun _ s => R (t, j) d [] below s) (E (t, j) d [] below) (descend (some d) (t, j))) →
      Ends (Proceeds I R E (o.tree, j) o.parent o.before o.ahead) (E (o.tree, j) o.parent o.before o.ahead)
        (f.visit descend o.node (o.tree, j)))
    {fuel : Nat} {s : Tree × σ} (h : I s p pre g) (hs : g.size ≤ fuel) :
    Ends (fun _ s' => R s p pre g s') (E s p pre g) (f.walk fuel g.roots.head? s) :=
  visits_induction (I := fun _ => I) (fun descend _ => f.visit descend) (fun fuel _ => f.walk fuel)
    (fun fuel _ => f.walk_none fuel) (fun _ _ _ => rfl) hahead hnil
    (fun fuel => hvisit (fromFirst fun _ => f.walk fuel)) none h hs

end

/-- A walk over a forest ahead turns it into another one. -/
theorem walk_ends (hf : f.Respects drops) {fuel : Nat} {g : Forest Nat} (h : t.Ahead p pre g)
    (hs : g.size ≤ fuel) (j : σ) :
    Ends (fun _ s => t.Goes drops p pre g s.1) (fun halt s => f.Fails halt s ∧ t.Goes drops p pre g s.1)
      (f.walk fuel g.roots.head? (t, j)) := by
  refine walk_induction (I := fun s p pre g => s.1.Ahead p pre g) (R := fun s p pre g s' => s.1.Goes drops p pre g s'.1)
    (E := fun s p pre g halt s' => f.Fails halt s' ∧ s.1.Goes drops p pre g s'.1) id .refl ?_ h hs
  intro o descend j ho hd
  refine ((hf.carries hd ho).visit_ends ho j).mono ?_ fun _ _ he => ⟨he.1, he.2.goes⟩
  rintro _ s ⟨next, hover, rfl⟩
  obtain ⟨p', pre', g', hg', -, hlt, hn, hgo⟩ := hover.proceed
  exact ⟨p', pre', g', hg', hlt, hn, fun v => hgo v.1, fun _ v he => ⟨he.1, hgo v.1 he.2⟩⟩

/-! ### Passes -/

theorem apply_none (f : Filter κ σ) (t : Tree) (j : σ) : f.apply none t j = (.ok (), t, j) :=
  f.walk_none t.size (t, j)

/-- A pass is a walk over all that is below the start node. -/
theorem apply_some (f : Filter κ σ) (ht : t.Linked) (start : Nat) (j : σ) :
    f.apply (some start) t j = f.walk t.size (t.below (some start)).roots.head? (t, j) := by
  rw [← (Ahead.of_below ht start).firstChild]
  rfl

end Filter

end RichText
