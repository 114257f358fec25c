import RichText.Proofs.Pass.Namespaces
import RichText.Proofs.Pass.Recorded

/-!
The calls that a pass makes, in order.

Which rules are called on which nodes, and in which order, is read off the tree as it is before the pass, by recursion
on the forest below the start node. Where all nodes stay the pass makes these calls and no others: a call goes to
whatever node stands where the node stood, and an element that was renamed meanwhile has its later calls under its
former tag.
-/

namespace RichText

open RichText.Tree Effects

variable {κ σ : Type} {f : Filter κ σ} {o : Cursor} {t u v : Tree} {d p : Nat} {pre : List Nat} {g below : Forest Nat}
  {stand : Nat → Nat} {slot : Option String × Nat} {call : RuleCall} {calls : List RuleCall} {j j' : σ}

/-! ### The schedule -/

namespace RuleSet

variable (rules : RuleSet κ σ)

/-- The calls of element rules on a node, by those of the keys that have a rule. -/
def callsOn (x : Nat) (keys : List String) : List (Option String × Nat) :=
  (keys.filter fun key => (rules.element? key).isSome).map fun key => (some key, x)

/-- The calls that are due for a node, with those for the nodes below it. -/
def due (t : Tree) (x : Nat) (below : List (Option String × Nat)) : List (Option String × Nat) :=
  match t.kind? (some x) with
  | some .element =>
    rules.callsOn x [beforeElement, Text.lowerCase ((t.tag? (some x)).getD ""), afterElement] ++
      (below ++ rules.callsOn x [afterChildren])
  | some .text => if rules.text.isSome then [(none, x)] else []
  | _ => []

/-- The calls that are due for a forest. -/
def schedule (t : Tree) : Forest Nat → List (Option String × Nat)
  | .nil => []
  | .node x below rest => rules.due t x (schedule t below) ++ schedule t rest

theorem callsOn_cons (x : Nat) (key : String) (keys : List String) :
    rules.callsOn x (key :: keys) =
      (if (rules.element? key).isSome then [(some key, x)] else []) ++ rules.callsOn x keys := by
  rw [callsOn, List.filter_cons]
  split <;> rfl

theorem due_element {x : Nat} (h : t.kind? (some x) = some .element) (below : List (Option String × Nat)) :
    rules.due t x below =
      rules.callsOn x [beforeElement, Text.lowerCase ((t.tag? (some x)).getD ""), afterElement] ++
        (below ++ rules.callsOn x [afterChildren]) := by
  rw [due, h]

end RuleSet

/-- What is due is the same where nodes keep their kinds and their names. -/
theorem Tree.Recalls.schedule (h : t.Recalls u) (ht : t.Named) (hg : ∀ x ∈ g.toList, x < t.size)
    (rules : RuleSet κ σ) : rules.schedule u g = rules.schedule t g := by
  induction g with
  | nil => rfl
  | node x below rest ihb ihr =>
    have hx : x < t.size := hg x List.mem_cons_self
    have htag : u.tag? (some x) = t.tag? (some x) := by rw [tag?, tag?, h.name? ht hx]
    rw [RuleSet.schedule, RuleSet.schedule, ihb fun y hy => hg y (Forest.mem_toList_below hy _ _),
      ihr fun y hy => hg y (Forest.mem_toList_rest hy _ _), RuleSet.due, RuleSet.due, h.kind hx, htag]

/-! ### Where the nodes of a forest stand -/

/-- In `v` the node `r` stands where `x` stood in `g`, a forest in the list of `p` after `pre` that kept its shape. -/
def Tree.Succeeds (t : Tree) (p : Nat) (pre : List Nat) (g : Forest Nat) (x : Nat) (v : Tree) (r : Ref) : Prop :=
  x ∈ g.toList ∧ ∃ stand : Nat → Nat, t.Turned p pre g v (g.map stand) ∧ r = some (stand x)

/-- The call is of the rule that is due, on the node that stands where the node stood. -/
def Tree.Meets (t : Tree) (p : Nat) (pre : List Nat) (g : Forest Nat) (slot : Option String × Nat)
    (call : RuleCall) : Prop :=
  call.key = slot.1 ∧ t.Succeeds p pre g slot.2 call.given.tree call.given.delegate

theorem Forest.map_id (g : Forest Nat) : g.map id = g := by
  induction g with
  | nil => rfl
  | node x below rest ihb ihr => rw [Forest.map, ihb, ihr, id]

/-- What stands at the node, below it and after it can be told by one function. -/
theorem Cursor.exists_stand (o : Cursor) (h : o.ahead.toList.Nodup) (d : Nat) (standBelow standRest : Nat → Nat) :
    ∃ stand : Nat → Nat, stand o.node = d ∧ (∀ x ∈ o.below.toList, stand x = standBelow x) ∧
      (∀ x ∈ o.rest.toList, stand x = standRest x) ∧
      o.ahead.map stand = .node d (o.below.map standBelow) (o.rest.map standRest) := by
  obtain ⟨hnode, hn⟩ := List.nodup_cons.1 h
  obtain ⟨-, -, hapart⟩ := List.nodup_append.1 hn
  rw [List.mem_append, not_or] at hnode
  let stand := fun x => if x = o.node then d else if x ∈ o.below.toList then standBelow x else standRest x
  have hself : stand o.node = d := if_pos rfl
  have hbelow : ∀ x ∈ o.below.toList, stand x = standBelow x := by
    intro x hx
    have hne : x ≠ o.node := fun he => hnode.1 (he ▸ hx)
    simp only [stand, if_neg hne, if_pos hx]
  have hrest : ∀ x ∈ o.rest.toList, stand x = standRest x := by
    intro x hx
    have hne : x ≠ o.node := fun he => hnode.2 (he ▸ hx)
    have hnot : x ∉ o.below.toList := fun hb => hapart x hb x hx rfl
    simp only [stand, if_neg hne, if_neg hnot]
  exact ⟨stand, hself, hbelow, hrest, by
    rw [Cursor.ahead, Forest.map, hself, Forest.map_congr hbelow, Forest.map_congr hrest]⟩

namespace Visiting

/-- Where what is below the delegate kept its shape, so did all that was ahead. -/
theorem stands (h : Visiting o v d (o.below.map stand) .attached) :
    ∃ stand' : Nat → Nat, o.tree.Turned o.parent o.before o.ahead v (o.ahead.map stand') ∧ stand' o.node = d ∧
      ∀ x ∈ o.below.toList, stand' x = stand x := by
  obtain ⟨stand', hnode, hbelow, -, he⟩ := o.exists_stand h.start.nodup d stand id
  refine ⟨stand', ?_, hnode, hbelow⟩
  rw [he, Forest.map_id]
  exact h.turned

/-- Where what is after the node kept its shape as well, so did all that was ahead. -/
theorem stands_rest {standRest : Nat → Nat} (h : Visiting o u d (o.below.map stand) .attached)
    (hr : u.Turned o.parent (o.before ++ [d]) o.rest v (o.rest.map standRest)) :
    ∃ stand' : Nat → Nat, o.tree.Turned o.parent o.before o.ahead v (o.ahead.map stand') ∧
      ∀ x ∈ o.rest.toList, stand' x = standRest x := by
  obtain ⟨stand', -, -, hrest, he⟩ := o.exists_stand h.start.nodup d stand standRest
  refine ⟨stand', ?_, hrest⟩
  rw [he]
  exact h.turned_rest hr

/-- A call on the delegate of a visit. -/
theorem meets (call : RuleCall) (h : Visiting o call.given.tree d (o.below.map stand) .attached)
    (hd : call.given.delegate = some d) :
    o.tree.Meets o.parent o.before o.ahead (call.key, o.node) call := by
  obtain ⟨stand', ht, hnode, -⟩ := h.stands
  exact ⟨rfl, List.mem_cons_self, stand', ht, by rw [hd, hnode]⟩

/-- A call on what is below the delegate. -/
theorem meets_below (h : Visiting o u d o.below .attached) (hc : u.Meets d [] o.below slot call) :
    o.tree.Meets o.parent o.before o.ahead slot call := by
  obtain ⟨hkey, hx, stand, ht, hd⟩ := hc
  obtain ⟨stand', ht', -, hbelow⟩ := (h.descend ht).stands
  exact ⟨hkey, Forest.mem_toList_below hx _ _, stand', ht', by rw [hd, hbelow _ hx]⟩

/-- A call on what comes after the node. -/
theorem meets_rest (h : Visiting o u d (o.below.map stand) .attached)
    (hc : u.Meets o.parent (o.before ++ [d]) o.rest slot call) : o.tree.Meets o.parent o.before o.ahead slot call := by
  obtain ⟨hkey, hx, standRest, ht, hd⟩ := hc
  obtain ⟨stand', ht', hrest⟩ := h.stands_rest ht
  exact ⟨hkey, Forest.mem_toList_rest hx _ _, stand', ht', by rw [hd, hrest _ hx]⟩

end Visiting

/-! ### Proxies in which nothing is buffered -/

/-- Writing the buffered name and attributes leaves nothing buffered. -/
theorem OnElement.persistContent_blank {q : ElementProxy} (h : OnElement o q d below .attached) (hn : q.tree.Named)
    (hf : q.fate = .keep) {q' : ElementProxy} (hq : ElementProxy.persistContent q = (.ok .proceed, q')) :
    q'.Blank := by
  rcases h.persistContent_cases with ⟨name, q₁, hr, hp⟩ | ⟨-, u, -, -, hp⟩
  · obtain ⟨q₂, hr', -, hfate, hname, -⟩ := (h.buffer q.fate none q.overrides).replaceBy_name hn name none
    obtain rfl : q₁ = q₂ := congrArg Prod.snd (hr.symm.trans hr')
    obtain rfl : q' = { q₁ with overrides := [] } := congrArg Prod.snd (hq.symm.trans hp)
    exact ⟨hfate.trans hf, hname, rfl⟩
  · obtain rfl : q' = { q with tree := u, pendingName := none, overrides := [] } :=
      congrArg Prod.snd (hq.symm.trans hp)
    exact ⟨hf, rfl, rfl⟩

/-- Persisting an element that stays lets it stay, and leaves nothing buffered. -/
theorem Staying.persist_blank {q : ElementProxy} (h : Staying o q d below) :
    ∃ d' q', ElementProxy.persist q = (.ok .proceed, q') ∧ Staying o q' d' below ∧ q'.Blank := by
  obtain ⟨d', q', hq, h', -, -⟩ := h.persistContent
  exact ⟨d', q', h.persist_eq.trans hq, h', h.persistContent_blank h.recalls.named h.fate hq⟩

namespace Filter

/-- From one state to another the calls that are due for the forest `g` were made, and it kept its shape. -/
structure Follows (f : Filter κ σ) (p : Nat) (pre : List Nat) (g : Forest Nat) (s : Tree × σ) (calls : List RuleCall)
    (s' : Tree × σ) : Prop where
  turned : ∃ stand : Nat → Nat, s.1.Turned p pre g s'.1 (g.map stand)
  recalls : s.1.Recalls s'.1
  runs : f.Runs s calls s'
  meets : List.Forall₂ (s.1.Meets p pre g) (f.rules.schedule s.1 g) calls

/-- A visit is over: the calls that are due for the node were made, and what is in its place kept its shape. -/
structure Visited (f : Filter κ σ) (o : Cursor) (j : σ) (calls : List RuleCall) (next : Ref) (s : Tree × σ) :
    Prop where
  stands : ∃ d, ∃ stand : Nat → Nat, Visiting o s.1 d (o.below.map stand) .attached
  recalls : o.tree.Recalls s.1
  next_eq : next = none ∨ next = o.rest.roots.head?
  runs : f.Runs (o.tree, j) calls s
  meets : List.Forall₂ (o.tree.Meets o.parent o.before o.ahead)
    (f.rules.due o.tree o.node (f.rules.schedule o.tree o.below)) calls

/-- What is asked of the walk through the children of a delegate, for child lists up to a bound. -/
def DescendsFollowing (f : Filter κ σ) (bound : Nat) (descend : Ref → Pass (σ × List RuleCall) Unit) : Prop :=
  ∀ {t d below} j calls, t.Ahead d [] below → t.Named → below.size ≤ bound →
    ∃ u j' new, descend (some d) (t, j, calls) = (.ok (), u, j', calls ++ new) ∧
      f.Follows d [] below (t, j) new (u, j')

/-! ### Visits -/

theorem keyStages_recorded (f : Filter κ σ) (key : String) (keys : List String) :
    f.recorded.keyStages (key :: keys) = match f.rules.element? key with
      | none => f.recorded.keyStages keys
      | some rule =>
        stage (rule.recorded (.element key) f.context Rule.noop) :: f.recorded.keyStages keys := by
  have hkey : f.recorded.rules.element? key = _ := f.rules.element?_recorded key
  rw [keyStages_cons, hkey]
  cases f.rules.element? key <;> rfl

/-- The rules of some keys are called on the delegate one after another. -/
theorem keyStages_follow (hf : f.Keeps) (keys : List String)
    (rest : List (Action Halt (σ × List RuleCall) ElementProxy Unit)) {q : ElementProxy}
    (h : Staying o q d (o.below.map stand)) (hb : q.Blank) (j : σ) (calls : List RuleCall) :
    ∃ d' q' j' new, throughStages (f.recorded.keyStages keys ++ rest) (q, j, calls) =
        throughStages rest (q', j', calls ++ new) ∧
      Staying o q' d' (o.below.map stand) ∧ q'.Blank ∧ f.Runs (q.tree, j) new (q'.tree, j') ∧
      List.Forall₂ (o.tree.Meets o.parent o.before o.ahead) (f.rules.callsOn o.node keys) new := by
  induction keys generalizing q d j calls with
  | nil => exact ⟨d, q, j, [], by rw [List.append_nil]; rfl, h, hb, .done _, .nil⟩
  | cons key keys ih =>
    rw [keyStages_recorded, RuleSet.callsOn_cons]
    cases hr : f.rules.element? key with
    | none => exact ih h hb j calls
    | some rule =>
      obtain ⟨d₁, left, j₁, hrun, h₁, -⟩ := h.rule (hf.element hr) j
      obtain ⟨d₂, q₂, hq, h₂, hb₂⟩ := h₁.persist_blank
      obtain ⟨d', q', j', new, hgo, h', hb', hruns, hmeets⟩ := ih h₂ hb₂ j₁ (calls ++ [.element key q left])
      refine ⟨d', q', j', .element key q left :: new, ?_, h', hb', .element hr hb hrun hq hruns, ?_⟩
      · have hstage := stage_ok (Rule.run_recorded (RuleCall.element key) hrun calls)
        rw [List.append_assoc] at hgo
        exact (throughStages_cons hstage hq).trans hgo
      · exact .cons (h.visiting.meets (.element key q left) h.delegate) hmeets

/-- The stages from the children on. -/
theorem descend_follows (hf : f.Keeps) {descend : Ref → Pass (σ × List RuleCall) Unit}
    (hd : f.DescendsFollowing o.below.size descend) (ha : o.tree.Ahead o.parent o.before o.ahead)
    (hn : o.tree.Named) {q : ElementProxy} (h : Staying o q d o.below) (hb : q.Blank) (j : σ) (calls : List RuleCall) :
    ∃ next q' j' new, throughStages (onTree descend :: f.recorded.keyStages [RuleSet.afterChildren]) (q, j, calls) =
        (.ok next, q', j', calls ++ new) ∧
      (∃ d', ∃ stand : Nat → Nat, Staying o q' d' (o.below.map stand)) ∧
      (next = none ∨ next = o.rest.roots.head?) ∧ f.Runs (q.tree, j) new (q'.tree, j') ∧
      List.Forall₂ (o.tree.Meets o.parent o.before o.ahead)
        (f.rules.schedule o.tree o.below ++ f.rules.callsOn o.node [RuleSet.afterChildren]) new := by
  obtain ⟨u, j₁, new₁, hu, hfollows⟩ := hd j calls h.visiting.inner h.recalls.named (Nat.le_refl _)
  obtain ⟨stand, ht⟩ := hfollows.turned
  have hdescend : onTree descend (q, j, calls) = (.ok (), { q with tree := u }, j₁, calls ++ new₁) := by
    simp only [onTree, h.delegate, hu]
  have h₁ : Staying o { q with tree := u } d (o.below.map stand) :=
    ⟨h.descend ht, h.recalls.trans hfollows.recalls, h.fate⟩
  have hmeets₁ : List.Forall₂ (o.tree.Meets o.parent o.before o.ahead) (f.rules.schedule o.tree o.below) new₁ := by
    rw [← h.recalls.schedule hn fun x hx => ha.lt (Forest.mem_toList_below hx _ _)]
    exact hfollows.meets.imp fun slot call => h.visiting.meets_below
  -- nothing is buffered by the walk, and still the proxy is persisted after it
  obtain ⟨d₂, q₂, hq, h₂, hb₂⟩ := h₁.persist_blank
  have hidle : ElementProxy.Blank { q with tree := u } := ⟨hb.fate, hb.pendingName, hb.overrides⟩
  obtain ⟨d', q', j', new₂, hclose, h', -, hruns₂, hmeets₂⟩ :=
    keyStages_follow hf [RuleSet.afterChildren] [] h₂ hb₂ j₁ (calls ++ new₁)
  rw [List.append_nil] at hclose
  obtain ⟨next, hnext, hor⟩ := h'.successor (ε := Halt) (j', calls ++ new₁ ++ new₂)
  refine ⟨next, q', j', new₁ ++ new₂, ?_, ⟨d', stand, h'⟩, hor, hfollows.runs.append (.idle hidle hq hruns₂),
    List.rel_append hmeets₁ hmeets₂⟩
  rw [← List.append_assoc]
  exact (throughStages_cons hdescend hq).trans (hclose.trans hnext)

theorem visitElement_follows (hf : f.Keeps) {descend : Ref → Pass (σ × List RuleCall) Unit}
    (hd : f.DescendsFollowing o.below.size descend) (ha : o.tree.Ahead o.parent o.before o.ahead)
    (hn : o.tree.Named) (he : o.tree.kind? (some o.node) = some .element) (j : σ) (calls : List RuleCall) :
    ∃ next u j' new, f.recorded.visitElement descend o.node (o.tree, j, calls) = (.ok next, u, j', calls ++ new) ∧
      f.Visited o j new next (u, j') := by
  let q := ElementProxy.ofNode o.tree (some o.node) f.namespaces
  have hbegin : Staying o q o.node (o.below.map id) := by
    rw [Forest.map_id]
    exact .begin ha hn he f.namespaces
  obtain ⟨d₁, q₁, j₁, new₁, hopen, h₁, hb₁, hruns₁, hmeets₁⟩ :=
    keyStages_follow hf [RuleSet.beforeElement, q.currentName, RuleSet.afterElement]
      (onTree descend :: f.recorded.keyStages [RuleSet.afterChildren]) hbegin ⟨rfl, rfl, rfl⟩ j calls
  rw [Forest.map_id] at h₁
  obtain ⟨next, q₂, j₂, new₂, hrest, ⟨d₂, stand, h₂⟩, hor, hruns₂, hmeets₂⟩ :=
    descend_follows hf hd ha hn h₁ hb₁ j₁ (calls ++ new₁)
  refine ⟨next, q₂.tree, j₂, new₁ ++ new₂, ?_, ⟨d₂, stand, h₂.visiting⟩, h₂.recalls, hor, hruns₁.append hruns₂, ?_⟩
  · have hstages : f.recorded.elementStages descend o.node o.tree (j, calls) =
        (.ok next, q₂, j₂, calls ++ (new₁ ++ new₂)) := by
      rw [← List.append_assoc]
      refine Eq.trans ?_ (hopen.trans hrest)
      rw [← stages_eq]
      rfl
    rw [run_visitElement, hstages]
  · rw [RuleSet.due_element _ he]
    exact List.rel_append hmeets₁ hmeets₂

/-- A node for which nothing is due. -/
theorem visited_other (ha : o.tree.Ahead o.parent o.before o.ahead) (hn : o.tree.Named) (j : σ)
    (h : f.rules.due o.tree o.node (f.rules.schedule o.tree o.below) = []) : f.Visited o j [] none (o.tree, j) where
  stands := ⟨o.node, id, by rw [Forest.map_id]; exact .begin ha⟩
  recalls := .refl hn
  next_eq := .inl rfl
  runs := .done _
  meets := h ▸ .nil

theorem visitText_follows (hf : f.Keeps) (ha : o.tree.Ahead o.parent o.before o.ahead) (hn : o.tree.Named)
    (ht : o.tree.kind? (some o.node) = some .text) (j : σ) (calls : List RuleCall) :
    ∃ u j' new, f.recorded.visitText o.node (o.tree, j, calls) = (.ok none, u, j', calls ++ new) ∧
      f.Visited o j new none (u, j') := by
  have hrecorded : f.recorded.rules.text = f.rules.text.map (Rule.recorded .text) := rfl
  rw [visitText, hrecorded]
  cases hr : f.rules.text with
  | none =>
    refine ⟨o.tree, j, [], by rw [List.append_nil]; rfl, visited_other ha hn j ?_⟩
    simp [RuleSet.due, ht, hr]
  | some rule =>
    let q := TextProxy.ofNode o.tree (some o.node)
    obtain ⟨left, j', hrun, h₁⟩ := (TextStaying.begin ha hn ht).rule (hf.text hr) j
    obtain ⟨q', hq, h'⟩ := h₁.persist
    have hcall : rule.recorded .text f.context Rule.noop (q, j, calls) =
        (.ok (), left, j', calls ++ [.text q left]) := Rule.run_recorded .text hrun calls
    have hstage : stage (TextProxy.applyRules f.recorded.context [rule.recorded .text]) (q, j, calls) =
        (.ok none, q', j', calls ++ [.text q left]) := stage_ok (TextProxy.applyRules_ok hcall hq)
    have hstands : ∀ {v}, Visiting o v o.node o.below .attached → Visiting o v o.node (o.below.map id) .attached := by
      intro v hv
      rwa [Forest.map_id]
    refine ⟨q'.tree, j', [.text q left], ?_, ⟨o.node, id, hstands h'.visiting⟩, h'.recalls, .inl rfl,
      .text hr ⟨rfl, rfl⟩ hrun hq (.done _), ?_⟩
    · simp only [Option.map_some]
      rw [hstage]
    · have hdue : f.rules.due o.tree o.node (f.rules.schedule o.tree o.below) = [(none, o.node)] := by
        simp [RuleSet.due, ht, hr]
      rw [hdue]
      exact .cons ((hstands (.begin ha)).meets (.text q left) rfl) .nil

/-- A visit makes the calls that are due, and the walk goes on at what followed the node. -/
theorem visit_follows (hf : f.Keeps) {descend : Ref → Pass (σ × List RuleCall) Unit}
    (hd : f.DescendsFollowing o.below.size descend) (ha : o.tree.Ahead o.parent o.before o.ahead)
    (hn : o.tree.Named) (j : σ) (calls : List RuleCall) :
    ∃ next u j' new, f.recorded.visit descend o.node (o.tree, j, calls) =
        (.ok (next <|> o.rest.roots.head?), u, j', calls ++ new) ∧ f.Visited o j new next (u, j') := by
  have hfollowing : o.tree.nextSibling (some o.node) = o.rest.roots.head? := ha.linked.nextSibling ha.list
  have hother : o.tree.kind? (some o.node) ≠ some .element → o.tree.kind? (some o.node) ≠ some .text →
      f.Visited o j [] none (o.tree, j) := by
    intro he ht
    refine visited_other ha hn j ?_
    rw [RuleSet.due]
    split
    · exact absurd ‹_› he
    · exact absurd ‹_› ht
    · rfl
  have hnothing : calls = calls ++ [] := (List.append_nil calls).symm
  rw [visit, bind_ok (run_get _)]
  simp only [hfollowing]
  rcases hk : o.tree.kind? (some o.node) with _ | kind
  · exact ⟨none, o.tree, j, [], by rw [← hnothing]; rfl, hother (hk ▸ nofun) (hk ▸ nofun)⟩
  · cases kind with
    | element =>
      obtain ⟨next, u, j', new, hu, hv⟩ := visitElement_follows hf hd ha hn hk j calls
      exact ⟨next, u, j', new, (bind_ok hu).trans rfl, hv⟩
    | text =>
      obtain ⟨u, j', new, hu, hv⟩ := visitText_follows hf ha hn hk j calls
      exact ⟨none, u, j', new, (bind_ok hu).trans rfl, hv⟩
    | _ => exact ⟨none, o.tree, j, [], by rw [← hnothing]; rfl, hother (hk ▸ nofun) (hk ▸ nofun)⟩

/-- Where a visit is over the walk goes on at what followed the node, and the calls that are due there complete those
that were due for all that was ahead. -/
theorem Visited.proceed {next : Ref} {s : Tree × σ} (h : f.Visited o j calls next s)
    (ha : o.tree.Ahead o.parent o.before o.ahead) (hn : o.tree.Named) :
    ∃ pre, s.1.Ahead o.parent pre o.rest ∧ (next <|> o.rest.roots.head?) = o.rest.roots.head? ∧
      ∀ new s', f.Follows o.parent pre o.rest s new s' →
        f.Follows o.parent o.before o.ahead (o.tree, j) (calls ++ new) s' := by
  obtain ⟨d, stand, hv⟩ := h.stands
  refine ⟨o.before ++ [d], hv.ahead.after, ?_, ?_⟩
  · rcases h.next_eq with rfl | rfl
    · rfl
    · cases o.rest.roots.head? <;> rfl
  · intro new s' hs
    obtain ⟨standRest, ht⟩ := hs.turned
    obtain ⟨stand', ht', -⟩ := hv.stands_rest ht
    refine ⟨⟨stand', ht'⟩, h.recalls.trans hs.recalls, h.runs.append hs.runs, List.rel_append h.meets ?_⟩
    rw [← h.recalls.schedule hn fun x hx => ha.lt (Forest.mem_toList_rest hx _ _)]
    exact hs.meets.imp fun slot call => hv.meets_rest

/-! ### Walks -/

/-- A walk over a forest ahead makes the calls that are due for it. -/
theorem walk_follows (hf : f.Keeps) {fuel : Nat} (ha : t.Ahead p pre g) (hn : t.Named) (hs : g.size ≤ fuel) (j : σ)
    (calls : List RuleCall) :
    ∃ u j' new, f.recorded.walk fuel g.roots.head? (t, j, calls) = (.ok (), u, j', calls ++ new) ∧
      f.Follows p pre g (t, j) new (u, j') := by
  have hw := walk_induction (f := f.recorded) (I := fun s p pre g => s.1.Ahead p pre g ∧ s.1.Named)
    (R := fun s p pre g s' => ∃ new, s'.2.2 = s.2.2 ++ new ∧ f.Follows p pre g (s.1, s.2.1) new (s'.1, s'.2.1))
    (E := fun _ _ _ _ _ _ => False) And.left ?_ ?_ (s := (t, j, calls)) ⟨ha, hn⟩ hs
  · obtain ⟨⟨⟩, ⟨u, j', _⟩, hu, new, rfl, hfollows⟩ := hw.exists
    exact ⟨u, j', new, hu, hfollows⟩
  · rintro ⟨t, j, calls⟩ p pre ⟨ha, hn⟩
    exact ⟨[], (List.append_nil _).symm, ⟨id, .refl ha⟩, .refl hn, .done _, .nil⟩
  · rintro o descend ⟨j₁, calls⟩ ⟨ha, hn⟩ hd
    have hdescend : f.DescendsFollowing o.below.size descend := by
      intro u d b j' calls hb hbn hbs
      obtain ⟨⟨⟩, ⟨v, j'', _⟩, hv, new, rfl, hfollows⟩ := (hd (j', calls) ⟨hb, hbn⟩ hbs).exists
      exact ⟨v, j'', new, hv, hfollows⟩
    obtain ⟨next, u, j₂, new, hu, hv⟩ := visit_follows hf hdescend ha hn j₁ calls
    obtain ⟨pre', hahead, hnext, hgo⟩ := hv.proceed ha hn
    have hlt : o.rest.size < o.ahead.size := by
      show o.rest.size < o.below.size + o.rest.size + 1
      omega
    rw [hu]
    refine ⟨o.parent, pre', o.rest, ⟨hahead, hv.recalls.named⟩, hlt, hnext, ?_, fun _ _ => id⟩
    rintro ⟨v, j₃, _⟩ ⟨new', rfl, hfollows⟩
    exact ⟨new ++ new', List.append_assoc _ _ _, hgo new' _ hfollows⟩

/-! ### Passes -/

/-- Where all nodes stay a pass succeeds, and the calls of its rules are those of the schedule of the tree as it was
before the pass: in this order, each once, of the rule of that key and on the node that stands where the node stood.
Each rule is given a proxy in which nothing is buffered, of the tree to which all that the rules before it left is
written. -/
theorem applyRecorded_follows (hf : f.Keeps) (ht : t.WellFormed) (start : Ref) (journal : σ) :
    ∃ u journal' calls, f.applyRecorded start t journal = ((.ok (), u, journal'), calls) ∧
      f.apply start t journal = (.ok (), u, journal') ∧ f.Runs (t, journal) calls (u, journal') ∧
      List.Forall₂ (fun slot call => call.key = slot.1 ∧ ∃ stand : Nat → Nat,
          call.given.tree.below start = (t.below start).map stand ∧ call.given.delegate = some (stand slot.2))
        (f.rules.schedule t (t.below start)) calls := by
  have hfst := f.applyRecorded_fst start t journal
  cases start with
  | none =>
    have hnone : f.recorded.apply none t (journal, []) = (.ok (), t, journal, []) := f.recorded.apply_none t _
    refine ⟨t, journal, [], ?_, f.apply_none t journal, .done _, ?_⟩
    · rw [applyRecorded, hnone]
    · rw [below_none]
      exact .nil
  | some start =>
    have ha := Ahead.of_below ht.linked start
    obtain ⟨u, journal', calls, hu, hfollows⟩ := walk_follows hf ha ht.stored.named ha.size_le journal []
    rw [← f.recorded.apply_some ht.linked, List.nil_append] at hu
    have hrecorded : f.applyRecorded (some start) t journal = ((.ok (), u, journal'), calls) := by
      rw [applyRecorded, hu]
    refine ⟨u, journal', calls, hrecorded, ?_, hfollows.runs, hfollows.meets.imp ?_⟩
    · rw [← hfst, hrecorded]
    · rintro slot call ⟨hkey, -, stand, hturned, hd⟩
      exact ⟨hkey, stand, hturned.ahead.below_eq, hd⟩

end Filter

/-! ### A renaming that leads to the tag of another rule -/

namespace Rule

variable (context : κ)

theorem keeps_renameTo (name : String) : KeepsElement context (renameTo name : ElementRule κ σ) := by
  intro q j hm hf
  refine ⟨{ q with pendingName := some (Text.lowerCase name) }, j, ?_, .single ⟨.buffer q q.fate _ q.overrides, hf⟩⟩
  simp only [renameTo, onProxy, ElementProxy.setName_ok hm name]

theorem keeps_noop : KeepsElement context (fun _ _ => noop : ElementRule κ σ) := fun q j _ _ => ⟨q, j, rfl, .refl⟩

end Rule

namespace Filter

/-- Renames `b` to `i` and `i` to `u`, and has rules that do nothing for what comes after a tag and for texts. -/
def shifting : Filter Unit Unit where
  rules := {
    elements := [("b", Rule.renameTo "i"), ("i", Rule.renameTo "u"), ("$", fun _ _ => Rule.noop)]
    text := some fun _ _ => Rule.noop }
  context := ()

theorem shifting_keeps : shifting.Keeps where
  element hr := RuleSet.forall_element (P := KeepsElement ()) (fun entry he => by
    simp only [shifting, List.mem_cons, List.not_mem_nil, or_false] at he
    rcases he with rfl | rfl | rfl
    · exact Rule.keeps_renameTo () "i"
    · exact Rule.keeps_renameTo () "u"
    · exact Rule.keeps_noop ()) hr
  text hr := by
    obtain rfl := Option.some.inj hr
    exact fun q j _ _ => ⟨q, j, rfl, .refl⟩

/-- The rule of the new tag is not called. -/
theorem shifting_follows :
    ∃ u journal' calls, shifting.applyRecorded (some 1) sample () = ((.ok (), u, journal'), calls) ∧
      shifting.apply (some 1) sample () = (.ok (), u, journal') ∧ shifting.Runs (sample, ()) calls (u, journal') ∧
      List.Forall₂ (fun slot call => call.key = slot.1 ∧ ∃ stand : Nat → Nat,
          call.given.tree.below (some 1) = (sample.below (some 1)).map stand ∧
          call.given.delegate = some (stand slot.2))
        [(some "b", 2), (some "$", 2), (none, 3)] calls := by
  have hschedule : shifting.rules.schedule sample (sample.below (some 1)) =
      [(some "b", 2), (some "$", 2), (none, 3)] := by decide +kernel
  rw [← hschedule]
  exact applyRecorded_follows shifting_keeps wellFormed_sample (some 1) ()

end Filter

end RichText
