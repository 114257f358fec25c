import RichText.Proofs.Pass.Chronicle
import RichText.Proofs.Pass.Ending
import RichText.Proofs.Pass.Outside
import RichText.Proofs.Proxy.Lasting
import RichText.Proofs.Tree.Access

/-!
What fails in a pass, and what its failure leaves.

The chronicle of a pass whose rules only buffer changes has a simple form: all calls and all persisting in it
succeeded, and where the pass failed one more call follows, of the rule that failed. The tree that is left is the
one that this rule saw.
-/

namespace RichText

open RichText.Tree Effects

variable {κ σ P : Type} {f : Filter κ σ} {o : Cursor} {c c' : Chronicle}

/-! ### Chronicles without a failure -/

/-- A rule succeeded, or persisting did, by calls that the tree accepts. -/
def Entry.Accepted : Entry → Prop
  | .visit .. => True
  | .call _ _ _ answer => answer = .ok ()
  | .persist _ before answer _ after => (∃ response, answer = .ok response) ∧ before.Leads after

namespace Chronicle

/-- `c'` continues `c`, and nothing failed in between. -/
abbrev Smooth (c c' : Chronicle) : Prop := Adds Entry.Accepted c c'

/-- The pass that had come to `c` was ended by a rule, which was called on the tree that is left. -/
def Fails (c : Chronicle) (halt : Halt) (s : Tree × σ × Chronicle) : Prop :=
  ∃ e key node c', halt = .failed e ∧ c.Smooth c' ∧ s.2.2 = c' ++ [.call key node s.1 (.error e)]

theorem Fails.of_smooth {halt : Halt} {s : Tree × σ × Chronicle} (h : c.Smooth c') (hf : c'.Fails halt s) :
    c.Fails halt s := by
  obtain ⟨e, key, node, c'', he, hc, hs⟩ := hf
  exact ⟨e, key, node, c'', he, h.trans hc, hs⟩

end Chronicle

theorem Going.leads {p : ElementProxy} (h : Going True o p) : p.tree.Leads (ElementProxy.persist p).2.tree := by
  obtain ⟨d, below, place, ho, -, -⟩ := h
  exact (steady_leads p.tree).persist p (.refl ho.visiting.ahead.linked)

theorem TextGoing.leads {p : TextProxy} (h : TextGoing True o p) : p.tree.Leads (TextProxy.persist p).2.tree := by
  obtain ⟨below, place, ho, -, -⟩ := h
  have hp := (steady_leads p.tree).toMovable.persistText (r := p.delegate) fun hs h => h.setText hs
  exact (hp p ⟨rfl, .refl ho.visiting.ahead.linked⟩).2

/-- One rule after another, without persisting in between. -/
def Rule.inTurn (first second : ElementRule κ σ) : ElementRule κ σ := fun context noop => do
  first context noop
  second context noop

theorem BuffersElement.inTurn {context : κ} {first second : ElementRule κ σ} (h : BuffersElement context first)
    (h' : BuffersElement context second) : BuffersElement context (Rule.inTurn first second) := by
  intro q j
  obtain ⟨fate, pendingName, overrides, he⟩ := h q j
  rcases hr : first context Rule.noop (q, j) with ⟨e | ⟨⟨⟩⟩, q', j'⟩
  · rw [hr] at he
    refine ⟨fate, pendingName, overrides, ?_⟩
    rw [Rule.inTurn, bind_error hr]
    exact he
  · rw [hr] at he
    obtain rfl : q' = { q with fate, pendingName, overrides } := he
    obtain ⟨fate', pendingName', overrides', he'⟩ := h' { q with fate, pendingName, overrides } j'
    refine ⟨fate', pendingName', overrides', ?_⟩
    rw [Rule.inTurn, bind_ok hr]
    exact he'

namespace Filter

/-! ### Stages -/

variable {going : P → Prop} {s : P × σ × Chronicle}

/-- A rule that leaves the tree as it sees it either succeeds, or ends the pass. -/
theorem noted_rule_ends (node : P → NodeProxy) {rule : Rule κ σ P} {context : κ} (key : Option String)
    (hc : c.Smooth s.2.2) (hg : going (rule context Rule.noop (s.1, s.2.1)).2.1)
    (ht : (node (rule context Rule.noop (s.1, s.2.1)).2.1).tree = (node s.1).tree) :
    StageEnds (fun p => (node p).tree) (fun _ s' => going s'.1 ∧ c.Smooth s'.2.2) c.Fails
      (stage (rule.noted key node context Rule.noop) s) := by
  obtain ⟨p, j, c'⟩ := s
  refine noted_ends node key ?_
  dsimp only at hg ht hc
  rcases hr : rule context Rule.noop (p, j) with ⟨e | ⟨⟨⟩⟩, p', j'⟩
  · rw [hr] at ht
    exact ⟨e, key, (node p).delegate, c', rfl, hc, by rw [← ht]⟩
  · rw [hr] at hg
    exact ⟨hg, hc.append rfl⟩

/-- Persisting that succeeds, by accepted calls, leaves an entry that says so. -/
theorem noted_persist_ends (node : P → NodeProxy) {persist : ProxyM P Response} {ended : Tree → Ref → Prop}
    (hc : c.Smooth s.2.2)
    (hp : ∃ r p', persist s.1 = (.ok r, p') ∧ Answered going (fun next p => ended (node p).tree next) r p')
    (hl : (node s.1).tree.Leads (node (persist s.1).2).tree) :
    StageEnds (fun p => (node p).tree)
      (Answered (fun s' => going s'.1 ∧ c.Smooth s'.2.2) fun next s' => ended (node s'.1).tree next ∧ c.Smooth s'.2.2)
      c.Fails (stage (persistNoted node persist) s) := by
  obtain ⟨p, j, c'⟩ := s
  obtain ⟨r, p', hr, ha⟩ := hp
  have hgrown : c.Smooth
      (c' ++ [.persist (node p).delegate (node p).tree (.ok r) (node p').delegate (node p').tree]) := by
    refine hc.append ⟨⟨r, rfl⟩, ?_⟩
    rw [hr] at hl
    exact hl
  refine persistNoted_ends node hr ?_
  cases r with
  | proceed => exact ⟨ha, hgrown⟩
  | stop => exact ⟨ha, hgrown⟩
  | restart node => exact ⟨ha, hgrown⟩

/-! ### Visits -/

/-- A visit stands where it can go on, and nothing failed since `c`. -/
def Clear (c : Chronicle) (o : Cursor) (s : ElementProxy × σ × Chronicle) : Prop :=
  Going True o s.1 ∧ c.Smooth s.2.2

/-- A visit is over, and nothing failed since `c`. -/
def Cleared (c : Chronicle) (o : Cursor) (next : Ref) (s : Tree × σ × Chronicle) : Prop :=
  o.Over True s.1 next ∧ c.Smooth s.2.2

theorem Buffers.rule_clear (hf : f.Buffers) {key : String} {rule : ElementRule κ (σ × Chronicle)}
    (hr : f.noted.rules.element? key = some rule) {s : ElementProxy × σ × Chronicle} (hs : Clear c o s) :
    StageEnds (·.tree) (fun _ => Clear c o) c.Fails (stage (rule f.noted.context Rule.noop) s) := by
  have he : f.noted.rules.element? key = _ := f.rules.element?_noted key
  rw [he] at hr
  obtain ⟨rule, hkey, rfl⟩ := Option.map_eq_some_iff.1 hr
  have hgoing := (hf.respects (absurd trivial)).element hkey s.2.1 hs.1
  refine noted_rule_ends ElementProxy.toNodeProxy (some key) hs.2 hgoing ?_
  obtain ⟨fate, pendingName, overrides, hq⟩ := hf.element hkey s.1 s.2.1
  exact congrArg (·.tree) hq

theorem persist_clear {s : ElementProxy × σ × Chronicle} (hs : Clear c o s) :
    StageEnds (·.tree)
      (Answered (Clear c o) fun next s' => Cleared c o next (s'.1.tree, s'.2)) c.Fails
      (stage Writers.noted.element s) := by
  obtain ⟨r, p', hp, ha, -⟩ := hs.1.persist
  exact noted_persist_ends ElementProxy.toNodeProxy hs.2 ⟨r, p', hp, ha⟩ hs.1.leads

theorem successor_clear {s : ElementProxy × σ × Chronicle} (hs : Clear c o s) :
    StageEnds (·.tree) (fun next s' => Cleared c o next (s'.1.tree, s'.2)) c.Fails
      ((ElementProxy.successor : Action Halt (σ × Chronicle) ElementProxy Ref) s) := by
  obtain ⟨next, hn, ho⟩ := hs.1.successor (ε := Halt) s.2
  rw [show s = (s.1, s.2) from rfl, hn]
  exact ⟨ho, hs.2⟩

theorem Buffers.text_clear (hf : f.Buffers) (h : o.tree.Ahead o.parent o.before o.ahead)
    (ht : o.tree.kind? (some o.node) = some .text) (j : σ) (c : Chronicle) :
    Ends (Cleared c o) c.Fails
      (f.noted.visitTextBy .noted o.node (o.tree, j, c)) := by
  let clear := fun s : TextProxy × σ × Chronicle => TextGoing True o s.1 ∧ c.Smooth s.2.2
  refine visitTextBy_ends clear clear clear (fun _ => ?_)
    ⟨.begin h ht, .refl c⟩ (fun {rule} hr s hs => ?_) (fun s hs => ?_) fun s hs => ⟨hs.1.over, hs.2⟩
  · exact ⟨(TextGoing.begin h ht).over, .refl c⟩
  · obtain ⟨rule, hkey, rfl⟩ := Option.map_eq_some_iff.1 hr
    have hgoing := (hf.respects (absurd trivial)).text hkey s.2.1 hs.1
    refine noted_rule_ends TextProxy.toNodeProxy none hs.2 hgoing ?_
    obtain ⟨fate, pendingText, hq⟩ := hf.text hkey s.1 s.2.1
    exact congrArg (·.tree) hq
  · obtain ⟨r, p', hp, ha, -⟩ := hs.1.persist
    exact noted_persist_ends TextProxy.toNodeProxy hs.2 ⟨r, p', hp, ha⟩ hs.1.leads

/-- What a walk over a forest leaves where nothing fails. -/
def Clears (c : Chronicle) (t : Tree) (p : Nat) (pre : List Nat) (g : Forest Nat) (s : Tree × σ × Chronicle) : Prop :=
  t.Goes True p pre g s.1 ∧ c.Smooth s.2.2

theorem Buffers.course_clear (hf : f.Buffers) (h : o.tree.Ahead o.parent o.before o.ahead) (j : σ) (c : Chronicle)
    {descend : Ref → Pass (σ × Chronicle) Unit}
    (hd : ∀ {t d below} s, t.Ahead d [] below → below.size ≤ o.below.size →
      Ends (fun _ s' => Clears s.2 t d [] below s') s.2.Fails (descend (some d) (t, s))) :
    f.noted.Course .noted o descend (j, c) (Clear c o) (Clear c o) (Clear c o) (Cleared c o) c.Fails where
  begin he := ⟨.begin h he f.namespaces, .refl c⟩
  rule hr _ hs := hf.rule_clear hr hs
  persist _ := persist_clear
  descend s hs := by
    obtain ⟨d, below, place, ho, hgo⟩ := hs.1.descend
    refine onTree_leaves ?_
    rw [ho.delegate]
    exact (hd s.2 ho.visiting.inner ho.visiting.size).mono (fun _ s' hw => ⟨hgo s'.1 hw.1, hs.2.trans hw.2⟩)
      fun _ _ hw => hw.of_smooth hs.2
  closing _ hs :=
    closing_ends (Cleared c o) (Clear c o) (Clear c o) (Clear c o) (persist_clear hs)
      (fun hr _ => hf.rule_clear hr) (fun _ => persist_clear) (fun _ => successor_clear) fun _ _ => id
  text ht := hf.text_clear h ht j c
  other _ _ := ⟨⟨o.node, o.below, .attached, .begin h, .refl o, .none _⟩, .refl c⟩

/-! ### Walks -/

theorem Buffers.walk_clears (hf : f.Buffers) {t : Tree} {p : Nat} {pre : List Nat} {g : Forest Nat} {fuel : Nat}
    (h : t.Ahead p pre g) (hs : g.size ≤ fuel) (parent : Ref) (j : σ) (c : Chronicle) :
    Ends (fun _ s => Clears c t p pre g s) c.Fails (f.noted.walkBy .noted fuel parent g.roots.head? (t, j, c)) := by
  refine walkBy_induction (I := fun _ s p pre g => s.1.Ahead p pre g)
    (R := fun s p pre g s' => Clears s.2.2 s.1 p pre g s') (E := fun s _ _ _ => s.2.2.Fails)
    id (fun h => ⟨.refl h, .refl _⟩) ?_ (s := (t, j, c)) h hs
  rintro o parent fuel ⟨j, c⟩ ho hd
  -- the arrival is told before the visit
  let c₁ : Chronicle := c ++ [.visit parent o.node o.tree]
  have hc₁ : c.Smooth c₁ := (Chronicle.Adds.refl c).append trivial
  have hcome : f.noted.comeTo .noted (fromFirst (f.noted.walkBy .noted fuel)) parent o.node (o.tree, j, c) =
      f.noted.visitBy .noted (fromFirst (f.noted.walkBy .noted fuel)) o.node (o.tree, j, c₁) := rfl
  rw [hcome]
  refine ((hf.course_clear ho j c₁ fun s ha hle => hd s ha hle).visit_ends ho).mono ?_ fun _ _ he => he.of_smooth hc₁
  rintro _ s ⟨next, ⟨hover, hc⟩, rfl⟩
  obtain ⟨p', pre', g', hg', -, hlt, hn, hgo⟩ := hover.proceed
  exact ⟨p', pre', g', hg', hlt, hn, fun v hv => ⟨hgo v.1 hv.1, hc₁.trans (hc.trans hv.2)⟩,
    fun _ _ he => he.of_smooth (hc₁.trans hc)⟩

/-! ### Passes -/

theorem Buffers.applyNoted_ends (hf : f.Buffers) {t : Tree} (ht : t.Linked) (start : Ref) (journal : σ) :
    let (outcome, chronicle) := f.applyNoted start t journal
    Ends (fun _ s => Chronicle.Smooth [] s.2.2) (Chronicle.Fails [])
      (outcome.1, outcome.2.1, outcome.2.2, chronicle) := by
  show Ends _ _ (f.noted.walkBy .noted t.size start (t.firstChild start) (t, journal, []))
  cases start with
  | none =>
    rw [show t.firstChild none = none from rfl, walkBy_none]
    exact .refl []
  | some start =>
    have ha := Ahead.of_below ht start
    rw [ha.firstChild]
    exact (hf.walk_clears ha ha.size_le (some start) journal []).mono (fun _ _ h => h.2) fun _ _ h => h

/-- A pass that fails leaves the tree that the rule saw which raised the error: whatever this rule had buffered is not
written, no rule is called after it and nothing is persisted. Before it no rule failed, and no persisting did. -/
theorem apply_failure (hf : f.Buffers) {t : Tree} (ht : t.Linked) (start : Ref) (journal : σ) :
    let (outcome, chronicle) := f.applyNoted start t journal
    outcome = f.apply start t journal ∧ ∀ halt, outcome.1 = .error halt →
      ∃ e key node entries, halt = .failed e ∧ f.Raised e outcome.2 ∧
        chronicle = entries ++ [.call key node outcome.2.1 (.error e)] ∧ ∀ entry ∈ entries, entry.Accepted := by
  have hends := hf.applyNoted_ends ht start journal
  have hsame := f.applyNoted_fst start t journal
  have hraised := (apply_ends hf.throughProxies ht start journal).2
  rcases hr : f.applyNoted start t journal with ⟨⟨answer, u, j⟩, chronicle⟩
  rw [hr] at hends hsame
  refine ⟨hsame, ?_⟩
  rintro halt rfl
  obtain ⟨e, key, node, entries, rfl, ⟨_, rfl, haccepted⟩, hc⟩ := hends
  rcases hraised with he | ⟨e', he', hrule⟩
  · rw [← hsame] at he
    cases he
  · rw [← hsame] at he' hrule
    cases he'
    exact ⟨e, key, node, entries, rfl, hrule, hc, haccepted⟩

/-- Sets an attribute of every `b`, and gives up before it is written. -/
def relenting : Filter Unit Unit where
  rules := { elements := [("b", Rule.inTurn (Rule.mark "id" "1") (Rule.giveUp "enough"))] }
  context := ()

theorem relenting_buffers : relenting.Buffers where
  element hr := by
    refine RuleSet.forall_element (P := BuffersElement ()) (fun entry he => ?_) hr
    rw [List.mem_singleton.1 he]
    exact (Rule.buffers_mark () "id" "1").inTurn (Rule.buffers_giveUp () "enough")
  text hr := nomatch hr

theorem relenting_failure :
    relenting.apply (some 1) sample () = (.error (.failed (.rule "enough")), sample, ()) ∧
      let (outcome, chronicle) := relenting.applyNoted (some 1) sample ()
      outcome = relenting.apply (some 1) sample () ∧ ∀ halt, outcome.1 = .error halt →
        ∃ e key node entries, halt = .failed e ∧ relenting.Raised e outcome.2 ∧
          chronicle = entries ++ [.call key node outcome.2.1 (.error e)] ∧ ∀ entry ∈ entries, entry.Accepted :=
  ⟨by decide +kernel, apply_failure relenting_buffers linked_sample (some 1) ()⟩

end Filter

end RichText
