import RichText.Proofs.Pass.Reachable
import RichText.Proofs.Proxy.Lasting
import RichText.Proofs.Tree.Untouched

/-!
What a pass leaves alone.

Whatever its rules do through their proxies, and also where one of them fails, a pass works on nothing but what is below
its start node: every other node keeps its data and its neighbours. The start node gets other children, and the document
element may gain declarations of prefixes.
-/

namespace RichText

open RichText.Tree Effects
open Relation (ReflTransGen)

variable {κ σ : Type} {f : Filter κ σ} {namespaces : NamespaceTable} {start d : Nat} {base below : Forest Nat}
  {t u : Tree} {o : Cursor} {place : Place} {next : Ref}

theorem Tree.movable_untouched (namespaces : NamespaceTable) (B : Set Nat) (t : Tree) :
    Movable (Untouched namespaces B t) :=
  .of_sameData fun hs hu => hu.moves hs

/-- Renewing an element touches only the new node and the document element. -/
theorem Tree.Around.renew (h : Around namespaces start base t u) (ha : t.Ahead start [] base) (ht : t.Stored)
    (old : Ref) (space name : String) (entries : List (String × Option String)) :
    Untouched namespaces {x | x ∈ base.toList} t (Edit.renew namespaces old space name entries u).2 := by
  have hcreate : Edit.createElement space name u = (.ok u.size, (u.createElement space name).2) := rfl
  have hw := Around.writeAttributes ha ht (.inr h.evolves.size) entries _ (h.createElement space name)
  have hmoves := (movable_untouched namespaces {x | x ∈ base.toList} t).takeOver old u.size
  rw [Edit.renew, bind_ok hcreate, run_bind]
  rcases hr : Edit.writeAttributes namespaces (some u.size) entries (u.createElement space name).2 with ⟨e | a, v⟩
  · rw [hr] at hw
    exact hw.untouched
  · rw [hr] at hw
    exact hmoves v hw.untouched

/-- A pass that began at `t` and works on the forest `base` below `start` has the forest `g` in the list of `p` ahead,
in the tree `u`. -/
structure Tree.Inside (namespaces : NamespaceTable) (start : Nat) (base : Forest Nat) (t u : Tree) (p : Nat)
    (g : Forest Nat) : Prop where
  ahead : t.Ahead start [] base
  stored : t.Stored
  around : Around namespaces start base t u
  list : p = start ∨ p ∈ base.toList ∨ t.size ≤ p
  nodes : ∀ {x}, x ∈ g.toList → x ∈ base.toList ∨ t.size ≤ x

/-- The proxy of a visit that can go on, in a tree whose nodes outside `base` are untouched. -/
structure Tending (namespaces : NamespaceTable) (base : Forest Nat) (t : Tree) (o : Cursor) (q : ElementProxy) :
    Prop where
  going : Going True o q
  table : q.namespaces = namespaces
  untouched : Untouched namespaces {x | x ∈ base.toList} t q.tree

/-- The proxy of a visit to a text node, likewise. -/
structure TendingText (namespaces : NamespaceTable) (base : Forest Nat) (t : Tree) (o : Cursor) (q : TextProxy) :
    Prop where
  going : TextGoing True o q
  untouched : Untouched namespaces {x | x ∈ base.toList} t q.tree

/-- A visit is over, in a tree whose nodes outside `base` are untouched. -/
structure Tended (namespaces : NamespaceTable) (base : Forest Nat) (t : Tree) (o : Cursor) (u : Tree) (next : Ref) :
    Prop where
  isOver : o.Over True u next
  untouched : Untouched namespaces {x | x ∈ base.toList} t u

namespace Tree.Inside

theorem evolves (h : Inside namespaces start base t o.tree o.parent o.ahead) (hv : Visiting o u d below place) :
    Evolves {x | x = start ∨ x ∈ base.toList} t u := by
  refine h.around.evolves.trans hv.evolves fun x hx hlt => ?_
  rcases hx with rfl | hx
  · exact h.list.imp_right fun hp => hp.resolve_right hlt.not_ge
  · refine .inr ((h.nodes ?_).resolve_right hlt.not_ge)
    rcases List.mem_cons.1 hx with rfl | hx
    · exact List.mem_cons_self
    · exact Forest.mem_toList_below hx _ _

/-- The delegate of a visit is a node of the forest or a new one. -/
theorem delegate (h : Inside namespaces start base t o.tree o.parent o.ahead) (hv : Visiting o u d below place) :
    d ∈ base.toList ∨ t.size ≤ d := by
  rcases hv.own with rfl | hle
  · exact h.nodes List.mem_cons_self
  · exact .inr (h.around.evolves.size.trans hle)

/-- What the walk goes on at is inside as well. -/
theorem reaches (h : Inside namespaces start base t o.tree o.parent o.ahead) (hv : Visiting o u d below place)
    (hu : Untouched namespaces {x | x ∈ base.toList} t u) {p : Nat} {g : Forest Nat} (hr : o.Reaches p g) :
    Inside namespaces start base t u p g := by
  have hle := h.around.evolves.size
  refine ⟨h.ahead, h.stored, ⟨h.evolves hv, hu⟩, ?_, fun hx => ?_⟩
  · rcases hr.list with rfl | rfl | hge
    · exact h.list
    · exact .inr (h.nodes List.mem_cons_self)
    · exact .inr (.inr (hle.trans hge))
  · rcases hr.nodes hx with hx | hge
    · exact h.nodes hx
    · exact .inr (hle.trans hge)

/-! ### Operations of an element's proxy -/

variable {q q' : ElementProxy}

theorem replaceBy (h : Inside namespaces start base t o.tree o.parent o.ahead) (hq : Tending namespaces base t o q)
    (name : String) (space : Option String) : Tending namespaces base t o (ElementProxy.replaceBy name space q).2 := by
  have hgoing := hq.going.replaceBy name space
  obtain ⟨d, below, place, ho, -, -⟩ := hq.going
  obtain ⟨u, hu, -⟩ := ho.visiting.renew ho.kind q.namespaces (q.spaceFor space) name q.entries
  have hr := ElementProxy.replaceBy_ok ho.isMutable (ho.delegate.symm ▸ hu)
  have haround : Around namespaces start base t q.tree := ⟨h.evolves ho.visiting, hq.untouched⟩
  have hun := haround.renew h.ahead h.stored (some d) (q.spaceFor space) name q.entries
  rw [← hq.table, hu] at hun
  rw [hr] at hgoing ⊢
  exact ⟨hgoing, hq.table, hq.table ▸ hun⟩

theorem persistContent (h : Inside namespaces start base t o.tree o.parent o.ahead)
    (hq : Tending namespaces base t o q) : Tending namespaces base t o (ElementProxy.persistContent q).2 := by
  have hgoing := hq.going.persistContent
  obtain ⟨d, below, place, ho, hk, hf⟩ := hq.going
  rcases ho.persistContent_cases with ⟨name, q', hr, hp⟩ | ⟨-, u, hu, -, hp⟩
  · have hbuffer : Tending namespaces base t o { q with pendingName := none } :=
      ⟨⟨d, below, place, ho.buffer _ _ _, hk, hf⟩, hq.table, hq.untouched⟩
    have hreplaced := h.replaceBy hbuffer name none
    rw [hr] at hreplaced
    rw [hp] at hgoing ⊢
    exact ⟨hgoing, hreplaced.table, hreplaced.untouched⟩
  · have hw := Around.writeAttributes h.ahead h.stored (h.delegate ho.visiting) q.overrides q.tree
      ⟨h.evolves ho.visiting, hq.untouched⟩
    rw [← hq.table, hu] at hw
    rw [hp] at hgoing ⊢
    exact ⟨hgoing, hq.table, hq.table ▸ hw.untouched⟩

/-- Carrying out the fate of the delegate moves nodes and touches none. -/
theorem settle (hq : Tending namespaces base t o q) :
    ∃ answer node, NodeProxy.settle q.toNodeProxy = (.ok answer, node) ∧
      Tending namespaces base t o { q with toNodeProxy := node } := by
  have hmoves := ((movable_untouched namespaces {x | x ∈ base.toList} t).settle _ q.toNodeProxy ⟨rfl, hq.untouched⟩).2
  obtain ⟨d, below, place, ho, hk, hf⟩ := hq.going
  obtain ⟨node, hnode, -, ho'⟩ := ho.settle
  rw [hnode] at hmoves
  exact ⟨_, node, hnode, ⟨d, _, _, ho', ho.keeps_settle hk ho'.visiting hf, .inl trivial⟩, hq.table, hmoves⟩

theorem persist (h : Inside namespaces start base t o.tree o.parent o.ahead) (hq : Tending namespaces base t o q) :
    Tending namespaces base t o (ElementProxy.persist q).2 := by
  have hm : q.isMutable = true := by
    obtain ⟨d, below, place, ho, -, -⟩ := hq.going
    exact ho.isMutable
  obtain ⟨answer, node, hnode, hq'⟩ := settle hq
  cases answer with
  | some response =>
    rw [ElementProxy.persist_settled hm hnode]
    exact hq'
  | none =>
    rw [ElementProxy.persist_content hm hnode]
    exact h.persistContent hq'

/-- Whatever a rule does through the proxy of its element. -/
theorem step (h : Inside namespaces start base t o.tree o.parent o.ahead) (hq : Tending namespaces base t o q)
    (hs : ElementProxy.Step q q') : Tending namespaces base t o q' := by
  cases hs with
  | buffer fate pendingName overrides => exact ⟨hq.going.buffer _ _ _ (.inl trivial), hq.table, hq.untouched⟩
  | persist => exact h.persist hq
  | persistContent => exact h.persistContent hq
  | persistNode =>
    have hmoves := (movable_untouched namespaces {x | x ∈ base.toList} t).persistNode q.delegate
    exact ⟨hq.going.persistNode, hq.table, (hmoves q.toNodeProxy ⟨rfl, hq.untouched⟩).2⟩
  | replaceBy name space => exact h.replaceBy hq name space

theorem steps (h : Inside namespaces start base t o.tree o.parent o.ahead) (hq : Tending namespaces base t o q)
    (hs : ReflTransGen ElementProxy.Step q q') : Tending namespaces base t o q' :=
  holds_of_steps hs hq fun hs ih => h.step ih hs

/-! ### Operations of a text's proxy -/

variable {r r' : TextProxy}

theorem persistTextContent (h : Inside namespaces start base t o.tree o.parent o.ahead)
    (hr : TendingText namespaces base t o r) : TendingText namespaces base t o (TextProxy.persistContent r).2 := by
  have hgoing := hr.going.persistContent
  obtain ⟨below, place, ho, -, -⟩ := hr.going
  by_cases hn : ∃ text, r.pendingText = some text ∧ r.tree.text? r.delegate ≠ some text
  · obtain ⟨text, hp, hne⟩ := hn
    obtain ⟨u, hu, -⟩ := exists_setText (ho.visiting.kind.trans ho.text) text
    rw [TextProxy.persistContent_text hp hne (ho.delegate.symm ▸ hu)] at hgoing ⊢
    exact ⟨hgoing, hr.untouched.setText (h.delegate ho.visiting) hu⟩
  · have hsame : ∀ text, r.pendingText = some text → r.tree.text? r.delegate = some text := fun text hp =>
      by_contra fun hne => hn ⟨text, hp, hne⟩
    rw [TextProxy.persistContent_same hsame] at hgoing ⊢
    exact ⟨hgoing, hr.untouched⟩

theorem persistText (h : Inside namespaces start base t o.tree o.parent o.ahead)
    (hr : TendingText namespaces base t o r) : TendingText namespaces base t o (TextProxy.persist r).2 := by
  have hmoves := ((movable_untouched namespaces {x | x ∈ base.toList} t).settle _ r.toNodeProxy ⟨rfl, hr.untouched⟩).2
  obtain ⟨below, place, ho, hk, hf⟩ := hr.going
  obtain ⟨node, hnode, -, ho'⟩ := ho.settle
  rw [hnode] at hmoves
  have hr' : TendingText namespaces base t o { r with toNodeProxy := node } :=
    ⟨⟨_, _, ho', hk.settle_text hf, .inl trivial⟩, hmoves⟩
  cases hc : r.fate.outcome below with
  | some response =>
    rw [TextProxy.persist_settled ho.isMutable (hc ▸ hnode)]
    exact hr'
  | none =>
    rw [TextProxy.persist_content ho.isMutable (hc ▸ hnode)]
    exact h.persistTextContent hr'

/-- Whatever a rule does through the proxy of its text node. -/
theorem stepText (h : Inside namespaces start base t o.tree o.parent o.ahead) (hr : TendingText namespaces base t o r)
    (hs : TextProxy.Step r r') : TendingText namespaces base t o r' := by
  cases hs with
  | buffer fate pendingText => exact ⟨hr.going.buffer _ _ (.inl trivial), hr.untouched⟩
  | persist => exact h.persistText hr
  | persistContent => exact h.persistTextContent hr
  | persistNode =>
    have hmoves := (movable_untouched namespaces {x | x ∈ base.toList} t).persistNode r.delegate
    exact ⟨hr.going.persistNode, (hmoves r.toNodeProxy ⟨rfl, hr.untouched⟩).2⟩

theorem stepsText (h : Inside namespaces start base t o.tree o.parent o.ahead)
    (hr : TendingText namespaces base t o r) (hs : ReflTransGen TextProxy.Step r r') :
    TendingText namespaces base t o r' :=
  holds_of_steps hs hr fun hs ih => h.stepText ih hs

end Tree.Inside

/-! ### Walks -/

namespace Filter

/-- What a walk over a forest inside leaves. -/
def Confines (f : Filter κ σ) (base : Forest Nat) (t u : Tree) (p : Nat) (pre : List Nat) (g : Forest Nat)
    (v : Tree) : Prop :=
  u.Goes True p pre g v ∧ Untouched f.namespaces {x | x ∈ base.toList} t v

/-- A visit can go on after each of its stages, with all nodes outside untouched. -/
theorem ThroughProxies.carries (hf : f.ThroughProxies) {descend : Ref → Pass σ Unit}
    (ho : o.tree.Ahead o.parent o.before o.ahead) (h : Inside f.namespaces start base t o.tree o.parent o.ahead)
    (hd : ∀ {u d below} j, u.Ahead d [] below → Inside f.namespaces start base t u d below →
      below.size ≤ o.below.size →
      Ends (fun _ s => f.Confines base t u d [] below s.1)
        (fun halt s => f.Fails halt s ∧ f.Confines base t u d [] below s.1)
        (descend (some d) (u, j))) :
    f.Carries o descend (Tending f.namespaces base t o) (TendingText f.namespaces base t o)
      (Tended f.namespaces base t o) where
  leave := ⟨⟨o.node, o.below, .attached, .begin ho, .refl o, .none _⟩, h.around.untouched⟩
  begin he := ⟨.begin ho he f.namespaces, rfl, h.around.untouched⟩
  rule hkey q j hq := h.steps hq (hf.element hkey q j)
  descend {s} hs := by
    obtain ⟨d, below, place, hd', hgo⟩ := hs.going.descend
    have hinside := h.reaches hd'.visiting hs.untouched (Cursor.reaches_below hd'.visiting)
    have hw := hd s.2 hd'.visiting.inner hinside hd'.visiting.size
    rw [← hd'.delegate] at hw
    simp only [onTree]
    rcases hr : descend s.1.delegate (s.1.tree, s.2) with ⟨e | a, u, j'⟩
    · rw [hr] at hw
      exact ⟨hw.1, (hgo u hw.2.1).over, hw.2.2⟩
    · rw [hr] at hw
      exact ⟨hgo u hw.1, hs.table, hw.2⟩
  persist {q} hq := by
    have hq' := h.persist hq
    obtain ⟨r, q', hp, ha, -⟩ := hq.going.persist
    rw [hp] at hq'
    refine ⟨r, q', hp, ?_⟩
    cases r with
    | proceed => exact hq'
    | stop => exact ⟨ha, hq'.untouched⟩
    | restart node => exact ⟨ha, hq'.untouched⟩
  successor j hq := by
    obtain ⟨next, hn, hover⟩ := hq.going.successor j
    exact ⟨next, hn, hover, hq.untouched⟩
  halt hq := ⟨hq.going.over, hq.untouched⟩
  beginText he := ⟨.begin ho he, h.around.untouched⟩
  textRule hr q j hq := h.stepsText hq (hf.text hr q j)
  persistText {q} hq := by
    have hq' := h.persistText hq
    obtain ⟨r, q', hp, ha, -⟩ := hq.going.persist
    rw [hp] at hq'
    refine ⟨r, q', hp, ?_⟩
    cases r with
    | proceed => exact hq'
    | stop => exact ⟨ha, hq'.untouched⟩
    | restart node => exact ⟨ha, hq'.untouched⟩
  haltText hq := ⟨hq.going.over, hq.untouched⟩

/-- A walk inside leaves all nodes outside untouched, even where a rule fails. -/
theorem walk_confines (hf : f.ThroughProxies) {p : Nat} {pre : List Nat} {g : Forest Nat} (hg : u.Ahead p pre g)
    (h : Inside f.namespaces start base t u p g) {fuel : Nat} (hs : g.size ≤ fuel) (j : σ) :
    Ends (fun _ s => f.Confines base t u p pre g s.1) (fun halt s => f.Fails halt s ∧ f.Confines base t u p pre g s.1)
      (f.walk fuel g.roots.head? (u, j)) := by
  refine walk_induction
    (I := fun s p pre g => s.1.Ahead p pre g ∧ Inside f.namespaces start base t s.1 p g)
    (R := fun s p pre g s' => f.Confines base t s.1 p pre g s'.1)
    (E := fun s p pre g halt s' => f.Fails halt s' ∧ f.Confines base t s.1 p pre g s'.1)
    And.left (fun h => ⟨.refl h.1, h.2.around.untouched⟩) ?_ ⟨hg, h⟩ hs
  intro o descend j ho hd
  have hcarries := hf.carries ho.1 ho.2 fun j ha hi hle => hd j ⟨ha, hi⟩ hle
  refine (hcarries.visit_ends ho.1 j).mono ?_ fun _ _ he => ⟨he.1, he.2.isOver.goes, he.2.untouched⟩
  rintro _ s ⟨next, htended, rfl⟩
  obtain ⟨p', pre', g', hg', hreach, hlt, hn, hgo⟩ := htended.isOver.proceed
  obtain ⟨d, below, place, hv, -, -⟩ := htended.isOver
  exact ⟨p', pre', g', ⟨hg', ho.2.reaches hv htended.untouched hreach⟩, hlt, hn, fun v hc => ⟨hgo v.1 hc.1, hc.2⟩,
    fun _ v he => ⟨he.1, hgo v.1 he.2.1, he.2.2⟩⟩

/-! ### Passes -/

/-- Whether it succeeds or a rule fails, a pass leaves every node alone that is not below its start node. The links of
such a node stay, but for the first and the last child of the start node, and so do its name, its attributes or its
text; only the document element may gain declarations of prefixes that the table binds. -/
theorem apply_outside (hf : f.ThroughProxies) (ht : t.Linked) (hs : t.Stored) (start : Ref) (journal : σ) {x : Nat}
    (hx : x < t.size) (hb : x ∉ (t.below start).toList) :
    let u := (f.apply start t journal).2.1
    u.parent (some x) = t.parent (some x) ∧ u.prevSibling (some x) = t.prevSibling (some x) ∧
      u.nextSibling (some x) = t.nextSibling (some x) ∧
      (some x ≠ start → u.firstChild (some x) = t.firstChild (some x) ∧ u.lastChild (some x) = t.lastChild (some x)) ∧
      (t.documentElement ≠ some x → u.content? (some x) = t.content? (some x)) ∧
      (t.documentElement = some x → ∃ name old added, t.content? (some x) = some (.element name old) ∧
        u.content? (some x) = some (.element name (old ++ added)) ∧ f.namespaces.Declares old added) := by
  intro u
  cases start with
  | none =>
    have hu : u = t := congrArg (fun r => r.2.1) (f.apply_none t journal)
    rw [hu]
    refine ⟨rfl, rfl, rfl, fun _ => ⟨rfl, rfl⟩, fun _ => rfl, fun hd => ?_⟩
    exact (Untouched.refl f.namespaces ∅ t).content_documentElement hs hd id
  | some start =>
    have ha := Ahead.of_below ht start
    have hinside : Inside f.namespaces start (t.below (some start)) t t start (t.below (some start)) :=
      ⟨ha, hs, ⟨.refl _ ht, .refl _ _ t⟩, .inl rfl, .inl⟩
    have hw := walk_confines hf ha hinside ha.size_le journal
    rw [← f.apply_some ht] at hw
    have hu : f.Confines (t.below (some start)) t t start [] (t.below (some start))
        (f.apply (some start) t journal).2.1 := by
      rcases hr : f.apply (some start) t journal with ⟨e | a, s⟩
      · rw [hr] at hw
        exact hw.2
      · rw [hr] at hw
        exact hw
    obtain ⟨⟨g, hg, -⟩, huntouched⟩ := hu
    obtain ⟨hparent, hprev, hnext, hchildren⟩ := ha.links_outside hg.evolves hx hb
    exact ⟨hparent, hprev, hnext, fun hne => hchildren fun he => hne (congrArg some he),
      huntouched.content hs hx hb, fun hd => huntouched.content_documentElement hs hd hb⟩

end Filter

/-! ### A pass that a rule ends -/

namespace Rule

variable (context : κ)

/-- Sets an attribute of every element it meets. -/
def mark (key value : String) : ElementRule κ σ := fun _ _ => onProxy (ElementProxy.setAttribute key value)

/-- Gives up on every element it meets. -/
def giveUp (message : String) : ElementRule κ σ := fun _ _ => throw (.rule message)

theorem buffers_mark (key value : String) : BuffersElement context (mark key value : ElementRule κ σ) := by
  intro q j
  by_cases hm : q.isMutable = true
  · have he := ElementProxy.onNode_ok (p := q) (NodeProxy.requireMutable_ok hm .setAttribute)
    refine ⟨q.fate, q.pendingName, Keyed.put key (some value) q.overrides, ?_⟩
    simp only [mark, onProxy, ElementProxy.setAttribute, bind_ok he]
    rfl
  · have he := NodeProxy.requireMutable_error (Bool.eq_false_iff.2 hm) .setAttribute
    refine ⟨q.fate, q.pendingName, q.overrides, ?_⟩
    simp only [mark, onProxy, ElementProxy.setAttribute, bind_error (ElementProxy.onNode_error (p := q) he)]

theorem buffers_giveUp (message : String) : BuffersElement context (giveUp message : ElementRule κ σ) :=
  fun q _ => ⟨q.fate, q.pendingName, q.overrides, rfl⟩

end Rule

namespace Filter

/-- Sets an attribute under a bound prefix, and gives up once it is written. -/
def halting : Filter Unit Unit where
  rules := { elements := [("b", Rule.mark "x:id" "1"), ("$", Rule.giveUp "enough")] }
  namespaces := ⟨[("x", "urn:x")]⟩
  context := ()

theorem halting_buffers : halting.Buffers where
  element hr := by
    refine RuleSet.forall_element (P := BuffersElement ()) (fun entry he => ?_) hr
    simp only [halting, List.mem_cons, List.not_mem_nil, or_false] at he
    rcases he with rfl | rfl
    · exact Rule.buffers_mark () "x:id" "1"
    · exact Rule.buffers_giveUp () "enough"
  text hr := nomatch hr

theorem stored_sample : sample.Stored := ⟨rfl, by decide⟩

theorem halting_outside :
    sample.documentElement = some 1 ∧ 1 ∉ (sample.below (some 1)).toList ∧
      let u := (halting.apply (some 1) sample ()).2.1
      u.parent (some 1) = sample.parent (some 1) ∧ u.prevSibling (some 1) = sample.prevSibling (some 1) ∧
        u.nextSibling (some 1) = sample.nextSibling (some 1) ∧
        (some 1 ≠ some 1 → u.firstChild (some 1) = sample.firstChild (some 1) ∧
          u.lastChild (some 1) = sample.lastChild (some 1)) ∧
        (sample.documentElement ≠ some 1 → u.content? (some 1) = sample.content? (some 1)) ∧
        (sample.documentElement = some 1 → ∃ name old added, sample.content? (some 1) = some (.element name old) ∧
          u.content? (some 1) = some (.element name (old ++ added)) ∧ halting.namespaces.Declares old added) :=
  ⟨rfl, by decide,
    apply_outside halting_buffers.throughProxies linked_sample stored_sample (some 1) () (by decide) (by decide)⟩

example : (halting.apply (some 1) sample ()).1 = .error (.failed (.rule "enough")) ∧
    (halting.apply (some 1) sample ()).2.1.attributes (some 1) = [.declaration "x" "urn:x"] := by
  decide +kernel

end Filter

end RichText
