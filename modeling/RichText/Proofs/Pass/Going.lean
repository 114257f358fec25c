import RichText.Proofs.Pass.Kept

/-!
The state of a visit between two stages, and rules that respect it.

`Going` says that a visit to an element can go on. Whatever a rule does through its proxy leads from one such
state to another; persisting leads to another one or ends the visit at a node that is ahead.
-/

namespace RichText

open RichText.Tree Effects

variable {drops : Prop} {o : Cursor} {d : Nat} {below : Forest Nat} {place : Place} {t : Tree}

/-- A visit to an element can go on with this proxy, and has dropped no node without leave. -/
def Going (drops : Prop) (o : Cursor) (p : ElementProxy) : Prop :=
  ∃ d below place, OnElement o p d below place ∧ o.Keeps drops (place.seat d below) ∧
    (drops ∨ p.fate = .keep ∨ p.fate = .unwrap)

/-- A visit to a text node can go on with this proxy. -/
def TextGoing (drops : Prop) (o : Cursor) (p : TextProxy) : Prop :=
  ∃ below place, OnText o p below place ∧ o.Keeps drops (place.seat o.node below) ∧ (drops ∨ p.fate = .keep)

/-- The walk can go on at `next`: at what followed the visited node, at what took its place or at what is
below a delegate that had left it. -/
inductive Cursor.GoesOn (o : Cursor) (below : Forest Nat) : Place → Ref → Prop
  | none (place : Place) : o.GoesOn below place none
  | rest (place : Place) : o.GoesOn below place o.rest.roots.head?
  | again (present : Forest Nat) : o.GoesOn below (.vacated present) (present ++ o.rest).roots.head?
  | below (present : Forest Nat) : o.GoesOn below (.vacated present) below.roots.head?

/-- A visit is over, and the walk can go on at `next`. -/
def Cursor.Over (drops : Prop) (o : Cursor) (t : Tree) (next : Ref) : Prop :=
  ∃ d below place, Visiting o t d below place ∧ o.Keeps drops (place.seat d below) ∧ o.GoesOn below place next

/-- What holds of a state once persisting answered: the stages go on, or the visit is over with a node to go
on at. -/
def Answered {S : Type} (inv : S → Prop) (post : Ref → S → Prop) : Response → S → Prop
  | .proceed, s => inv s
  | .stop, s => post none s
  | .restart node, s => post (some node) s

theorem Cursor.Keeps.refl (o : Cursor) : o.Keeps drops (.node o.node o.below .nil) := Kept.refl _

/-! ### Elements -/

theorem Going.begin (h : o.tree.Ahead o.parent o.before o.ahead)
    (he : o.tree.kind? (some o.node) = some .element) (namespaces : NamespaceTable) :
    Going drops o (ElementProxy.ofNode o.tree (some o.node) namespaces) :=
  ⟨o.node, o.below, .attached, ⟨.begin h, rfl, rfl, he, .inl rfl⟩, .refl o, .inr (.inl rfl)⟩

theorem Going.over {p : ElementProxy} (h : Going drops o p) : o.Over drops p.tree none := by
  obtain ⟨d, below, place, ho, hk, -⟩ := h
  exact ⟨d, below, place, ho.visiting, hk, .none place⟩

/-- What is in the place of an element is kept where one element replaces another. -/
theorem Visiting.keeps {t' : Tree} {d' : Nat} (h : Visiting o t d below place) (h' : Visiting o t' d' below place)
    (he : o.tree.kind? (some o.node) = some .element) (hk : o.Keeps drops (place.seat d below)) :
    o.Keeps drops (place.seat d' below) := by
  rw [Cursor.Keeps, h'.others_seat he, ← h.others_seat he]
  exact hk

theorem Going.buffer {p : ElementProxy} (h : Going drops o p) (fate : Fate) (pendingName : Option String)
    (overrides : List (String × Option String)) (hf : drops ∨ fate = .keep ∨ fate = .unwrap) :
    Going drops o { p with fate, pendingName, overrides } := by
  obtain ⟨d, below, place, ho, hk, -⟩ := h
  exact ⟨d, below, place, ho.buffer _ _ _, hk, hf⟩

theorem Going.replaceBy {p : ElementProxy} (h : Going drops o p) (name : String) (space : Option String) :
    Going drops o (ElementProxy.replaceBy name space p).2 := by
  obtain ⟨d, below, place, ho, hk, hf⟩ := h
  obtain ⟨d', p', hp, ho', hf'⟩ := ho.replaceBy name space
  rw [hp]
  exact ⟨d', below, place, ho', ho.visiting.keeps ho'.visiting ho.element hk, hf' ▸ hf⟩

theorem Going.persistContent {p : ElementProxy} (h : Going drops o p) :
    Going drops o (ElementProxy.persistContent p).2 := by
  obtain ⟨d, below, place, ho, hk, hf⟩ := h
  obtain ⟨d', p', hp, ho', hf'⟩ := ho.persistContent
  rw [hp]
  exact ⟨d', below, place, ho', ho.visiting.keeps ho'.visiting ho.element hk, hf' ▸ hf⟩

/-- What is kept by carrying out a fate of an element. -/
theorem OnElement.keeps_settle {p : ElementProxy} (h : OnElement o p d below place)
    (hk : o.Keeps drops (place.seat d below)) {fate : Fate} {t : Tree}
    (hv : Visiting o t d (fate.remaining below place) (fate.vacate below place))
    (hf : drops ∨ fate = .keep ∨ fate = .unwrap) :
    o.Keeps drops ((fate.vacate below place).seat d (fate.remaining below place)) := by
  refine hk.sublist (fate.seat_sublist d below place) fun hd => ?_
  rw [hv.others_seat h.element, h.visiting.others_seat h.element, Fate.content_eq (hf.resolve_left hd)]

/-- Carrying out the fate of the delegate alone. -/
theorem Going.persistNode {p : ElementProxy} (h : Going drops o p) :
    Going drops o (ElementProxy.onNode NodeProxy.persist p).2 := by
  obtain ⟨d, below, place, ho, hk, hf⟩ := h
  obtain ⟨q, hq, hqf, ho'⟩ := ho.settle
  have hp : NodeProxy.persist p.toNodeProxy = (.ok ((p.fate.outcome below).getD .proceed), q) := by
    simp [NodeProxy.persist, run_bind, run_map, ho.isMutable, hq]
  rw [ElementProxy.onNode_ok hp]
  exact ⟨d, _, _, ho', ho.keeps_settle hk ho'.visiting hf, by rw [hqf]; exact hf⟩

/-- Where the walk goes on once a delegate has been unwrapped. -/
theorem Cursor.GoesOn.unwrap (o : Cursor) (below : Forest Nat) (place : Place) {c : Nat}
    (hc : below.roots.head? = some c) :
    o.GoesOn (Fate.unwrap.remaining below place) (Fate.unwrap.vacate below place) (some c) := by
  cases place with
  | vacated present => exact hc ▸ .below present
  | attached =>
    have he : (below ++ o.rest).roots.head? = some c := by
      rw [Forest.roots_append, List.head?_append, hc, Option.some_or]
    exact he ▸ .again below

/-- What persisting answers of a fate, for a visit that goes on where the node stays. -/
theorem Cursor.answered_of_outcome {P : Type} {going : P → Prop} {tree : P → Tree} {p : P} {fate : Fate}
    (hg : fate.outcome below = none → going p)
    (hv : Visiting o (tree p) d (fate.remaining below place) (fate.vacate below place))
    (hk : o.Keeps drops ((fate.vacate below place).seat d (fate.remaining below place))) :
    Answered going (fun next p => o.Over drops (tree p) next) ((fate.outcome below).getD .proceed) p := by
  cases fate with
  | keep => exact hg rfl
  | clear => exact hg rfl
  | remove => exact ⟨d, _, _, hv, hk, .none _⟩
  | unwrap =>
    cases hc : below.roots.head? with
    | none =>
      rw [Fate.outcome, hc]
      exact ⟨d, _, _, hv, hk, .none _⟩
    | some c =>
      rw [Fate.outcome, hc]
      exact ⟨d, _, _, hv, hk, .unwrap o below place hc⟩

/-- Persisting the proxy of an element never fails inside a visit. -/
theorem Going.persist {p : ElementProxy} (h : Going drops o p) :
    ∃ r p', ElementProxy.persist p = (.ok r, p') ∧
      Answered (Going drops o) (fun next p => o.Over drops p.tree next) r p' ∧ Going drops o p' := by
  obtain ⟨d, below, place, ho, hk, hf⟩ := h
  obtain ⟨d', p', hp, ho', hf', t, hv⟩ := ho.persist
  have hk' : o.Keeps drops ((p.fate.vacate below place).seat d' (p.fate.remaining below place)) :=
    hv.keeps ho'.visiting ho.element (ho.keeps_settle hk hv hf)
  have hg : Going drops o p' := ⟨d', _, _, ho', hk', hf' ▸ hf⟩
  exact ⟨_, p', hp, o.answered_of_outcome (fun _ => hg) ho'.visiting hk', hg⟩

/-- After the last stage the walk goes on after the replacement of the element, if it has one. -/
theorem Going.successor {ε σ : Type} {p : ElementProxy} (h : Going drops o p) (journal : σ) :
    ∃ next, (ElementProxy.successor : Action ε σ ElementProxy Ref) (p, journal) = (.ok next, p, journal) ∧
      o.Over drops p.tree next := by
  obtain ⟨d, below, place, ho, hk, -⟩ := h
  cases place with
  | attached =>
    obtain ⟨next, hn, rfl | rfl⟩ := ho.successor (ε := ε) journal
    · exact ⟨none, hn, d, below, _, ho.visiting, hk, .none _⟩
    · exact ⟨_, hn, d, below, _, ho.visiting, hk, .rest _⟩
  | vacated present =>
    refine ⟨p.replacement.bind fun new => p.tree.nextSibling (some new), rfl, d, below, _, ho.visiting, hk, ?_⟩
    -- a delegate in no list has no sibling
    have horphan := ho.visiting.ahead.linked.links.orphan ho.visiting.parent_of_left
    rcases ho.replacement with hr | hr
    · rw [hr]
      exact .none _
    · rw [hr, Option.bind_some, horphan.2]
      exact .none _

/-! ### Text nodes -/

theorem TextGoing.begin (h : o.tree.Ahead o.parent o.before o.ahead)
    (ht : o.tree.kind? (some o.node) = some .text) :
    TextGoing drops o (TextProxy.ofNode o.tree (some o.node)) :=
  ⟨o.below, .attached, ⟨.begin h, rfl, rfl, ht⟩, .refl o, .inr rfl⟩

theorem TextGoing.over {p : TextProxy} (h : TextGoing drops o p) : o.Over drops p.tree none := by
  obtain ⟨below, place, ho, hk, -⟩ := h
  exact ⟨o.node, below, place, ho.visiting, hk, .none place⟩

theorem TextGoing.buffer {p : TextProxy} (h : TextGoing drops o p) (fate : Fate) (pendingText : Option String)
    (hf : drops ∨ fate = .keep) : TextGoing drops o { p with fate, pendingText } := by
  obtain ⟨below, place, ho, hk, -⟩ := h
  exact ⟨below, place, ho.buffer _ _, hk, hf⟩

theorem TextGoing.persistContent {p : TextProxy} (h : TextGoing drops o p) :
    TextGoing drops o (TextProxy.persistContent p).2 := by
  obtain ⟨below, place, ho, hk, hf⟩ := h
  obtain ⟨p', hp, ho', hf'⟩ := ho.persistContent
  rw [hp]
  exact ⟨below, place, ho', hk, hf' ▸ hf⟩

/-- What is kept by carrying out a fate of a text node. -/
theorem Cursor.Keeps.settle_text (hk : o.Keeps drops (place.seat d below)) {fate : Fate}
    (hf : drops ∨ fate = .keep) :
    o.Keeps drops ((fate.vacate below place).seat d (fate.remaining below place)) := by
  refine hk.sublist (fate.seat_sublist d below place) fun hd => ?_
  obtain rfl := hf.resolve_left hd
  cases place <;> rfl

/-- Carrying out the fate of the delegate alone. -/
theorem TextGoing.persistNode {p : TextProxy} (h : TextGoing drops o p) :
    TextGoing drops o (TextProxy.onNode NodeProxy.persist p).2 := by
  obtain ⟨below, place, ho, hk, hf⟩ := h
  obtain ⟨q, hq, hqf, ho'⟩ := ho.settle
  have hp : NodeProxy.persist p.toNodeProxy = (.ok ((p.fate.outcome below).getD .proceed), q) := by
    simp [NodeProxy.persist, run_bind, run_map, ho.isMutable, hq]
  rw [TextProxy.onNode_ok hp]
  exact ⟨_, _, ho', hk.settle_text hf, by rw [hqf]; exact hf⟩

/-- Persisting the proxy of a text node never fails inside a visit. -/
theorem TextGoing.persist {p : TextProxy} (h : TextGoing drops o p) :
    ∃ r p', TextProxy.persist p = (.ok r, p') ∧
      Answered (TextGoing drops o) (fun next p => o.Over drops p.tree next) r p' ∧ TextGoing drops o p' := by
  obtain ⟨below, place, ho, hk, hf⟩ := h
  obtain ⟨p', hp, ho', hf'⟩ := ho.persist
  have hk' := hk.settle_text hf
  have hg : TextGoing drops o p' := ⟨_, _, ho', hk', hf' ▸ hf⟩
  exact ⟨_, p', hp, o.answered_of_outcome (fun _ => hg) ho'.visiting hk', hg⟩

end RichText
