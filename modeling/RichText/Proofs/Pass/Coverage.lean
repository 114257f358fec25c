import RichText.Proofs.Pass.Chronicle
import RichText.Proofs.Pass.Rules
import RichText.Proofs.Tree.Check

/-!
No node is left out by a pass.

Where rules only buffer changes, a delegate stays in its place until its visit is over. What is below it then
has been visited, or is visited again because the walk restarts at it. So the chronicle of a pass that succeeds tells of
every text that is left a call of the text rule, and of every element that is left a whole visit.
-/

namespace RichText

open RichText.Tree Effects

variable {κ σ : Type} {f : Filter κ σ} {o : Cursor} {t u : Tree} {d p : Nat} {pre : List Nat}
  {below g g' : Forest Nat} {place : Place} {c c' : Chronicle}

/-! ### Forests in which only elements have children -/

/-- Of the nodes of a forest only elements have nodes below them. -/
def Tree.Leafy (t : Tree) : Forest Nat → Prop
  | .nil => True
  | .node x below rest => (below = .nil ∨ t.kind? (some x) = some .element) ∧ t.Leafy below ∧ t.Leafy rest

@[simp] theorem Tree.leafy_append : t.Leafy (g ++ g') ↔ t.Leafy g ∧ t.Leafy g' := by
  induction g with
  | nil => simp [Leafy]
  | node x below rest _ ih => simp [Leafy, ih, and_assoc]

theorem Tree.Leafy.congr (h : t.Leafy g) (hk : ∀ x ∈ g.toList, u.kind? (some x) = t.kind? (some x)) :
    u.Leafy g := by
  induction g with
  | nil => trivial
  | node x below rest ihb ihr =>
    obtain ⟨hx, hb, hr⟩ := h
    refine ⟨hx.imp_right (hk x List.mem_cons_self).trans, ihb hb fun y hy => hk y ?_, ihr hr fun y hy => hk y ?_⟩
    · exact Forest.mem_toList_below hy _ _
    · exact Forest.mem_toList_rest hy _ _

theorem Forest.eq_nil_of_roots {α : Type} {f : Forest α} (h : f.roots = []) : f = .nil := by
  cases f with
  | nil => rfl
  | node label below rest => cases h

theorem Forest.eq_nil_of_size {α : Type} {f : Forest α} (h : f.size ≤ 0) : f = .nil := by
  cases f with
  | nil => rfl
  | node label below rest => exact absurd h (by simp [Forest.size])

/-- Child lists tell which nodes have nodes below them. -/
theorem Tree.leafy_of_kids (hg : g.Fits t.kids)
    (h : ∀ x ∈ g.toList, t.kids x ≠ [] → t.kind? (some x) = some .element) : t.Leafy g := by
  induction g with
  | nil => trivial
  | node x below rest ihb ihr =>
    obtain ⟨hl, hb, hr⟩ := hg
    refine ⟨?_, ihb hb fun y hy => h y ?_, ihr hr fun y hy => h y ?_⟩
    · by_cases hx : t.kids x = []
      · exact .inl (Forest.eq_nil_of_roots (hl.trans hx))
      · exact .inr (h x List.mem_cons_self hx)
    · exact Forest.mem_toList_below hy _ _
    · exact Forest.mem_toList_rest hy _ _

/-! ### What a chronicle tells -/

/-- The rules of some keys were called in order, those that there are: each on the delegate that was there, which was
then persisted with the answer to go on. They led from one delegate and one tree to others. -/
inductive RuleSet.Ran (rules : RuleSet κ σ) : List String → Ref → Tree → Chronicle → Ref → Tree → Prop
  | done (r : Ref) (t : Tree) : rules.Ran [] r t [] r t
  | skip {key : String} {keys : List String} {r r' : Ref} {t t' : Tree} {entries : Chronicle} :
    rules.element? key = none → rules.Ran keys r t entries r' t' → rules.Ran (key :: keys) r t entries r' t'
  | call {key : String} {rule : ElementRule κ σ} {keys : List String} {r r₁ r' : Ref} {t t₁ t' : Tree}
      {entries : Chronicle} :
    rules.element? key = some rule → rules.Ran keys r₁ t₁ entries r' t' →
      rules.Ran (key :: keys) r t
        (.call (some key) r t (.ok ()) :: .persist r t (.ok .proceed) r₁ t₁ :: entries) r' t'

/-- The entries that a chronicle has after `c` are those of a whole visit to an element, which left the delegate `x`:
the rules before the children ran, by the tag that the element had at the start, the walk through the children of the
delegate `r` came to its end and told `inner`, the delegate was persisted after it with the answer to go on, and the
rule after the children ran. -/
inductive Filter.Completes (f : Filter κ σ) (c : Chronicle) : Chronicle → Ref → Prop
  | visit {parent r r' x : Ref} {node fuel : Nat} {start t t' u v : Tree} {j j' : σ}
      {opening inner closing : Chronicle} :
    start.kind? (some node) = some .element →
    f.rules.Ran [RuleSet.beforeElement, Text.lowerCase ((start.tag? (some node)).getD ""), RuleSet.afterElement]
      (some node) start opening r t →
    Filter.fromFirst (f.noted.walkBy .noted fuel) r (t, j, c ++ .visit parent node start :: opening) =
      (.ok (), t', j', c ++ .visit parent node start :: opening ++ inner) →
    f.rules.Ran [RuleSet.afterChildren] r' u closing x v →
      f.Completes c (.visit parent node start :: opening ++ inner ++ .persist r t' (.ok .proceed) r' u :: closing) x

/-- Somewhere the chronicle tells of a whole visit that left the delegate `x`. -/
def Filter.Completed (f : Filter κ σ) (c : Chronicle) (x : Ref) : Prop :=
  ∃ earlier entries later, c = earlier ++ entries ++ later ∧ f.Completes earlier entries x

/-- Where the walk came to a node, it was a child of the one through whose children the walk goes. -/
def Entry.Placed : Entry → Prop
  | .visit parent node tree => tree.parent (some node) = parent
  | .call .. => True
  | .persist .. => True

/-- The walk went on from `c` to `c'`, and came to no node but to children. -/
abbrev Chronicle.Grows (c c' : Chronicle) : Prop := Adds Entry.Placed c c'

/-- The pass did with a node what it does with nodes of its kind: the text rule, if there is one, was called on a text,
and a visit to an element was completed. -/
def Filter.Covered (f : Filter κ σ) (c : Chronicle) (t : Tree) (x : Nat) : Prop :=
  (t.kind? (some x) = some .text → f.rules.text.isSome = true → ∃ seen, .call none (some x) seen (.ok ()) ∈ c) ∧
    (t.kind? (some x) = some .element → f.Completed c (some x))

theorem Filter.Completed.mono {x : Ref} (h : f.Completed c x) (hc : c.Grows c') : f.Completed c' x := by
  obtain ⟨earlier, entries, later, rfl, hx⟩ := h
  obtain ⟨more, rfl, -⟩ := hc
  exact ⟨earlier, entries, later ++ more, List.append_assoc .., hx⟩

theorem Filter.Covered.mono {x : Nat} (h : f.Covered c t x) (hc : c.Grows c')
    (hk : u.kind? (some x) = t.kind? (some x)) : f.Covered c' u x := by
  refine ⟨fun ht hr => ?_, fun he => (h.2 (hk ▸ he)).mono hc⟩
  obtain ⟨seen, hs⟩ := h.1 (hk ▸ ht) hr
  obtain ⟨more, rfl, -⟩ := hc
  exact ⟨seen, List.mem_append_left _ hs⟩

/-! ### Delegates that stay in their place -/

/-- Where nothing was below a node, nothing stands in a place that it left. -/
theorem Visiting.present_nil {present : Forest Nat} (h : Visiting o t d below (.vacated present))
    (hb : o.below = .nil) : present = .nil := by
  have hp := (h.left rfl).size
  rw [hb] at hp
  exact Forest.eq_nil_of_size hp

/-- After a visit to a node without children the walk goes on at what followed. -/
theorem Cursor.Over.next_of_leaf {drops : Prop} {next : Ref} (h : o.Over drops t next) (hb : o.below = .nil) :
    next = none ∨ next = o.rest.roots.head? := by
  obtain ⟨d, below, place, hv, -, hn⟩ := h
  have hsize := hv.size
  rw [hb] at hsize
  obtain rfl : below = .nil := Forest.eq_nil_of_size hsize
  cases hn with
  | none => exact .inl rfl
  | rest => exact .inr rfl
  | below present => exact .inl rfl
  | again present =>
    obtain rfl := hv.present_nil hb
    exact .inr rfl

/-- During a visit a node that is there keeps its kind. -/
theorem Visiting.kind_eq {d' : Nat} {below' : Forest Nat} {place' : Place} (h : Visiting o t d below place)
    (h' : Visiting o u d' below' place') {x : Nat} (hx : x < t.size) (hx' : x < u.size) :
    u.kind? (some x) = t.kind? (some x) := by
  by_cases ho : x < o.tree.size
  · rw [h.evolves.kind ho, h'.evolves.kind ho]
  · have hle := Nat.le_of_not_lt ho
    rw [h.evolves.fresh hle hx, h'.evolves.fresh hle hx']

/-- Persisting the proxy of a delegate in its place. -/
theorem OnElement.persist_attached {q : ElementProxy} (h : OnElement o q d below .attached) :
    ∃ r q', ElementProxy.persist q = (.ok r, q') ∧ match r with
      | .proceed => ∃ d' below', OnElement o q' d' below' .attached ∧ (below' = below ∨ below' = .nil)
      | .stop => ∃ d' below', Visiting o q'.tree d' below' (.vacated .nil)
      | .restart node => ∃ d', Visiting o q'.tree d' .nil (.vacated below) ∧ below.roots.head? = some node := by
  obtain ⟨d', q', hq, ho, -, -⟩ := h.persist
  refine ⟨_, q', hq, ?_⟩
  cases hf : q.fate with
  | keep =>
    rw [hf] at ho
    exact ⟨d', below, ho, .inl rfl⟩
  | remove =>
    rw [hf] at ho
    exact ⟨d', below, ho.visiting⟩
  | clear =>
    rw [hf] at ho
    exact ⟨d', .nil, ho, .inr rfl⟩
  | unwrap =>
    rw [hf] at ho
    cases hc : below.roots.head? with
    | none =>
      have hnil : below = .nil := Forest.eq_nil_of_roots (List.head?_eq_none_iff.1 hc)
      subst hnil
      exact ⟨d', .nil, ho.visiting⟩
    | some c =>
      rw [Fate.outcome, hc]
      exact ⟨d', ho.visiting, rfl⟩

/-! ### Visits -/

namespace Filter

/-- The delegate is in its place, and what is below it was visited if `covered` says so. -/
def Standing (f : Filter κ σ) (c : Chronicle) (covered : Prop) (o : Cursor) (s : ElementProxy × σ × Chronicle) : Prop :=
  ∃ d below, OnElement o s.1 d below .attached ∧ s.1.tree.Leafy below ∧
    (covered → ∀ x ∈ below.toList, f.Covered s.2.2 s.1.tree x) ∧ c.Grows s.2.2

/-- A visit is over: all that is in the place of the node was visited, or the walk restarts there. -/
def Settles (f : Filter κ σ) (c : Chronicle) (o : Cursor) (next : Ref) (s : Tree × σ × Chronicle) : Prop :=
  c.Grows s.2.2 ∧
    ((∃ d below place, Visiting o s.1 d below place ∧ s.1.Leafy (place.seat d below) ∧
        (∀ x ∈ (place.seat d below).toList, f.Covered s.2.2 s.1 x) ∧
        (next = none ∨ next = o.rest.roots.head?)) ∨
      ∃ d below present, Visiting o s.1 d below (.vacated present) ∧ s.1.Leafy present ∧
        next ≠ none ∧ next = present.roots.head?)

/-- Stages settle a visit, or a rule fails. -/
abbrev StagesSettle (f : Filter κ σ) (c : Chronicle) (o : Cursor) (r : Except Halt Ref × ElementProxy × σ × Chronicle) :
    Prop :=
  StageEnds (·.tree) (fun next s => f.Settles c o next (s.1.tree, s.2)) (fun _ s => c.Grows s.2.2) r

variable {covered : Prop} {s : ElementProxy × σ × Chronicle}

/-- A rule that only buffers leaves the delegate standing, and its call is told. -/
theorem rule_stands (hf : f.Buffers) {key : String} {rule : ElementRule κ σ}
    (hkey : f.rules.element? key = some rule) (h : f.Standing c covered o s) :
    StageEnds (·.tree) (fun _ s' => f.Standing c covered o s' ∧ s'.1.delegate = s.1.delegate ∧ s'.1.tree = s.1.tree ∧
        s'.2.2 = s.2.2 ++ [.call (some key) s.1.delegate s.1.tree (.ok ())]) (fun _ s' => c.Grows s'.2.2)
      (stage (rule.noted (some key) ElementProxy.toNodeProxy f.context Rule.noop) s) := by
  obtain ⟨q, j, c'⟩ := s
  obtain ⟨d, below, ho, hl, hc, hg⟩ := h
  obtain ⟨fate, pendingName, overrides, hq⟩ := hf.element hkey q j
  refine noted_ends ElementProxy.toNodeProxy (some key) ?_
  rcases hr : rule f.context Rule.noop (q, j) with ⟨e | ⟨⟨⟩⟩, q', j'⟩
  · exact hg.append trivial
  · rw [hr] at hq
    obtain rfl : q' = { q with fate, pendingName, overrides } := hq
    have hgrow : c'.Grows (c' ++ [.call (some key) q.delegate q.tree (.ok ())]) :=
      (Chronicle.Adds.refl c').append trivial
    exact ⟨⟨d, below, ho.buffer _ _ _, hl, fun h x hx => (hc h x hx).mono hgrow rfl, hg.trans hgrow⟩, rfl, rfl, rfl⟩

/-- What standing below a delegate is not changed by persisting the delegate. -/
theorem standing_of_subset {q q' : ElementProxy} {j' : σ} {d d' : Nat} {below below' : Forest Nat}
    {c₁ c₂ : Chronicle} (ho : OnElement o q d below .attached) (ho' : OnElement o q' d' below' .attached)
    (hb : below' = below ∨ below' = .nil) (hl : q.tree.Leafy below)
    (hc : covered → ∀ x ∈ below.toList, f.Covered c₁ q.tree x) (hg : c.Grows c₁) (hg' : c₁.Grows c₂) :
    f.Standing c covered o (q', j', c₂) := by
  refine ⟨d', below', ho', ?_⟩
  rcases hb with rfl | rfl
  · have hk : ∀ x ∈ below'.toList, q'.tree.kind? (some x) = q.tree.kind? (some x) := fun x hx =>
      ho.visiting.kind_eq ho'.visiting (ho.visiting.inner.lt hx) (ho'.visiting.inner.lt hx)
    exact ⟨hl.congr hk, fun h x hx => (hc h x hx).mono hg' (hk x hx), hg.trans hg'⟩
  · exact ⟨trivial, fun _ _ hx => absurd hx List.not_mem_nil, hg.trans hg'⟩

/-- Persisting a delegate that stands leaves it standing, and is told, or it ends the visit. -/
theorem persist_stands (h : f.Standing c covered o s) :
    StageEnds (·.tree)
      (Answered (fun s' => f.Standing c covered o s' ∧
          s'.2.2 = s.2.2 ++ [.persist s.1.delegate s.1.tree (.ok .proceed) s'.1.delegate s'.1.tree])
        fun next s' => f.Settles c o next (s'.1.tree, s'.2)) (fun _ s' => c.Grows s'.2.2)
      (stage Writers.noted.element s) := by
  obtain ⟨q, j, c'⟩ := s
  obtain ⟨d, below, ho, hl, hc, hg⟩ := h
  obtain ⟨r, q', hq, ha⟩ := ho.persist_attached
  have hgrow : c'.Grows (c' ++ [.persist q.delegate q.tree (.ok r) q'.delegate q'.tree]) :=
    (Chronicle.Adds.refl c').append trivial
  refine persistNoted_ends ElementProxy.toNodeProxy hq ?_
  cases r with
  | proceed =>
    obtain ⟨d', below', ho', hb⟩ := ha
    exact ⟨standing_of_subset ho ho' hb hl hc hg hgrow, rfl⟩
  | stop =>
    obtain ⟨d', below', hv⟩ := ha
    exact ⟨hg.trans hgrow,
      .inl ⟨d', below', _, hv, trivial, fun _ hx => absurd hx List.not_mem_nil, .inl rfl⟩⟩
  | restart node =>
    obtain ⟨d', hv, hn⟩ := ha
    -- nothing is claimed of the children, since the walk comes to all of them again
    have hk : ∀ x ∈ below.toList, q'.tree.kind? (some x) = q.tree.kind? (some x) := fun x hx =>
      ho.visiting.kind_eq hv (ho.visiting.inner.lt hx) (hv.ahead.lt_front hx)
    exact ⟨hg.trans hgrow, .inr ⟨d', .nil, below, hv, hl.congr hk, Option.some_ne_none _, hn.symm⟩⟩

/-- The rules of some keys are called one after another, or one of them ends the visit. -/
theorem keys_ran (hf : f.Buffers) (keys : List String)
    (rest : List (Action Halt (σ × Chronicle) ElementProxy Unit)) (h : f.Standing c covered o s)
    (hrest : ∀ {s' entries}, f.Standing c covered o s' → s'.2.2 = s.2.2 ++ entries →
      f.rules.Ran keys s.1.delegate s.1.tree entries s'.1.delegate s'.1.tree →
      f.StagesSettle c o (stagesBy .noted rest s')) :
    f.StagesSettle c o (stagesBy .noted (f.noted.keyStages keys ++ rest) s) := by
  induction keys generalizing s with
  | nil => exact hrest h (List.append_nil _).symm (.done _ _)
  | cons key keys ih =>
    have hkey : f.noted.rules.element? key = _ := f.rules.element?_noted key
    rw [keyStages_cons, hkey]
    cases hr : f.rules.element? key with
    | none => exact ih h fun hs he hran => hrest hs he (.skip hr hran)
    | some rule =>
      refine Ends.bind (rule_stands hf hr h) fun _ s₁ hs₁ => ?_
      obtain ⟨h₁, hd₁, ht₁, hc₁⟩ := hs₁
      refine persistBy_ends (persist_stands h₁) fun s₂ hs₂ => ?_
      refine ih hs₂.1 fun {s' entries} hs he hran => hrest hs ?_ (.call hr hran)
      rw [he, hs₂.2, hc₁, hd₁, ht₁]
      simp only [List.append_assoc, List.cons_append, List.nil_append]

/-- From `t` to the state left the forest `g` became one whose nodes were all visited. -/
def Covers (f : Filter κ σ) (c : Chronicle) (t : Tree) (p : Nat) (pre : List Nat) (g : Forest Nat)
    (s : Tree × σ × Chronicle) : Prop :=
  c.Grows s.2.2 ∧ ∃ g', t.Turned p pre g s.1 g' ∧ s.1.Leafy g' ∧ ∀ x ∈ g'.toList, f.Covered s.2.2 s.1 x

/-- What is asked of the walk through the children of a delegate, for child lists up to a bound. -/
def DescendsCovering (f : Filter κ σ) (bound : Nat) (descend : Ref → Pass (σ × Chronicle) Unit) : Prop :=
  ∀ {t d below} j c, t.Ahead d [] below → t.Leafy below → below.size ≤ bound →
    Ends (fun _ s => f.Covers c t d [] below s) (fun _ s => c.Grows s.2.2) (descend (some d) (t, j, c))

/-- Where a visit is over the walk goes on at a smaller forest, and all is visited once that is. -/
theorem Settles.proceed {s : Tree × σ × Chronicle} {next : Ref} (h : f.Settles c o next s) (hl : o.tree.Leafy o.ahead) :
    ∃ pre g, s.1.Ahead o.parent pre g ∧ s.1.Leafy g ∧ g.size < o.ahead.size ∧
      (next <|> o.rest.roots.head?) = g.roots.head? ∧
      ∀ s', f.Covers s.2.2 s.1 o.parent pre g s' → f.Covers c o.tree o.parent o.before o.ahead s' := by
  have hsize : o.ahead.size = o.below.size + o.rest.size + 1 := rfl
  have hrest : ∀ {d below place}, Visiting o s.1 d below place → s.1.Leafy o.rest := fun hv =>
    hl.2.2.congr fun x hx => hv.evolves.kind
      (hv.start.lt (Forest.mem_toList_rest hx _ _))
  obtain ⟨hg, ⟨d, below, place, hv, hls, hc, hn⟩ | ⟨d, below, present, hv, hlp, hne, hn⟩⟩ := h
  · refine ⟨_, o.rest, hv.ahead.after, hrest hv, by omega, ?_, ?_⟩
    · rcases hn with rfl | rfl
      · rfl
      · cases o.rest.roots.head? <;> rfl
    · rintro s' ⟨hg', g', ht, hlg, hcg⟩
      have hlt : ∀ x ∈ (place.seat d below).toList, x < s.1.size := fun x hx =>
        hv.ahead.lt_front hx
      have hkind : ∀ x ∈ (place.seat d below).toList, s'.1.kind? (some x) = s.1.kind? (some x) := fun x hx =>
        ht.evolves.kind (hlt x hx)
      refine ⟨hg.trans hg', _, hv.turned_rest ht, leafy_append.2 ⟨hls.congr hkind, hlg⟩, fun x hx => ?_⟩
      rw [Forest.mem_toList_append] at hx
      rcases hx with hx | hx
      · exact (hc x hx).mono hg' (hkind x hx)
      · exact hcg x hx
  · have hp := (hv.left rfl).size
    refine ⟨o.before, present ++ o.rest, hv.ahead, leafy_append.2 ⟨hlp, hrest hv⟩, ?_, ?_, ?_⟩
    · rw [Forest.size_append]
      omega
    · obtain ⟨x, hx⟩ := Option.ne_none_iff_exists'.1 hne
      rw [hx, Forest.roots_append, List.head?_append, ← hn, hx]
      rfl
    · rintro s' ⟨hg', g', ht, hlg, hcg⟩
      exact ⟨hg.trans hg', g', hv.turned_again ht, hlg, hcg⟩

/-- The walk through the children of a delegate leaves it standing, above nodes that were all visited. -/
theorem onTree_stands {descend : Ref → Pass (σ × Chronicle) Unit} (hd : f.DescendsCovering o.below.size descend)
    (h : f.Standing c covered o s) :
    StageEnds (·.tree) (fun _ s' => f.Standing c True o s' ∧ s'.1.delegate = s.1.delegate ∧
        ∃ inner, s'.2.2 = s.2.2 ++ inner ∧ descend s.1.delegate (s.1.tree, s.2) = (.ok (), s'.1.tree, s'.2))
      (fun _ s' => c.Grows s'.2.2) (onTree descend s) := by
  obtain ⟨q, j, c'⟩ := s
  obtain ⟨d, below, ho, hl, -, hg⟩ := h
  have hw := hd j c' ho.visiting.inner hl ho.visiting.size
  rw [← ho.delegate] at hw
  rw [StageEnds, onTree]
  rcases hr : descend q.delegate (q.tree, j, c') with ⟨e | ⟨⟨⟩⟩, u, j', c''⟩
  · rw [hr] at hw
    exact hg.trans hw
  · rw [hr] at hw
    obtain ⟨hgrow, below', ht, hl', hc'⟩ := hw
    obtain ⟨inner, hinner, -⟩ := id hgrow
    exact ⟨⟨d, below', ho.descend ht, hl', fun _ => hc', hg.trans hgrow⟩, rfl, inner, hinner, rfl⟩

/-- A visit whose stages all ran settles, where the chronicle tells of it as a whole. -/
theorem successor_settles (h : f.Standing c True o s) (hx : f.Completed s.2.2 s.1.delegate) :
    f.StagesSettle c o ((ElementProxy.successor : Action Halt (σ × Chronicle) ElementProxy Ref) s) := by
  obtain ⟨d, below, ho, hl, hc, hg⟩ := h
  refine successor_ends (fun next s => f.Settles c o next s) ho fun next hnext => ⟨hg, .inl ?_⟩
  refine ⟨d, below, .attached, ho.visiting, ⟨.inr ho.kind, hl, trivial⟩, fun x hm => ?_, hnext⟩
  rcases List.mem_cons.1 hm with rfl | hm
  · refine ⟨fun ht => ?_, fun _ => ho.delegate ▸ hx⟩
    rw [ho.kind] at ht
    cases ht
  · rw [Forest.toList, List.append_nil] at hm
    exact hc trivial x hm

theorem visitElement_settles (hf : f.Buffers) {fuel : Nat}
    (hd : f.DescendsCovering o.below.size (fromFirst (f.noted.walkBy .noted fuel)))
    (h : o.tree.Ahead o.parent o.before o.ahead) (he : o.tree.kind? (some o.node) = some .element)
    (hl : o.tree.Leafy o.below) (j : σ) {parent : Ref} (hg : c.Grows (c ++ [.visit parent o.node o.tree])) :
    Ends (f.Settles c o) (fun _ s => c.Grows s.2.2)
      (f.noted.visitElementBy .noted (fromFirst (f.noted.walkBy .noted fuel)) o.node
        (o.tree, j, c ++ [.visit parent o.node o.tree])) := by
  let q := ElementProxy.ofNode o.tree (some o.node) f.namespaces
  suffices hstages : f.StagesSettle c o
      (stagesBy .noted (f.noted.stages (fromFirst (f.noted.walkBy .noted fuel)) q.currentName)
        (q, j, c ++ [.visit parent o.node o.tree])) from
    ends_of_stages (fun q : ElementProxy => q.tree) hstages
  have hbegin : f.Standing c False o (q, j, c ++ [.visit parent o.node o.tree]) :=
    ⟨o.node, o.below, ⟨.begin h, rfl, rfl, he, .inl rfl⟩, hl, nofun, hg⟩
  rw [stages_eq]
  -- up to the descent nothing is asked of the nodes below, after it all of them were visited
  refine keys_ran hf _ _ hbegin fun {s₁ opening} h₁ hc₁ hopen => ?_
  refine Ends.bind (onTree_stands hd h₁) fun _ s₂ hs₂ => ?_
  obtain ⟨h₂, hd₂, inner, hc₂, hinner⟩ := hs₂
  refine persistBy_ends (persist_stands h₂) fun s₃ hs₃ => ?_
  obtain ⟨h₃, hc₃⟩ := hs₃
  rw [← List.append_nil (f.noted.keyStages _)]
  refine keys_ran hf _ _ h₃ fun {s₄ closing} h₄ hc₄ hclose => successor_settles h₄ ?_
  obtain ⟨q₁, j₁, c₁⟩ := s₁
  obtain ⟨q₂, j₂, c₂⟩ := s₂
  have hstart : c₁ = c ++ .visit parent o.node o.tree :: opening := hc₁.trans (List.append_assoc ..)
  subst hstart
  obtain rfl : c₂ = c ++ .visit parent o.node o.tree :: opening ++ inner := hc₂
  refine ⟨c, _, [], ?_, .visit he hopen hinner hclose⟩
  rw [hc₄, hc₃, hd₂]
  simp only [List.append_assoc, List.cons_append, List.nil_append, List.append_nil]

/-- A node without children that is over and done with. -/
theorem settles_leaf {d : Nat} {s : Tree × σ × Chronicle} {next : Ref} (hb : o.below = .nil)
    (hv : Visiting o s.1 d below place) (hg : c.Grows s.2.2)
    (hc : f.Covered s.2.2 s.1 d) (hn : next = none ∨ next = o.rest.roots.head?) : f.Settles c o next s := by
  have hsize := hv.size
  rw [hb] at hsize
  obtain rfl : below = .nil := Forest.eq_nil_of_size hsize
  refine ⟨hg, .inl ⟨d, .nil, place, hv, ?_⟩⟩
  cases place with
  | attached => exact ⟨⟨.inl rfl, trivial, trivial⟩, fun x hx => List.mem_singleton.1 hx ▸ hc, hn⟩
  | vacated present =>
    obtain rfl := hv.present_nil hb
    exact ⟨trivial, nofun, hn⟩

/-- The visit to a text stands where it can go on, and the chronicle tells of the call of the text rule. -/
def TextHeard (c : Chronicle) (o : Cursor) (s : TextProxy × σ × Chronicle) : Prop :=
  TextGoing True o s.1 ∧ c.Grows s.2.2 ∧ ∃ seen, .call none (some o.node) seen (.ok ()) ∈ s.2.2

theorem TextHeard.settles {s : TextProxy × σ × Chronicle} {next : Ref} (h : TextHeard c o s) (hb : o.below = .nil)
    (hn : next = none ∨ next = o.rest.roots.head?) : f.Settles c o next (s.1.tree, s.2) := by
  obtain ⟨⟨below, place, ho, -, -⟩, hg, hcall⟩ := h
  refine settles_leaf hb ho.visiting hg ⟨fun _ _ => hcall, fun he => ?_⟩ hn
  rw [ho.visiting.kind.trans ho.text] at he
  cases he

theorem visitText_settles (hf : f.Buffers) (h : o.tree.Ahead o.parent o.before o.ahead)
    (ht : o.tree.kind? (some o.node) = some .text) (hb : o.below = .nil) (j : σ) (hg : c.Grows c') :
    Ends (f.Settles c o) (fun _ s => c.Grows s.2.2) (f.noted.visitTextBy .noted o.node (o.tree, j, c')) := by
  refine visitTextBy_ends (fun s => TextGoing True o s.1 ∧ s.1.delegate = some o.node ∧ c.Grows s.2.2) (TextHeard c o)
    (TextHeard c o) (fun hn => ?_) ⟨.begin h ht, rfl, hg⟩ (fun {rule} hr s hs => ?_) (fun s hs => ?_)
    fun s hs => hs.settles hb (.inl rfl)
  · refine settles_leaf hb (.begin h) hg ⟨fun _ hsome => ?_, fun he => ?_⟩ (.inl rfl)
    · rw [Option.map_eq_none_iff.1 hn] at hsome
      cases hsome
    · rw [ht] at he
      cases he
  · obtain ⟨rule, hkey, rfl⟩ := Option.map_eq_some_iff.1 hr
    obtain ⟨q, j, c'⟩ := s
    obtain ⟨hgoing, hd, hg⟩ := hs
    have hgo := (hf.respects (absurd trivial)).text hkey j hgoing
    refine noted_ends TextProxy.toNodeProxy none ?_
    rcases hrun : rule f.noted.context Rule.noop (q, j) with ⟨e | ⟨⟨⟩⟩, q', j'⟩
    · exact hg.append trivial
    · have hq : (rule f.context Rule.noop (q, j)).2.1 = q' := congrArg (·.2.1) hrun
      exact ⟨hq ▸ hgo, hg.append trivial, q.tree, List.mem_append_right _ (hd ▸ List.mem_singleton_self _)⟩
  · obtain ⟨q, j, c'⟩ := s
    obtain ⟨hgoing, hg, seen, hcall⟩ := hs
    obtain ⟨r, q', hq, ha, hgo⟩ := hgoing.persist
    have hheard : TextHeard c o (q', j, c' ++ [.persist q.delegate q.tree (.ok r) q'.delegate q'.tree]) :=
      ⟨hgo, hg.append trivial, seen, List.mem_append_left _ hcall⟩
    refine persistNoted_ends TextProxy.toNodeProxy hq ?_
    cases r with
    | proceed => exact hheard
    | stop => exact hheard.settles hb (.inl rfl)
    | restart node => exact hheard.settles hb (Cursor.Over.next_of_leaf ha hb)

/-- A visit leaves nothing out that the walk does not come to. -/
theorem visit_settles (hf : f.Buffers) {fuel : Nat}
    (hd : f.DescendsCovering o.below.size (fromFirst (f.noted.walkBy .noted fuel)))
    (h : o.tree.Ahead o.parent o.before o.ahead) (hl : o.tree.Leafy o.ahead) (j : σ) (c : Chronicle) :
    Ends (fun next s => ∃ next', f.Settles c o next' s ∧ next = (next' <|> o.rest.roots.head?))
      (fun _ s => c.Grows s.2.2)
      (f.noted.comeTo .noted (fromFirst (f.noted.walkBy .noted fuel)) (some o.parent) o.node (o.tree, j, c)) := by
  -- the arrival is told before the visit
  have hcome : f.noted.comeTo .noted (fromFirst (f.noted.walkBy .noted fuel)) (some o.parent) o.node (o.tree, j, c) =
      f.noted.visitBy .noted (fromFirst (f.noted.walkBy .noted fuel)) o.node
        (o.tree, j, c ++ [.visit (some o.parent) o.node o.tree]) := rfl
  have hparent : o.tree.parent (some o.node) = some o.parent :=
    h.linked.parent_iff.2 (h.roots_subset List.mem_cons_self)
  have hg : c.Grows (c ++ [.visit (some o.parent) o.node o.tree]) := (Chronicle.Adds.refl c).append hparent
  rw [hcome]
  refine visitBy_ends h (fun he => visitElement_settles hf hd h he hl.2.1 j hg) (fun ht => ?_) fun he ht => ?_
  · exact visitText_settles hf h ht (hl.1.resolve_right (ht ▸ nofun)) j hg
  · exact settles_leaf (hl.1.resolve_right he) (.begin h) hg ⟨fun hk => absurd hk ht, fun hk => absurd hk he⟩ (.inl rfl)

/-- A walk that succeeds has visited every node that it leaves in place of the forest that was ahead. -/
theorem walk_covers (hf : f.Buffers) {fuel : Nat} {g : Forest Nat} (h : t.Ahead p pre g) (hl : t.Leafy g)
    (hs : g.size ≤ fuel) (j : σ) (c : Chronicle) :
    Ends (fun _ s => f.Covers c t p pre g s) (fun _ s => c.Grows s.2.2)
      (f.noted.walkBy .noted fuel (some p) g.roots.head? (t, j, c)) := by
  refine walkBy_induction (I := fun parent s p pre g => parent = some p ∧ s.1.Ahead p pre g ∧ s.1.Leafy g)
    (R := fun s p pre g s' => f.Covers s.2.2 s.1 p pre g s') (E := fun s _ _ _ _ s' => s.2.2.Grows s'.2.2)
    (fun h => h.2.1) (fun h => ⟨.refl _, .nil, .refl h.2.1, trivial, nofun⟩) ?_ (s := (t, j, c)) ⟨rfl, h, hl⟩ hs
  rintro o parent fuel ⟨j, c⟩ ⟨rfl, ho, hlo⟩ hd
  have hdescends : f.DescendsCovering o.below.size (fromFirst (f.noted.walkBy .noted fuel)) :=
    fun j c ha hl hle => hd (j, c) ⟨rfl, ha, hl⟩ hle
  refine (visit_settles hf hdescends ho hlo j c).mono ?_ fun _ _ hg => hg
  rintro _ s ⟨next, hset, rfl⟩
  obtain ⟨pre', g', ha, hlg, hlt, hn, hgo⟩ := hset.proceed hlo
  exact ⟨o.parent, pre', g', ⟨rfl, ha, hlg⟩, hlt, hn, hgo, fun _ _ hg => hset.1.trans hg⟩

/-- A pass comes only to children of the node through whose children it walks; and one that succeeds has called the text
rule on every text, and completed a visit of every element, that is then below the start. -/
theorem applyNoted_covers (hf : f.Buffers) (ht : t.Linked) (start : Ref) (journal : σ)
    (hk : ∀ x ∈ (t.below start).toList, t.kids x ≠ [] → t.kind? (some x) = some .element) :
    let r := f.applyNoted start t journal
    r.1 = f.apply start t journal ∧
      (∀ {parent node tree}, .visit parent node tree ∈ r.2 → tree.parent (some node) = parent) ∧
      (r.1.1 = .ok () → ∀ x ∈ (r.1.2.1.below start).toList,
        (r.1.2.1.kind? (some x) = some .text → f.rules.text.isSome = true →
          ∃ seen, .call none (some x) seen (.ok ()) ∈ r.2) ∧
        (r.1.2.1.kind? (some x) = some .element → f.Completed r.2 (some x))) := by
  have hends : Ends (fun _ s => Chronicle.Grows [] s.2.2 ∧ ∀ x ∈ (s.1.below start).toList, f.Covered s.2.2 s.1 x)
      (fun _ s => Chronicle.Grows [] s.2.2)
      (f.noted.walkBy .noted t.size start (t.firstChild start) (t, journal, [])) := by
    cases start with
    | none =>
      rw [show t.firstChild none = none from rfl, walkBy_none]
      refine ⟨.refl [], fun x hx => ?_⟩
      rw [below_none] at hx
      exact absurd hx List.not_mem_nil
    | some start =>
      have ha := Ahead.of_below ht start
      rw [ha.firstChild]
      refine (walk_covers hf ha (leafy_of_kids ha.fits hk) ha.size_le journal []).mono (fun _ s hw => ?_) fun _ _ => id
      obtain ⟨hg, g, hturned, -, hc⟩ := hw
      exact ⟨hg, hturned.ahead.below_eq ▸ hc⟩
  have hsame := f.applyNoted_fst start t journal
  rw [applyNoted, applyBy] at hsame ⊢
  rcases hx : f.noted.walkBy .noted t.size start (t.firstChild start) (t, journal, []) with ⟨halt | ⟨⟨⟩⟩, u, j, c⟩
  · rw [hx] at hends hsame
    obtain ⟨_, rfl, hplaced⟩ := hends
    exact ⟨hsame, fun hm => hplaced _ hm, fun hok => by cases hok⟩
  · rw [hx] at hends hsame
    obtain ⟨⟨_, rfl, hplaced⟩, hc⟩ := hends
    exact ⟨hsame, fun hm => hplaced _ hm, fun _ => hc⟩

/-- Unwraps every `b`, removes elements without content when their children are done, and looks at every text. -/
def attentive : Filter Unit Unit where
  rules := {
    elements := [("b", Rule.unwrapElement), (RuleSet.afterChildren, Rule.removeIfEmpty)],
    text := some fun _ _ => pure () }
  context := ()

theorem attentive_buffers : attentive.Buffers where
  element hr := by
    refine RuleSet.forall_element (P := BuffersElement ()) (fun entry he => ?_) hr
    rcases List.mem_cons.1 he with rfl | he
    · exact Rule.buffers_unwrapElement ()
    · obtain rfl := List.mem_singleton.1 he
      exact Rule.buffers_removeIfEmpty ()
  text hr := by
    obtain rfl := Option.some.inj hr
    exact fun q j => ⟨q.fate, q.pendingText, rfl⟩

/-- The outer element, the text of the element that was unwrapped and the comment are left. -/
theorem attentive_covers :
    (attentive.apply (some 0) sample ()).1 = .ok () ∧
    ((attentive.apply (some 0) sample ()).2.1.below (some 0)).toList = [1, 3, 4] ∧
      let r := attentive.applyNoted (some 0) sample ()
      r.1 = attentive.apply (some 0) sample () ∧
        (∀ {parent node tree}, .visit parent node tree ∈ r.2 → tree.parent (some node) = parent) ∧
        (r.1.1 = .ok () → ∀ x ∈ (r.1.2.1.below (some 0)).toList,
          (r.1.2.1.kind? (some x) = some .text → attentive.rules.text.isSome = true →
            ∃ seen, .call none (some x) seen (.ok ()) ∈ r.2) ∧
          (r.1.2.1.kind? (some x) = some .element → attentive.Completed r.2 (some x))) :=
  ⟨by decide +kernel, by decide +kernel, applyNoted_covers attentive_buffers linked_sample (some 0) () (by decide)⟩

end Filter

end RichText
