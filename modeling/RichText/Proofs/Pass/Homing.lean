import RichText.Proofs.Pass.Namespaces
import RichText.Proofs.Pass.Settling

/-!
The default namespace as the home of all elements.

An element that still stands when its visit is over was persisted after its children were visited, and without a
buffered `xmlns` that leaves it in the default namespace: an element that is there stays, and any other one is
replaced by one that is. So a pass whose rules ask for no namespace leaves no element elsewhere, unless a rule takes
its element away in the middle of the visit, and with it what the walk still had to come to.
-/

namespace RichText

open RichText.Tree Effects
open Relation (ReflTransGen)

variable {κ σ : Type} {f : Filter κ σ} {o : Cursor} {t u : Tree} {d : Nat} {below g : Forest Nat} {place : Place}
  {space : String} {allowed : Fate → Prop}

/-! ### Rules that ask for no namespace -/

/-- One operation on the proxy of an element that asks for no namespace. It carries out only the fates that are
allowed. -/
inductive ElementProxy.PlainStep (allowed : Fate → Prop) : ElementProxy → ElementProxy → Prop
  | record (p : ElementProxy) (fate : Fate) : PlainStep allowed p { p with fate }
  | buffer (p : ElementProxy) (pendingName : Option String) (overrides : List (String × Option String))
      (h : (overrides.lookup "xmlns").join = none) : PlainStep allowed p { p with pendingName, overrides }
  | persist (p : ElementProxy) (h : allowed p.fate) : PlainStep allowed p (ElementProxy.persist p).2
  | persistContent (p : ElementProxy) : PlainStep allowed p (ElementProxy.persistContent p).2
  | persistNode (p : ElementProxy) (h : allowed p.fate) :
      PlainStep allowed p (ElementProxy.onNode NodeProxy.persist p).2
  | replaceBy (p : ElementProxy) (name : String) : PlainStep allowed p (ElementProxy.replaceBy name none p).2

/-- The fates that leave a node in its place. -/
def Fate.Stays (fate : Fate) : Prop := fate = .keep ∨ fate = .clear

/-- From a proxy as the stages of a visit find it, the rule acts through the proxy alone, asks for no namespace and
carries out only the fates that are allowed. -/
def PlainElement (allowed : Fate → Prop) (context : κ) (rule : ElementRule κ σ) : Prop :=
  ∀ q j, q.isMutable = true → q.fate.Stays → q.pendingNamespace = none →
    ReflTransGen (ElementProxy.PlainStep allowed) q (rule context Rule.noop (q, j)).2.1

/-- No rule asks for a namespace, and the rules of elements carry out only the fates that are allowed. -/
structure Filter.Plain (allowed : Fate → Prop) (f : Filter κ σ) : Prop where
  element : ∀ {key rule}, f.rules.element? key = some rule → PlainElement allowed f.context rule
  text : ∀ {rule}, f.rules.text = some rule → ThroughText f.context rule

/-- What a visit to a node that is no element leaves in its place is no element either. -/
theorem Visiting.roots_barren (hv : Visiting o u d below place) (hb : o.below = .nil)
    (he : o.tree.kind? (some o.node) ≠ some .element) :
    ∀ x ∈ (place.seat d below).roots, u.kind? (some x) ≠ some .element := by
  intro x hx
  cases place with
  | attached =>
    obtain rfl := List.mem_singleton.1 hx
    exact hv.kind ▸ he
  | vacated present =>
    rw [Place.seat, hv.present_nil hb] at hx
    exact absurd hx List.not_mem_nil

namespace Tree

/-! ### Elements at home -/

/-- The elements of a forest are in the namespace `space`. -/
def Homes (space : String) (t : Tree) (g : Forest Nat) : Prop :=
  ∀ x ∈ g.toList, t.kind? (some x) = some .element → t.namespace? (some x) = some space

theorem local_homes (space : String) : Local (Homes space) where
  nil := nofun
  leaf he x hx hk := by
    obtain rfl := List.mem_singleton.1 hx
    exact absurd hk he
  append h h' x hx := by
    rcases Forest.mem_toList_append.1 hx with hx | hx
    · exact h x hx
    · exact h' x hx
  stays hn hr hg h x hx hk := by
    obtain ⟨hlt, -⟩ := hg x hx
    rw [hr.recalls.kind hlt] at hk
    exact (hr.recalls.namespace? hn hlt).trans (h x hx hk)

theorem homes_node {x : Nat} (h : t.namespace? (some x) = some space) (hb : t.Homes space below) :
    t.Homes space (.node x below .nil) := by
  intro y hy hk
  rcases List.mem_cons.1 hy with rfl | hy
  · exact h
  · rw [Forest.toList, List.append_nil] at hy
    exact hb y hy hk

/-- The list of `p` in a tree with this default namespace, for a walk through it. Below the document there has to be
no element. -/
structure Household (space : String) (t : Tree) (p : Nat) : Prop where
  document : t.kind? root = some .document
  apex : ∀ q, 0 ∉ t.kids q
  defaultNamespace : t.defaultNamespace = space
  barren : p = 0 → ∀ x ∈ t.kids 0, t.kind? (some x) ≠ some .element

/-- Without an element below the document there is no document element. -/
theorem defaultNamespace_of_barren (h : ∀ x ∈ t.kids 0, t.kind? (some x) ≠ some .element) :
    t.defaultNamespace = "" := by
  have hnone : t.documentElement = none := by
    refine List.find?_eq_none.2 fun x hx => ?_
    simpa using h x hx
  rw [Tree.defaultNamespace, hnone]
  rfl

theorem Household.congr {p : Nat} (h : Household space t p) (hz : 0 < t.size) (hn : t.Named) (hl : t.Linked)
    (hr : t.Recalls u) (ha : ∀ q, 0 ∉ u.kids q) (hp : p ≠ 0 → u.kids 0 = t.kids 0)
    (hb : p = 0 → ∀ x ∈ u.kids 0, u.kind? (some x) ≠ some .element) : Household space u p where
  document := (hr.kind hz).trans h.document
  apex := ha
  defaultNamespace := by
    by_cases he : p = 0
    · rw [← h.defaultNamespace, defaultNamespace_of_barren (hb he), defaultNamespace_of_barren (h.barren he)]
    · exact (hr.defaultNamespace hn hl (hp he)).trans h.defaultNamespace
  barren := hb

theorem enduring_household (space : String) : Enduring (Household space) := by
  have hafter : ∀ {o : Cursor} {u d below place}, Ground (Household space) o.tree o.parent o.before o.ahead →
      Visiting o u d below place → Remains o.own o.tree u → Household space u o.parent := by
    intro o u d below place ho hv hr
    have hz : 0 < o.tree.size := lt_of_kind ho.site.document
    refine ho.site.congr hz ho.named ho.ahead.linked hr.recalls (hv.evolves.orphan hz ho.site.apex) (fun hp => ?_)
      fun hp x hx => ?_
    · exact hv.evolves.kids hz (ho.ahead.apex_not_mem ho.site.apex hp)
    · -- the nodes below the document are those that were there, and what a visit leaves of one of them
      have hkids : ∀ x ∈ o.tree.kids 0, o.tree.kind? (some x) ≠ some .element := ho.site.barren hp
      have hold : ∀ x ∈ o.tree.kids 0, u.kind? (some x) ≠ some .element := fun x hx =>
        hr.recalls.kind (ho.ahead.linked.child_lt hx) ▸ hkids x hx
      have hlist := ho.ahead.list
      have hnode : o.tree.kind? (some o.node) ≠ some .element :=
        hkids o.node (hp ▸ ho.ahead.roots_subset List.mem_cons_self)
      have hseat := hv.roots_barren (ho.leafy.1.resolve_right hnode) hnode
      rw [hp] at hlist
      rw [← hp, hv.ahead.list, Forest.roots_append, List.mem_append, List.mem_append] at hx
      rcases hx with hx | hx | hx
      · exact hold x (hlist ▸ List.mem_append_left _ hx)
      · exact hseat x hx
      · exact hold x (hlist ▸ List.mem_append_right _ (List.mem_cons_of_mem _ hx))
  refine ⟨hafter, fun {o u d below place} ho hv hr hk => ?_⟩
  have h := hafter ho hv hr
  refine ⟨h.document, h.apex, h.defaultNamespace, ?_⟩
  rintro rfl
  exact nomatch h.document.symm.trans hk

end Tree

/-! ### Visits -/

/-- The delegate stands in its place, with no `xmlns` buffered. If `covered` says so what is below it is at home, and
if `home` says so the delegate itself is. -/
def Housed (space : String) (covered home : Prop) (o : Cursor) (q : ElementProxy) : Prop :=
  ∃ d below, Stands o q d below ∧ q.pendingNamespace = none ∧ (covered → q.tree.Homes space below) ∧
    (home → q.tree.namespace? (some d) = some space)

namespace Housed

variable {q q' : ElementProxy} {covered home : Prop}

theorem home_of_spaceFor (ho : Ground (Household space) o.tree o.parent o.before o.ahead) (h : Stands o q d below)
    (hp : q.pendingNamespace = none) : q.spaceFor none = space := by
  rw [ElementProxy.spaceFor, hp]
  exact ((enduring_household space).after ho h.visiting h.remains).defaultNamespace

/-- What is below a delegate stays at home while the delegate is edited. -/
theorem homes_of_remains {below' : Forest Nat} (h : Stands o q d below) (hr : Remains ∅ q.tree q'.tree)
    (hb : below' = below ∨ below' = .nil) (hc : covered → q.tree.Homes space below) :
    covered → q'.tree.Homes space below' := by
  intro hcov
  rcases hb with rfl | rfl
  · exact (local_homes space).stays h.remains.recalls.named hr
      (fun x hx => ⟨h.visiting.inner.lt hx, Set.notMem_empty x⟩) (hc hcov)
  · exact (local_homes space).nil

/-- Persisting brings the delegate home. -/
theorem of_persisted {d' : Nat} {below' : Forest Nat} (ho : Ground (Household space) o.tree o.parent o.before o.ahead)
    (h : Stands o q d below) (hp : q.pendingNamespace = none) (hc : covered → q.tree.Homes space below)
    (hr : Remains ∅ q.tree q'.tree) (hs : Persisted o q below q' d' below') :
    Housed space covered True o q' ∧ q'.fate.Stays := by
  obtain ⟨v, d'', hv, hremains, hspace⟩ := hs.space
  rw [hp, Option.getD_none, ((enduring_household space).after ho hv hremains).defaultNamespace] at hspace
  refine ⟨⟨d', below', hs.toStands, hs.pending, ?_, fun _ => hspace⟩, hs.fate ▸ hs.carried.imp And.left And.left⟩
  exact homes_of_remains h hr (hs.carried.imp And.right And.right) hc

theorem persist_stays (ho : Ground (Household space) o.tree o.parent o.before o.ahead)
    (h : Housed space covered home o q) (hf : q.fate.Stays) :
    Housed space covered True o (ElementProxy.persist q).2 := by
  obtain ⟨d, below, hs, hp, hc, -⟩ := h
  obtain ⟨d', below', q', hq, hr, hs'⟩ := hs.persist_stays hf
  rw [hq]
  exact (of_persisted ho hs hp hc hr hs').1

theorem persistContent (ho : Ground (Household space) o.tree o.parent o.before o.ahead)
    (h : Housed space covered home o q) : Housed space covered home o (ElementProxy.persistContent q).2 := by
  obtain ⟨d, below, hs, hp, hc, -⟩ := h
  obtain ⟨d', q', hq, hs', hr, -, hp', hspace⟩ := hs.persistContent
  rw [hq]
  refine ⟨d', below, hs', hp', homes_of_remains hs hr (.inl rfl) hc, fun _ => ?_⟩
  rw [hspace, home_of_spaceFor ho hs hp]

theorem replaceBy (ho : Ground (Household space) o.tree o.parent o.before o.ahead)
    (h : Housed space covered home o q) (name : String) :
    Housed space covered home o (ElementProxy.replaceBy name none q).2 := by
  obtain ⟨d, below, hs, hp, hc, -⟩ := h
  obtain ⟨d', q', hq, hs', hr, -, hov, hspace⟩ := hs.replaceBy name none
  rw [hq]
  refine ⟨d', below, hs', ?_, homes_of_remains hs hr (.inl rfl) hc, fun _ => ?_⟩
  · rw [ElementProxy.pendingNamespace, hov]
    exact hp
  · rw [hspace, home_of_spaceFor ho hs hp]

theorem persistNode (h : Housed space covered home o q) (hf : q.fate.Stays) :
    Housed space covered home o (ElementProxy.onNode NodeProxy.persist q).2 := by
  obtain ⟨d, below, hs, hp, hc, hh⟩ := h
  obtain ⟨node, below', hnode, -, hr, hs', hcarried⟩ := hs.settle hf
  have hpersist : NodeProxy.persist q.toNodeProxy = (.ok .proceed, node) := by
    simp [NodeProxy.persist, run_bind, run_map, hs.isMutable, hnode]
  rw [ElementProxy.onNode_ok hpersist]
  refine ⟨d, below', hs', hp, homes_of_remains hs hr (hcarried.imp And.right And.right) hc, fun hhome => ?_⟩
  rw [hr.recalls.namespace? hs.remains.recalls.named hs.visiting.delegate_lt, hh hhome]

theorem step (ho : Ground (Household space) o.tree o.parent o.before o.ahead)
    (h : Housed space covered home o q) (hs : ElementProxy.PlainStep Fate.Stays q q') :
    Housed space covered home o q' := by
  cases hs with
  | record fate =>
    obtain ⟨d, below, hs, hp, hc, hh⟩ := h
    exact ⟨d, below, hs.buffer fate q.pendingName q.overrides, hp, hc, hh⟩
  | buffer pendingName overrides hp =>
    obtain ⟨d, below, hs, -, hc, hh⟩ := h
    exact ⟨d, below, hs.buffer q.fate pendingName overrides, hp, hc, hh⟩
  | persist hf =>
    obtain ⟨d, below, hs, hp, hc, hh⟩ := h.persist_stays ho hf
    exact ⟨d, below, hs, hp, hc, fun _ => hh trivial⟩
  | persistContent => exact h.persistContent ho
  | persistNode hf => exact h.persistNode hf
  | replaceBy name => exact h.replaceBy ho name

theorem steps (ho : Ground (Household space) o.tree o.parent o.before o.ahead)
    (h : Housed space covered home o q) (hs : ReflTransGen (ElementProxy.PlainStep Fate.Stays) q q') :
    Housed space covered home o q' :=
  holds_of_steps hs h fun hs ih => ih.step ho hs

theorem finish {s : ElementProxy × σ} {fail : Halt → Tree × σ → Prop} (h : Housed space True True o s.1) :
    Filter.StageEnds (·.tree) (fun next s' => o.Yields (Homes space) next s'.1.tree) fail
      ((ElementProxy.successor : Action Halt σ ElementProxy Ref) s) := by
  obtain ⟨d, below, hs, -, hc, hh⟩ := h
  exact hs.finish (homes_node (hh trivial) (hc trivial))

end Housed

namespace Filter

variable {covered home : Prop}

/-- Persisting brings the delegate home, or the visit is over. -/
theorem persist_homes (ho : Ground (Household space) o.tree o.parent o.before o.ahead) {s : ElementProxy × σ}
    (h : Housed space covered home o s.1) :
    StageEnds (·.tree)
      (Answered (fun s' => Housed space covered True o s'.1 ∧ s'.1.fate.Stays) fun next s' =>
        o.Yields (Homes space) next s'.1.tree) (fun _ _ => True)
      (stage Writers.plain.element s) := by
  obtain ⟨d, below, hs, hp, hc, -⟩ := h
  exact standing_persist_ends (fun q => Housed space covered True o q ∧ q.fate.Stays) (local_homes space) hs
    fun hr hs' => Housed.of_persisted ho hs hp hc hr hs'

theorem Plain.rule_homes (hf : f.Plain Fate.Stays) (ho : Ground (Household space) o.tree o.parent o.before o.ahead)
    {key : String} {rule : ElementRule κ σ} (hr : f.rules.element? key = some rule) {s : ElementProxy × σ}
    (h : Housed space covered home o s.1 ∧ s.1.fate.Stays) :
    StageEnds (·.tree) (fun _ s' => Housed space covered home o s'.1) (fun _ _ => True)
      (stage (rule f.context Rule.noop) s) := by
  refine stage_leaves ?_
  obtain ⟨d, below, hs, hp, -⟩ := h.1
  exact h.1.steps ho (hf.element hr s.1 s.2 hs.isMutable h.2 hp)

theorem Plain.course_homes (hf : f.Plain Fate.Stays) (descend : Ref → Pass σ Unit) (j : σ)
    (ho : Ground (Household space) o.tree o.parent o.before o.ahead)
    (hd : DescendsYielding (Household space) (Homes space) o.below.size descend) :
    f.Course .plain o descend j (fun s => Housed space False False o s.1 ∧ s.1.fate.Stays)
      (fun s => Housed space False False o s.1) (fun s => Housed space True False o s.1)
      (fun next s => o.Yields (Homes space) next s.1) fun _ _ => True where
  begin he := ⟨⟨o.node, o.below, .begin ho he f.namespaces, rfl, nofun, nofun⟩, .inl rfl⟩
  rule hr _ hs := hf.rule_homes ho hr hs
  persist s hs := (persist_homes ho hs).mono (fun r s' ha => by
    cases r with
    | proceed =>
      obtain ⟨⟨d, below, hstands, hp, -⟩, hfate⟩ := ha
      exact ⟨⟨d, below, hstands, hp, nofun, nofun⟩, hfate⟩
    | stop => exact ha
    | restart node => exact ha) fun _ _ => id
  descend s hs := by
    obtain ⟨⟨d, below, hstands, hp, -⟩, -⟩ := hs
    exact hd.onTree (enduring_household space) ho hstands fun {u below'} hstands' hg =>
      ⟨d, below', hstands', hp, fun _ => hg, nofun⟩
  closing s hs :=
    closing_ends (fun next s => o.Yields (Homes space) next s.1)
      (fun s => Housed space True True o s.1 ∧ s.1.fate.Stays) (fun s => Housed space True True o s.1)
      (fun s => Housed space True True o s.1 ∧ s.1.fate.Stays) (persist_homes ho hs)
      (fun hr _ hs => hf.rule_homes ho hr hs) (fun _ hs => persist_homes ho hs) (fun _ hs => hs.1.finish)
      fun _ _ => id
  text ht := text_yields (local_homes space) hf.text ho ht j
  other he _ := other_yields (local_homes space) ho he

/-! ### Passes -/

/-- A pass whose rules ask for no namespace, and do not take their element away in the middle of a visit, leaves all
elements below the start node in the default namespace. -/
theorem homes_of_plain (hf : f.Plain Fate.Stays) (ht : t.WellFormed) (start : Ref)
    (hd : ∀ d, t.documentElement = some d → d ∉ (t.below start).toList)
    (hk : ∀ x ∈ (t.below start).toList, t.kids x ≠ [] → t.kind? (some x) = some .element) (journal : σ)
    (hok : (f.apply start t journal).1 = .ok ()) :
    let u := (f.apply start t journal).2.1
    u.defaultNamespace = t.defaultNamespace ∧ ∀ x ∈ (u.below start).toList, u.kind? (some x) = some .element →
      u.namespace? (some x) = some t.defaultNamespace := by
  intro u
  cases start with
  | none =>
    have hu : u = t := congrArg (fun r => r.2.1) (f.apply_none t journal)
    rw [hu, below_none]
    exact ⟨rfl, nofun⟩
  | some start =>
    have ha := Ahead.of_below ht.linked start
    have hlist : t.kids start = (t.below (some start)).roots := ha.list
    have hhouse : Household t.defaultNamespace t start := by
      refine ⟨ht.document, ht.apex, rfl, ?_⟩
      rintro rfl x hx he
      obtain ⟨y, hy⟩ : ∃ y, t.documentElement = some y :=
        Option.isSome_iff_exists.1 (List.find?_isSome.2 ⟨x, hx, by simp [he]⟩)
      exact hd y hy (Forest.mem_toList_of_mem_roots (hlist ▸ mem_of_documentElement hy))
    have hw := walk_yields (f := f) (local_homes t.defaultNamespace) (enduring_household t.defaultNamespace)
      (fun descend j ho hd => ⟨_, _, _, hf.course_homes descend j ho hd⟩)
      ⟨ha, leafy_of_kids ha.fits hk, ht.stored.named, hhouse⟩ ha.size_le journal
    rw [← f.apply_some ht.linked] at hw
    obtain ⟨g, hg, hremains, -, hhomes⟩ := hw.of_ok hok
    rw [hg.ahead.below_eq]
    refine ⟨?_, hhomes⟩
    by_cases hs : start = 0
    · subst hs
      -- an element below the document would be at home like every other one
      rw [defaultNamespace_of_barren (hhouse.barren rfl)] at hhomes ⊢
      cases hroot : u.documentElement with
      | none => rw [Tree.defaultNamespace, hroot]; rfl
      | some y =>
        have hlist : u.kids 0 = g.roots := hg.ahead.list
        have hy : y ∈ g.roots := hlist ▸ mem_of_documentElement hroot
        have hspace := hhomes y (Forest.mem_toList_of_mem_roots hy) (Writes.kind_documentElement hroot)
        rw [Tree.defaultNamespace, hroot, hspace]
        rfl
    · have hne : 0 ∉ {x | x = start ∨ x ∈ (t.below (some start)).toList} := by
        rintro (he | hm)
        · exact hs he.symm
        · obtain ⟨q, hq⟩ := ha.stands hm
          exact ht.apex q hq
      exact hremains.recalls.defaultNamespace ht.stored.named ht.linked (hg.evolves.kids ht.size_pos hne)

end Filter

/-! ### Rules that act in plain steps -/

/-- Whatever it answers, the action leads from any proxy to another one in plain steps. -/
def Plainly {α : Type} (allowed : Fate → Prop) (x : RuleM σ ElementProxy α) : Prop :=
  ∀ q j, ReflTransGen (ElementProxy.PlainStep allowed) q (x (q, j)).2.1

namespace Plainly

variable {α β : Type}

theorem bind {x : RuleM σ ElementProxy α} {g : α → RuleM σ ElementProxy β} (h : Plainly allowed x)
    (hg : ∀ a, Plainly allowed (g a)) : Plainly allowed (x >>= g) := by
  intro q j
  have hx := h q j
  rw [run_bind]
  rcases hr : x (q, j) with ⟨e | a, q', j'⟩
  · rw [hr] at hx
    exact hx
  · rw [hr] at hx
    exact hx.trans (hg a q' j')

/-- Recording a fate, or taking it back. -/
theorem toggle (fate : Fate) (on : Bool) (operation : Operation) :
    Plainly allowed
      (Rule.onProxy (ElementProxy.onNode (NodeProxy.toggle fate on operation)) : RuleM σ ElementProxy Unit) := by
  intro q j
  have hstate : ∃ fate', (NodeProxy.toggle fate on operation q.toNodeProxy).2 =
      { q.toNodeProxy with fate := fate' } := by
    by_cases hm : q.isMutable = true
    · rw [NodeProxy.toggle, bind_ok (NodeProxy.requireMutable_ok hm operation), run_modify]
      dsimp only
      split_ifs
      · exact ⟨fate, rfl⟩
      · exact ⟨.keep, rfl⟩
      · exact ⟨q.fate, rfl⟩
    · have he := NodeProxy.requireMutable_error (Bool.eq_false_iff.2 hm) operation
      rw [NodeProxy.toggle, bind_error he]
      exact ⟨q.fate, rfl⟩
  obtain ⟨fate', hstate⟩ := hstate
  have hrun : (Rule.onProxy (ElementProxy.onNode (NodeProxy.toggle fate on operation)) (q, j)).2.1 =
      { q with toNodeProxy := (NodeProxy.toggle fate on operation q.toNodeProxy).2 } := rfl
  rw [hrun, hstate]
  exact .single (.record q fate')

theorem persist (h : ∀ fate, allowed fate) :
    Plainly allowed (Rule.onProxy ElementProxy.persist : RuleM σ ElementProxy Response) := fun q _ =>
  .single (.persist q (h q.fate))

theorem rule {context : κ} {rule : ElementRule κ σ} (h : Plainly allowed (rule context Rule.noop)) :
    PlainElement allowed context rule := fun q j _ _ _ => h q j

end Plainly

namespace Filter

/-- Runs one rule on every `b`. -/
def onBold (rule : ElementRule Unit Unit) : Filter Unit Unit where
  rules := { elements := [("b", rule)] }
  context := ()

theorem plain_onBold {rule : ElementRule Unit Unit} (h : PlainElement allowed () rule) :
    (onBold rule).Plain allowed where
  element hr := by
    refine RuleSet.forall_element (P := PlainElement allowed ()) (fun entry he => ?_) hr
    obtain rfl := List.mem_singleton.1 he
    exact h
  text hr := nomatch hr

/-- An element of another namespace below a `b` and one after it. -/
def strewn : Tree where
  nodes := #[
    { first := some 1, last := some 1, data := .document },
    { parent := some 0, first := some 2, last := some 4, data := .element ⟨0, 0, 1⟩ [] },
    { parent := some 1, next := some 4, first := some 3, last := some 3, data := .element ⟨0, 0, 2⟩ [] },
    { parent := some 2, data := .element ⟨3, 0, 4⟩ [] },
    { parent := some 1, prev := some 2, data := .element ⟨3, 0, 4⟩ [] }]
  symbols := ⟨#["", "div", "b", "urn:x", "i"]⟩

theorem wellFormed_strewn : strewn.WellFormed := by
  have hl : strewn.Linked := Agrees.linked (by decide +kernel)
  exact ⟨hl, by decide +kernel, hl.orphan_iff.1 (by decide +kernel), by decide +kernel, by decide +kernel⟩

theorem unwrapping_homes :
    ((onBold Rule.unwrapElement).apply (some 1) strewn ()).1 = .ok () ∧
      let u := ((onBold Rule.unwrapElement).apply (some 1) strewn ()).2.1
      u.defaultNamespace = strewn.defaultNamespace ∧
        ∀ x ∈ (u.below (some 1)).toList, u.kind? (some x) = some .element →
          u.namespace? (some x) = some strewn.defaultNamespace := by
  have hroot : strewn.documentElement = some 1 := by decide +kernel
  have hok : ((onBold Rule.unwrapElement).apply (some 1) strewn ()).1 = .ok () := by decide +kernel
  have hplain : (onBold Rule.unwrapElement).Plain Fate.Stays :=
    plain_onBold (Plainly.rule (.toggle .unwrap true .setReplaceByChildren))
  refine ⟨hok, homes_of_plain hplain wellFormed_strewn (some 1) (fun d hd => ?_) (by decide +kernel) () hok⟩
  rw [hroot] at hd
  cases hd
  decide +kernel

end Filter

/-! ### Elements that are taken away in the middle of a visit -/

namespace Rule

/-- Unwraps its element, and goes on with it as if it still stood there. -/
def hastily : ElementRule κ σ := fun _ _ => do
  onProxy (ElementProxy.onNode (NodeProxy.setReplaceByChildren true))
  let _ ← onProxy ElementProxy.persist
  onProxy (ElementProxy.onNode (NodeProxy.setReplaceByChildren false))

/-- Removes its element, and then asks for the children of the removed one. -/
def belatedly : ElementRule κ σ := fun _ _ => do
  onProxy (ElementProxy.onNode (NodeProxy.setRemove true))
  let _ ← onProxy ElementProxy.persist
  onProxy (ElementProxy.onNode (NodeProxy.setReplaceByChildren true))

variable (context : κ)

theorem plain_hastily : PlainElement (fun _ => True) context (hastily : ElementRule κ σ) :=
  Plainly.rule ((Plainly.toggle .unwrap true .setReplaceByChildren).bind fun _ =>
    (Plainly.persist fun _ => trivial).bind fun _ => .toggle .unwrap false .setReplaceByChildren)

theorem plain_belatedly : PlainElement (fun _ => True) context (belatedly : ElementRule κ σ) :=
  Plainly.rule ((Plainly.toggle .remove true .setRemove).bind fun _ =>
    (Plainly.persist fun _ => trivial).bind fun _ => .toggle .unwrap true .setReplaceByChildren)

end Rule

namespace Filter

/-- Where a rule takes its element away in the middle of the visit, the walk does not come to what stood below the
element, or not to what followed it. -/
theorem strayed_of_taken :
    strewn.WellFormed ∧ strewn.documentElement = some 1 ∧ 1 ∉ (strewn.below (some 1)).toList ∧
      (∀ x < strewn.size, strewn.kids x ≠ [] →
        strewn.kind? (some x) = some .document ∨ strewn.kind? (some x) = some .element) ∧
      ∀ rule ∈ [Rule.hastily, Rule.belatedly], (onBold rule).Plain (fun _ => True) ∧
        ((onBold rule).apply (some 1) strewn ()).1 = .ok () ∧
        let u := ((onBold rule).apply (some 1) strewn ()).2.1
        u.defaultNamespace = "" ∧
          ∃ x ∈ (u.below (some 1)).toList, u.kind? (some x) = some .element ∧ u.namespace? (some x) = some "urn:x" := by
  refine ⟨wellFormed_strewn, by decide +kernel, by decide +kernel, by decide +kernel, fun rule hr => ?_⟩
  simp only [List.mem_cons, List.not_mem_nil, or_false] at hr
  rcases hr with rfl | rfl
  · exact ⟨plain_onBold (Rule.plain_hastily ()), by decide +kernel, by decide +kernel, 3, by decide +kernel,
      by decide +kernel, by decide +kernel⟩
  · exact ⟨plain_onBold (Rule.plain_belatedly ()), by decide +kernel, by decide +kernel, 4, by decide +kernel,
      by decide +kernel, by decide +kernel⟩

end Filter

end RichText
