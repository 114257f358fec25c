import RichText.Proofs.Proxy.Commit

/-!
Carrying out the fate of a node in a list.

A node goes with all that is below it, or its children take its place, or it stays and its children go. What each of
these leaves is told by the lists of two nodes, with the nodes below those that went as they were. A node that stays
is then written to like one that lost its children before it was persisted: the buffered changes do not depend on the
fate. This holds of proxies of all three kinds.
-/

namespace RichText

open RichText.Tree Effects
open Relation (ReflTransGen)

variable {t u : Tree} {n p c d : Nat} {fate : Fate} {response : Response} {b : NodeProxy}

namespace Tree

/-! ### What becomes of the lists -/

/-- From `t` to `u` the node `n` went from the list of `p`, with all that is below it. -/
structure Removes (t : Tree) (p n : Nat) (u : Tree) : Prop where
  linked : u.Linked
  data : t.SameData u
  list : u.kids p = (t.kids p).erase n
  others : ∀ x, x ≠ p → u.kids x = t.kids x
  detached : u.parent (some n) = none
  below : u.below (some n) = t.below (some n)

/-- From `t` to `u` the node `n` went from the list of `p`, and its children came in its place. -/
structure Unwraps (t : Tree) (p n : Nat) (u : Tree) : Prop where
  linked : u.Linked
  data : t.SameData u
  place : ∃ l r, t.kids p = l ++ n :: r ∧ u.kids p = l ++ t.kids n ++ r
  emptied : u.kids n = []
  detached : u.parent (some n) = none
  others : ∀ x, x ≠ p → x ≠ n → u.kids x = t.kids x

/-- From `t` to `u` the children of `n` went, each with all that is below it. -/
structure Clears (t : Tree) (n : Nat) (u : Tree) : Prop where
  linked : u.Linked
  data : t.SameData u
  emptied : u.kids n = []
  others : ∀ x, x ≠ n → u.kids x = t.kids x
  children : ∀ c ∈ t.kids n, u.parent (some c) = none ∧ u.below (some c) = t.below (some c)

/-- No node that is below a child is its parent. -/
theorem Linked.ne_of_below (h : t.Linked) (hc : c ∈ t.kids p) {x : Nat} (hx : ReflTransGen (Child t.kids) c x) :
    x ≠ p := by
  rintro rfl
  exact h.acyclic x (.head' hc hx)

theorem Linked.removes (h : t.Linked) (hn : n ∈ t.kids p) : ∃ u, t.detach (some n) = .ok u ∧ t.Removes p n u := by
  obtain ⟨u, hu, hul, huk, hus⟩ := h.detach (h.child_lt hn)
  have hothers : ∀ x, x ≠ p → u.kids x = t.kids x := by
    intro x hx
    rw [huk, without_of_not_mem fun hm => hx (h.separate.eq_of_mem hm hn)]
  refine ⟨u, hu, hul, hus, by rw [huk, without], hothers, hul.orphan_iff.2 fun q => ?_, ?_⟩
  · exact huk ▸ h.separate.not_mem_without n q
  · exact h.below_congr hul fun x hx => hothers x (h.ne_of_below hn hx)

theorem Linked.unwraps (h : t.Linked) (hn : n ∈ t.kids p) : ∃ u, t.unwrap (some n) = .ok u ∧ t.Unwraps p n u := by
  obtain ⟨l, r, hp⟩ := List.append_of_mem hn
  have hne : n ≠ p := (h.ne_of_child hn).symm
  obtain ⟨u, hu, hul, huk, hus⟩ := h.unwrap hp
  refine ⟨u, hu, hul, hus, ⟨l, r, hp, by rw [huk, setList_self]⟩, ?_, hul.orphan_iff.2 fun q hq => ?_, ?_⟩
  · rw [huk, setList_of_ne _ hne, setList_self]
  · rw [huk] at hq
    by_cases hqp : q = p
    · -- the node was once in the list, and is none of its own children
      have hnodup := h.nodup p
      rw [hp] at hnodup
      rw [hqp, setList_self, List.mem_append, List.mem_append] at hq
      rcases hq with (hq | hq) | hq
      · grind
      · exact h.not_child_self hq
      · grind
    · rw [setList_of_ne _ hqp] at hq
      by_cases hqn : q = n
      · rw [hqn, setList_self] at hq
        exact absurd hq List.not_mem_nil
      · rw [setList_of_ne _ hqn] at hq
        exact hqp (h.separate.eq_of_mem hq hn)
  · intro x hxp hxn
    rw [huk, setList_of_ne _ hxp, setList_of_ne _ hxn]

theorem Linked.clears (h : t.Linked) (n : Nat) : ∃ u, t.removeChildren (some n) = .ok u ∧ t.Clears n u := by
  obtain ⟨u, hu, hul, huk, hus⟩ := h.removeChildren n
  have hothers : ∀ x, x ≠ n → u.kids x = t.kids x := fun x hx => by rw [huk, setList_of_ne _ hx]
  have hempty : u.kids n = [] := by rw [huk, setList_self]
  refine ⟨u, hu, hul, hus, hempty, hothers, fun c hc => ⟨hul.orphan_iff.2 fun q hq => ?_, ?_⟩⟩
  · by_cases hqn : q = n
    · rw [hqn, hempty] at hq
      exact absurd hq List.not_mem_nil
    · rw [hothers q hqn] at hq
      exact hqn (h.separate.eq_of_mem hq hc)
  · exact h.below_congr hul fun x hx => hothers x (h.ne_of_below hc hx)

/-- What is below a node was below it before. -/
theorem Clears.of_below (h : t.Clears n u) {x : Nat} (hx : ReflTransGen (Child u.kids) c x) :
    ReflTransGen (Child t.kids) c x := by
  have hsub : Child u.kids ≤ Child t.kids := by
    intro q y hy
    by_cases hq : q = n
    · rw [Child, hq, h.emptied] at hy
      exact absurd hy List.not_mem_nil
    · rwa [Child, h.others q hq] at hy
  exact ReflTransGen.mono hsub c x hx

/-- From `t` to `u` the node `n` in the list of `p` was written to, after which the node `d` stands there: it is `n`
itself or has its children. -/
structure WritesTo (t : Tree) (p n d : Nat) (u : Tree) : Prop where
  linked : u.Linked
  handed : u.kids d = t.kids n
  emptied : d ≠ n → u.kids n = []
  lists : ∀ x, x < t.size → x ≠ p → x ≠ n → u.kids x = t.kids x
  orphans : ∀ x, x < t.size → t.parent (some x) = none → u.parent (some x) = none

theorem WritesTo.of_sameShape (h : t.Linked) (hs : t.SameShape u) : t.WritesTo p n n u := by
  obtain ⟨hu, hk⟩ := h.of_sameLinks hs.toSameLinks
  refine ⟨hu, by rw [hk], fun hne => absurd rfl hne, fun x _ _ _ => by rw [hk], fun x _ hx => ?_⟩
  rw [hu.orphan_iff, hk, ← h.orphan_iff]
  exact hx

theorem WritesTo.of_exchanges (hu : u.Linked) (hn : t.parent (some n) = some p) (h : t.Exchanges p n t.size u) :
    t.WritesTo p n t.size u := by
  refine ⟨hu, h.handed, fun _ => h.emptied, fun x hx hxp hxn => h.lists x hxp hxn hx.ne, fun x hx horphan => ?_⟩
  have hxn : x ≠ n := by
    rintro rfl
    exact nomatch hn.symm.trans horphan
  have hlinks := h.others x hxn hx.ne
  rw [linksOf, linksOf, horphan] at hlinks
  exact (List.cons.inj hlinks).1

theorem WritesTo.emptied_of_clears {v : Tree} (h : u.WritesTo p n d v) (hc : t.Clears n u) : v.kids n = [] := by
  by_cases hdn : d = n
  · rw [← hdn, h.handed, hc.emptied]
  · exact h.emptied hdn

/-- Children that went from a node stay away from it when it is written to, each with all that is below it. -/
theorem WritesTo.children_of_clears {v : Tree} (h : u.WritesTo p n d v) (ht : t.Linked) (hc : t.Clears n u)
    (hn : n ∈ t.kids p) : ∀ c ∈ t.kids n, v.parent (some c) = none ∧ v.below (some c) = t.below (some c) := by
  intro c hcn
  obtain ⟨horphan, hbelow⟩ := hc.children c hcn
  have hlt : c < u.size := hc.data.size.symm ▸ ht.child_lt hcn
  refine ⟨h.orphans c hlt horphan, hbelow ▸ hc.linked.below_congr h.linked fun x hx => ?_⟩
  -- neither `p` nor `n` is below a child that went
  have hcx := hc.of_below hx
  refine h.lists x ?_ (ht.ne_of_below hn (.head hcn hcx)) (ht.ne_of_below hcn hcx)
  rcases hx.cases_tail with rfl | ⟨y, -, hyx⟩
  · exact hlt
  · exact hc.linked.child_lt hyx

end Tree

/-! ### Proxies of any kind -/

/-- A proxy of one of the three kinds. -/
inductive AnyProxy where
  | node (proxy : NodeProxy)
  | element (proxy : ElementProxy)
  | text (proxy : TextProxy)

namespace AnyProxy

variable {q : AnyProxy}

/-- What all proxies have. -/
def base : AnyProxy → NodeProxy
  | node proxy => proxy
  | element proxy => proxy.toNodeProxy
  | text proxy => proxy.toNodeProxy

/-- The proxy with the same buffer on another node proxy. -/
def withBase (b : NodeProxy) : AnyProxy → AnyProxy
  | node _ => node b
  | element proxy => element { proxy with toNodeProxy := b }
  | text proxy => text { proxy with toNodeProxy := b }

/-- The proxy on another tree. -/
def withTree (q : AnyProxy) (tree : Tree) : AnyProxy := q.withBase { q.base with tree }

/-- The proxy with another fate recorded. -/
def withFate (q : AnyProxy) (fate : Fate) : AnyProxy := q.withBase { q.base with fate }

/-- Writes all buffered changes to the tree. -/
def persist : AnyProxy → Except FilterError Response × AnyProxy
  | node proxy => Prod.map id node (NodeProxy.persist proxy)
  | element proxy => Prod.map id element (ElementProxy.persist proxy)
  | text proxy => Prod.map id text (TextProxy.persist proxy)

/-- Writes the buffered changes of a node that stays. -/
def persistContent : AnyProxy → Except FilterError Response × AnyProxy
  | node proxy => (.ok .proceed, node proxy)
  | element proxy => Prod.map id element (ElementProxy.persistContent proxy)
  | text proxy => Prod.map id text (TextProxy.persistContent proxy)

/-- The node is of the kind that the proxy is made for. -/
def Suits : AnyProxy → Prop
  | node _ => True
  | element proxy => proxy.tree.kind? proxy.delegate = some .element
  | text proxy => proxy.tree.kind? proxy.delegate = some .text

@[simp] theorem base_withBase (b : NodeProxy) : (q.withBase b).base = b := by cases q <;> rfl

@[simp] theorem withBase_withBase (b b' : NodeProxy) : (q.withBase b).withBase b' = q.withBase b' := by
  cases q <;> rfl

@[simp] theorem withBase_base (q : AnyProxy) : q.withBase q.base = q := by cases q <;> rfl

theorem withFate_of_eq (h : q.base.fate = fate) : q.withFate fate = q := by
  subst h
  exact withBase_base q

@[simp] theorem withFate_withFate (fate fate' : Fate) : (q.withFate fate).withFate fate' = q.withFate fate' := by
  rw [withFate, withFate, withFate, base_withBase, withBase_withBase]

theorem persist_settled (hm : q.base.isMutable = true) (h : NodeProxy.settle q.base = (.ok (some response), b)) :
    q.persist = (.ok response, q.withBase b) := by
  cases q with
  | node proxy =>
    have hp : NodeProxy.persist proxy = (.ok response, b) := by
      have hm : proxy.isMutable = true := hm
      have h : NodeProxy.settle proxy = (.ok (some response), b) := h
      simp [NodeProxy.persist, run_bind, run_map, hm, h]
    rw [persist, hp]
    rfl
  | element proxy =>
    rw [persist, ElementProxy.persist_settled hm h]
    rfl
  | text proxy =>
    rw [persist, TextProxy.persist_settled hm h]
    rfl

theorem persist_content (hm : q.base.isMutable = true) (h : NodeProxy.settle q.base = (.ok none, b)) :
    q.persist = (q.withBase b).persistContent := by
  cases q with
  | node proxy =>
    have hp : NodeProxy.persist proxy = (.ok .proceed, b) := by
      have hm : proxy.isMutable = true := hm
      have h : NodeProxy.settle proxy = (.ok none, b) := h
      simp [NodeProxy.persist, run_bind, run_map, hm, h]
    rw [persist, hp]
    rfl
  | element proxy =>
    rw [persist, ElementProxy.persist_content hm h]
    rfl
  | text proxy =>
    rw [persist, TextProxy.persist_content hm h]
    rfl

/-- What a proxy of a node in a list needs for being persisted. -/
structure Stands (q : AnyProxy) (p n : Nat) : Prop where
  linked : q.base.tree.Linked
  isMutable : q.base.isMutable = true
  delegate : q.base.delegate = some n
  parent : q.base.tree.parent (some n) = some p
  suits : q.Suits

/-- Buffered changes are written in the same way whatever fate was recorded. -/
theorem Stands.persistContent (h : q.Stands p n) :
    ∃ (d : Nat) (q' : AnyProxy), (∀ fate, (q.withFate fate).persistContent = (.ok .proceed, q'.withFate fate)) ∧
      q'.base.delegate = some d ∧ q.base.tree.WritesTo p n d q'.base.tree := by
  obtain ⟨hl, hm, hd, hp, hs⟩ := h
  cases q with
  | node proxy => exact ⟨n, .node proxy, fun _ => rfl, hd, .of_sameShape hl (.refl _)⟩
  | element proxy =>
    by_cases hr : proxy.Renews
    · obtain ⟨u, hu, hul, hex, -⟩ := ElementProxy.exists_renewed hl hd hp proxy.currentName
      refine ⟨proxy.tree.size, .element { proxy with
        tree := u, delegate := some proxy.tree.size, replacement := some proxy.tree.size, pendingName := none
        overrides := [] }, fun fate => ?_, rfl, .of_exchanges hul hp hex⟩
      exact congrArg (Prod.map id element) (ElementProxy.persistContent_anew (p := { proxy with fate }) hm hr hu)
    · have hkind : proxy.tree.kind? (some n) = some .element := hd ▸ (show proxy.tree.kind? _ = _ from hs)
      obtain ⟨⟨⟩, u, hu, hshape⟩ := Writes.writeAttributes proxy.namespaces hkind proxy.overrides
      refine ⟨n, .element { proxy with tree := u, pendingName := none, overrides := [] }, fun fate => ?_, hd,
        .of_sameShape hl hshape⟩
      have hu : Edit.writeAttributes proxy.namespaces proxy.delegate proxy.overrides proxy.tree = (.ok (), u) :=
        hd ▸ hu
      exact congrArg (Prod.map id element) (ElementProxy.persistContent_inPlace (p := { proxy with fate }) hr hu)
  | text proxy =>
    by_cases hw : ∃ text, proxy.pendingText = some text ∧ proxy.tree.text? proxy.delegate ≠ some text
    · obtain ⟨text, htext, hne⟩ := hw
      have hkind : proxy.tree.kind? (some n) = some .text := hd ▸ (show proxy.tree.kind? _ = _ from hs)
      obtain ⟨u, hu, hshape⟩ := exists_setText hkind text
      refine ⟨n, .text { proxy with tree := u, pendingText := none }, fun fate => ?_, hd, .of_sameShape hl hshape⟩
      have hu : proxy.tree.setText proxy.delegate text = .ok u := hd ▸ hu
      exact congrArg (Prod.map id AnyProxy.text) (TextProxy.persistContent_text (p := { proxy with fate }) htext hne hu)
    · have hsame : ∀ text, proxy.pendingText = some text → proxy.tree.text? proxy.delegate = some text :=
        fun text htext => by_contra fun hne => hw ⟨text, htext, hne⟩
      refine ⟨n, .text { proxy with pendingText := none }, fun fate => ?_, hd, .of_sameShape hl (.refl _)⟩
      exact congrArg (Prod.map id AnyProxy.text) (TextProxy.persistContent_same (p := { proxy with fate }) hsame)

/-- The fate alone does not matter, nor does a tree in which the children of the node went. -/
theorem Stands.cleared (h : q.Stands p n) (hu : q.base.tree.Clears n u) (fate : Fate) :
    ((q.withTree u).withFate fate).Stands p n := by
  have hkind : ∀ r, u.kind? r = q.base.tree.kind? r := hu.data.kind
  have hparent : u.parent (some n) = some p := by
    have hn := h.linked.parent_iff.1 h.parent
    rw [hu.linked.parent_iff, hu.others p (h.linked.ne_of_child hn)]
    exact hn
  obtain ⟨-, hm, hd, -, hs⟩ := h
  cases q with
  | node proxy => exact ⟨hu.linked, hm, hd, hparent, trivial⟩
  | element proxy => exact ⟨hu.linked, hm, hd, hparent, (hkind _).trans hs⟩
  | text proxy => exact ⟨hu.linked, hm, hd, hparent, (hkind _).trans hs⟩

/-- A node that stays when its children went is written to as if it had had none. -/
theorem Stands.persist_clear (h : q.Stands p n) (hf : q.base.fate = .clear)
    (hu : q.base.tree.removeChildren (some n) = .ok u) (hc : q.base.tree.Clears n u) :
    ∃ (d : Nat) (q' : AnyProxy), ((q.withTree u).withFate .keep).persist = (.ok .proceed, q') ∧
      q.persist = (.ok .proceed, q'.withFate .clear) ∧ q'.base.delegate = some d ∧ u.WritesTo p n d q'.base.tree := by
  have hkeep := h.cleared hc .keep
  obtain ⟨d, q', hrun, hd, hr⟩ := hkeep.persistContent
  have hfate : ∀ fate, ((q.withTree u).withFate fate).persistContent = (.ok .proceed, q'.withFate fate) := by
    intro fate
    have hrun := hrun fate
    rwa [withFate_withFate] at hrun
  have htree : ((q.withTree u).withFate .keep).base.tree = u := by simp [withFate, withTree]
  rw [htree] at hr
  refine ⟨d, q'.withFate .keep, ?_, ?_, ?_, ?_⟩
  · have hsettle := NodeProxy.settle_keep (p := ((q.withTree u).withFate .keep).base) (by simp [withFate])
    rw [persist_content hkeep.isMutable hsettle, withBase_base]
    exact hfate .keep
  · have hsettle := NodeProxy.settle_clear hf (h.delegate.symm ▸ hu)
    rw [persist_content h.isMutable hsettle, withFate_withFate, ← hfate .clear, withFate_of_eq]
    · rfl
    · simp [withTree, hf]
  · simpa [withFate] using hd
  · simpa [withFate] using hr

/-- Persisting a proxy of a node in a list never fails, and answers and leaves what the recorded fate has it. A node
whose children went is then persisted exactly as a node that is to stay, and the children stay away as they are. -/
theorem persist_fates (h : q.Stands p n) :
    (q.base.fate = .remove → ∃ u, q.persist = (.ok .stop, q.withTree u) ∧ q.base.tree.Removes p n u) ∧
    (q.base.fate = .unwrap → ∃ u, q.base.tree.Unwraps p n u ∧ q.persist =
      (.ok (match q.base.tree.kids n with | [] => .stop | c :: _ => .restart c), q.withTree u)) ∧
    (q.base.fate = .clear → ∃ u d q', q.base.tree.Clears n u ∧
      ((q.withTree u).withFate .keep).persist = (.ok .proceed, q') ∧ q.persist = (.ok .proceed, q'.withFate .clear) ∧
      q'.base.delegate = some d ∧ u.WritesTo p n d q'.base.tree ∧ q'.base.tree.kids n = [] ∧
      ∀ c ∈ q.base.tree.kids n, q'.base.tree.parent (some c) = none ∧
        q'.base.tree.below (some c) = q.base.tree.below (some c)) := by
  have hn : n ∈ q.base.tree.kids p := h.linked.parent_iff.1 h.parent
  refine ⟨fun hf => ?_, fun hf => ?_, fun hf => ?_⟩
  · obtain ⟨u, hu, hr⟩ := h.linked.removes hn
    have hsettle := NodeProxy.settle_remove hf (h.delegate.symm ▸ hu)
    exact ⟨u, persist_settled h.isMutable hsettle, hr⟩
  · obtain ⟨u, hu, hr⟩ := h.linked.unwraps hn
    have hsettle := NodeProxy.settle_unwrap hf (h.delegate.symm ▸ hu)
    refine ⟨u, hr, ?_⟩
    have hanswer : NodeProxy.afterUnwrap (q.base.tree.firstChild q.base.delegate) =
        match q.base.tree.kids n with | [] => .stop | c :: _ => .restart c := by
      rw [h.delegate, h.linked.firstChild]
      cases q.base.tree.kids n <;> rfl
    rw [persist_settled h.isMutable hsettle, hanswer, withTree]
  · obtain ⟨u, hu, hc⟩ := h.linked.clears n
    obtain ⟨d, q', hkeep, hclear, hd, hr⟩ := h.persist_clear hf hu hc
    exact ⟨u, d, q', hc, hkeep, hclear, hd, hr, hr.emptied_of_clears hc, hr.children_of_clears h.linked hc hn⟩

/-- The inner element of the sample, whose child is to take its place. -/
def unwrapped : AnyProxy := element { ElementProxy.ofNode sample (some 2) .standard with fate := .unwrap }

theorem persist_unwrapped :
    unwrapped.Stands 1 2 ∧ ∃ u, unwrapped.persist = (.ok (.restart 3), unwrapped.withTree u) ∧ u.kids 2 = [] := by
  have hstands : unwrapped.Stands 1 2 := ⟨linked_sample, rfl, rfl, rfl, rfl⟩
  obtain ⟨-, hunwrap, -⟩ := persist_fates hstands
  obtain ⟨u, hu, hp⟩ := hunwrap rfl
  have hkids : unwrapped.base.tree.kids 2 = [3] := by decide
  rw [hkids] at hp
  exact ⟨hstands, u, hp, hu.emptied⟩

end AnyProxy

end RichText
