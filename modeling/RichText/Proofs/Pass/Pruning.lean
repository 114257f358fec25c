import RichText.Proofs.Pass.Namespaces
import RichText.Proofs.Pass.Substance
import RichText.Proofs.Tree.Untouched

/-!
Pruning elements without content.

Where the rule that removes elements without content runs after the children, no element without content is left below
the start node. Where it is the only rule nothing else is lost: a text that is not blank stays below the elements that
it was below, those of them made anew that were outside the default namespace.
-/

namespace RichText

open RichText.Tree Effects

variable {κ σ : Type} {f : Filter κ σ} {o : Cursor} {t u v : Tree} {d p p' x x' : Nat} {pre : List Nat}
  {below below' rest rest' g g' : Forest Nat} {next : Ref} {q q' : ElementProxy}

namespace Tree

/-! ### Elements that were recreated -/

/-- In `u` the node `x'` is the node `x` of `t` with the same tag, or a new element with the tag of `x`, lower-cased. -/
def Recreated (t u : Tree) (x x' : Nat) : Prop :=
  x' = x ∧ u.tag? (some x) = t.tag? (some x) ∨
    t.size ≤ x' ∧ ∃ tag, t.tag? (some x) = some tag ∧ u.tag? (some x') = some (Text.lowerCase tag)

theorem Remains.tag {S : Set Nat} (h : Remains S t u) (hn : t.Named) (hx : x < t.size) :
    u.tag? (some x) = t.tag? (some x) := by
  rw [tag?, tag?, h.recalls.name? hn hx]

theorem Remains.speaks (h : Remains ∅ t u) (hx : x < t.size) : u.Speaks x ↔ t.Speaks x := by
  rw [Speaks, Speaks, h.text hx (Set.notMem_empty x)]

theorem Speaks.kind (h : t.Speaks x) : t.kind? (some x) = some .text := by
  obtain ⟨text, ht, -⟩ := h
  rw [text?] at ht
  rw [kind?]
  cases hd : t.data? (some x) with
  | none =>
    rw [hd] at ht
    cases ht
  | some data =>
    rw [hd] at ht
    cases data with
    | text content => rfl
    | _ => cases ht

/-- A text has no tag. -/
theorem Speaks.tag?_eq_none (h : t.Speaks x) : t.tag? (some x) = none := by
  have hother : t.kind? (some x) ≠ some .element := by simp [h.kind]
  rw [tag?, name?_of_other hother, Option.map_none]

namespace Recreated

theorem same (h : u.tag? (some x) = t.tag? (some x)) : t.Recreated u x x := .inl ⟨rfl, h⟩

/-- Texts are not recreated. -/
theorem eq_of_speaks (h : t.Recreated u x x') (hs : t.Speaks x) : x' = x := by
  rcases h with ⟨he, -⟩ | ⟨-, tag, ht, -⟩
  · exact he
  · exact nomatch hs.tag?_eq_none.symm.trans ht

theorem later (h : t.Recreated u x x') (hr : Remains ∅ u v) (hn : u.Named) (hx : x' < u.size) :
    t.Recreated v x x' := by
  rcases h with ⟨rfl, ht⟩ | ⟨hle, tag, ht, hu⟩
  · exact .inl ⟨rfl, (hr.tag hn hx).trans ht⟩
  · exact .inr ⟨hle, tag, ht, (hr.tag hn hx).trans hu⟩

theorem earlier (h : u.Recreated v x x') (hr : Remains ∅ t u) (hn : t.Named) (hx : x < t.size) :
    t.Recreated v x x' := by
  rcases h with ⟨rfl, hv⟩ | ⟨hle, tag, hu, hv⟩
  · exact .inl ⟨rfl, hv.trans (hr.tag hn hx)⟩
  · exact .inr ⟨hr.recalls.size.trans hle, tag, (hr.tag hn hx).symm.trans hu, hv⟩

end Recreated

/-! ### Forests that were pruned -/

/-- From `t` to `u` trees without a text that is not blank were dropped from a forest, and elements recreated. -/
inductive Pruned (t u : Tree) : Forest Nat → Forest Nat → Prop
  | nil : Pruned t u .nil .nil
  | keep {x x' : Nat} {below below' rest rest' : Forest Nat} (hx : t.Recreated u x x') (hb : Pruned t u below below')
      (hr : Pruned t u rest rest') : Pruned t u (.node x below rest) (.node x' below' rest')
  | drop {x : Nat} {below rest rest' : Forest Nat} (hx : ∀ y ∈ x :: below.toList, ¬ t.Speaks y)
      (hr : Pruned t u rest rest') : Pruned t u (.node x below rest) rest'

namespace Pruned

theorem refl (hr : Remains ∅ t u) (hn : t.Named) (hg : ∀ x ∈ g.toList, x < t.size) : t.Pruned u g g := by
  induction g with
  | nil => exact .nil
  | node x below rest ihb ihr =>
    exact .keep (.same (hr.tag hn (hg x List.mem_cons_self)))
      (ihb fun y hy => hg y (Forest.mem_toList_below hy _ _)) (ihr fun y hy => hg y (Forest.mem_toList_rest hy _ _))

theorem append {k k' : Forest Nat} (h : t.Pruned u g g') (hk : t.Pruned u k k') : t.Pruned u (g ++ k) (g' ++ k') := by
  induction h with
  | nil => exact hk
  | keep hx hb _ _ ih => exact .keep hx hb ih
  | drop hx _ ih => exact .drop hx ih

theorem later (h : t.Pruned u g g') (hr : Remains ∅ u v) (hn : u.Named) (hg : ∀ x ∈ g'.toList, x < u.size) :
    t.Pruned v g g' := by
  induction h with
  | nil => exact .nil
  | keep hx _ _ ihb ihr =>
    exact .keep (hx.later hr hn (hg _ List.mem_cons_self)) (ihb fun y hy => hg y (Forest.mem_toList_below hy _ _))
      (ihr fun y hy => hg y (Forest.mem_toList_rest hy _ _))
  | drop hx _ ihr => exact .drop hx (ihr hg)

theorem earlier (h : u.Pruned v g g') (hr : Remains ∅ t u) (hn : t.Named) (hg : ∀ x ∈ g.toList, x < t.size) :
    t.Pruned v g g' := by
  induction h with
  | nil => exact .nil
  | keep hx _ _ ihb ihr =>
    exact .keep (hx.earlier hr hn (hg _ List.mem_cons_self)) (ihb fun y hy => hg y (Forest.mem_toList_below hy _ _))
      (ihr fun y hy => hg y (Forest.mem_toList_rest hy _ _))
  | @drop x below rest rest' hx _ ihr =>
    refine .drop (fun y hy hs => hx y hy ((hr.speaks (hg y ?_)).2 hs))
      (ihr fun y hy => hg y (Forest.mem_toList_rest hy _ _))
    rcases List.mem_cons.1 hy with rfl | hy
    · exact List.mem_cons_self
    · exact Forest.mem_toList_below hy _ _

/-- Texts that are not blank stay. -/
theorem mem (h : t.Pruned u g g') (hx : x ∈ g.toList) (hs : t.Speaks x) : x ∈ g'.toList := by
  induction h with
  | nil => exact hx
  | keep hy _ _ ihb ihr =>
    rcases List.mem_cons.1 hx with rfl | hx
    · obtain rfl := hy.eq_of_speaks hs
      exact List.mem_cons_self
    · rcases List.mem_append.1 hx with hx | hx
      · exact Forest.mem_toList_below (ihb hx) _ _
      · exact Forest.mem_toList_rest (ihr hx) _ _
  | drop hy _ ihr =>
    rcases List.mem_cons.1 hx with rfl | hx
    · exact absurd hs (hy _ List.mem_cons_self)
    · rcases List.mem_append.1 hx with hx | hx
      · exact absurd hs (hy _ (List.mem_cons_of_mem _ hx))
      · exact ihr hx

/-- A text that is not blank stays below the elements that it was below, or what they were recreated as. -/
theorem ancestors (h : t.Pruned u g g') (ht : t.Linked) (hu : u.Linked) (hg : g.Fits t.kids) (hg' : g'.Fits u.kids)
    (hp : g.roots ⊆ t.kids p) (hp' : g'.roots ⊆ u.kids p')
    (habove : List.Forall₂ (t.Recreated u) (t.ancestorsOrSelf (some p)) (u.ancestorsOrSelf (some p')))
    (hx : x ∈ g.toList) (hs : t.Speaks x) :
    List.Forall₂ (t.Recreated u) (t.ancestorsOrSelf (some x)) (u.ancestorsOrSelf (some x)) := by
  induction h generalizing p p' with
  | nil => exact absurd hx List.not_mem_nil
  | @keep y y' below below' rest rest' hy _ _ ihb ihr =>
    obtain ⟨hl, hb, hr⟩ := hg
    obtain ⟨hl', hb', hr'⟩ := hg'
    have hnode : List.Forall₂ (t.Recreated u) (t.ancestorsOrSelf (some y)) (u.ancestorsOrSelf (some y')) := by
      rw [ht.ancestorsOrSelf_child (hp List.mem_cons_self), hu.ancestorsOrSelf_child (hp' List.mem_cons_self)]
      exact .cons hy habove
    rcases List.mem_cons.1 hx with rfl | hx
    · have he := hy.eq_of_speaks hs
      rwa [he] at hnode
    · rcases List.mem_append.1 hx with hx | hx
      · exact ihb hb hb' (fun z hz => hl ▸ hz) (fun z hz => hl' ▸ hz) hnode hx
      · exact ihr hr hr' (fun z hz => hp (List.mem_cons_of_mem _ hz)) (fun z hz => hp' (List.mem_cons_of_mem _ hz))
          habove hx
  | drop hy _ ihr =>
    rcases List.mem_cons.1 hx with rfl | hx
    · exact absurd hs (hy _ List.mem_cons_self)
    · rcases List.mem_append.1 hx with hx | hx
      · exact absurd hs (hy _ (List.mem_cons_of_mem _ hx))
      · exact ihr hg.2.2 hg' (fun z hz => hp (List.mem_cons_of_mem _ hz)) hp' habove hx

end Pruned

/-- Where the roots are no content nothing below them is a text that is not blank. -/
theorem Leafy.silent (hl : t.Leafy g) (hc : g.roots.any (Rule.isContent t) = false) : ∀ y ∈ g.toList, ¬ t.Speaks y := by
  induction g with
  | nil => exact fun y hy => absurd hy List.not_mem_nil
  | node x below rest _ ihr =>
    rw [Forest.roots, List.any_cons, Bool.or_eq_false_iff] at hc
    obtain ⟨hkind, hspeaks⟩ := not_or.1 (mt Rule.isContent_iff.2 (Bool.eq_false_iff.1 hc.1))
    obtain rfl : below = .nil := hl.1.resolve_right hkind
    intro y hy
    rcases List.mem_cons.1 hy with rfl | hy
    · exact hspeaks
    · exact ihr hl.2.2 hc.2 y hy

/-- From `t` to `u` the forest `g` in the list of `p` after `pre` was pruned. -/
def Prunes (t : Tree) (p : Nat) (pre : List Nat) (g : Forest Nat) (u : Tree) : Prop :=
  ∃ g', t.Turned p pre g u g' ∧ Remains ∅ t u ∧ u.Leafy g' ∧ t.Pruned u g g'

/-- The document stands in no list. -/
def Apex (t : Tree) (_ : Nat) : Prop := ∀ r, 0 ∉ t.kids r

theorem Ahead.size_pos (h : t.Ahead p pre (.node x below rest)) : 0 < t.size :=
  Nat.zero_lt_of_lt (h.lt List.mem_cons_self)

theorem enduring_apex : Enduring Apex where
  after ho hv _ := hv.evolves.orphan ho.ahead.size_pos ho.site
  inside ho hv _ _ := hv.evolves.orphan ho.ahead.size_pos ho.site

end Tree

/-- Replacing an element outside the default namespace leaves the default namespace. -/
theorem Visiting.defaultNamespace_eq {d' : Nat} (h : Visiting o t d below .attached)
    (h' : Visiting o u d' below' .attached) (ha : Apex o.tree o.parent) (hr : t.Recalls u) (hn : t.Named)
    (he : t.kind? (some d) = some .element) (hf : t.namespace? (some d) ≠ some t.defaultNamespace) :
    u.defaultNamespace = t.defaultNamespace := by
  by_cases hp : o.parent = 0
  · refine hr.defaultNamespace_congr hn h.ahead.linked ?_
    have hlist := h.list_attached
    have hlist' := h'.list_attached
    rw [hp] at hlist hlist'
    refine documentElement_replaced hlist hlist' (fun x hx => hr.kind (h.ahead.linked.child_lt hx)) he fun hd => hf ?_
    obtain ⟨space, hspace⟩ := exists_namespace_of_kind he
    rw [Tree.defaultNamespace, hd, hspace, Option.getD_some]
  · have hz : 0 < o.tree.size := h.start.size_pos
    have hout := h.start.apex_not_mem ha hp
    exact hr.defaultNamespace hn h.ahead.linked ((h'.evolves.kids hz hout).trans (h.evolves.kids hz hout).symm)

/-! ### Visits -/

/-- The delegate stands in its place with nothing buffered, and no text was written since the visit began. It is the
visited node or, in the default namespace, an element that was recreated for it. -/
structure Bare (o : Cursor) (q : ElementProxy) (d : Nat) (below : Forest Nat) : Prop extends Stands o q d below where
  keeps : Remains ∅ o.tree q.tree
  pendingName : q.pendingName = none
  overrides : q.overrides = []
  recreated : o.tree.Recreated q.tree o.node d
  home : d = o.node ∨ q.tree.namespace? (some d) = some q.tree.defaultNamespace

/-- The fate is to stay. -/
def Fate.Kept (_ : Forest Nat) (q : ElementProxy) : Prop := q.fate = .keep

/-- The fate is to stay, or to leave where there is no content. -/
def Fate.Pruning (below : Forest Nat) (q : ElementProxy) : Prop :=
  q.fate = .keep ∨ q.fate = .remove ∧ below.roots.any (Rule.isContent q.tree) = false

namespace Bare

theorem begin (h : Ground Apex o.tree o.parent o.before o.ahead) (he : o.tree.kind? (some o.node) = some .element)
    (namespaces : NamespaceTable) : Bare o (.ofNode o.tree (some o.node) namespaces) o.node o.below :=
  ⟨.begin h he namespaces, .refl _ h.named, rfl, rfl, .same rfl, .inl rfl⟩

theorem record (h : Bare o q d below) (fate : Fate) : Bare o { q with fate } d below :=
  ⟨h.toStands.buffer fate q.pendingName q.overrides, h.keeps, h.pendingName, h.overrides, h.recreated, h.home⟩

theorem pendingNamespace (h : Bare o q d below) : q.pendingNamespace = none := by
  rw [ElementProxy.pendingNamespace, h.overrides]
  rfl

/-- The rule that removes elements without content decides. -/
theorem decide (h : Bare o q d below) (hf : q.fate = .keep) (context : κ) (j : σ) :
    ∃ q', (Rule.removeIfEmpty context Rule.noop : RuleM σ ElementProxy Unit) (q, j) = (.ok (), q', j) ∧
      Bare o q' d below ∧ q'.tree = q.tree ∧ Fate.Pruning below q' := by
  refine ⟨_, Rule.run_removeIfEmpty h.isMutable context j, ?_⟩
  rw [h.toStands.isEmpty_eq]
  cases hc : below.roots.any (Rule.isContent q.tree) with
  | false => exact ⟨h.record .remove, rfl, .inr ⟨rfl, hc⟩⟩
  | true => exact ⟨h, rfl, .inl hf⟩

/-- Where nothing is buffered, writing is writing the attributes. -/
theorem persistContent_eq (h : Bare o q d below) {response : Response}
    (hq : ElementProxy.persistAttributes q = (.ok response, q')) (ho : q'.overrides = []) :
    ElementProxy.persistContent q = (.ok response, q') := by
  have hsame : { q with pendingName := none } = q := by rw [← h.pendingName]
  have hattributes : ElementProxy.persistAttributes { q with pendingName := none } = (.ok response, q') := by
    rwa [hsame]
  have hcontent := ElementProxy.persistContent_attributes (p := q)
    (fun name hn => nomatch hn.symm.trans h.pendingName) hattributes
  rw [hcontent, ← ho]

/-- An element outside the default namespace is recreated in it. -/
theorem recreate (h : Bare o q d below) (ha : Apex o.tree o.parent)
    (hf : q.tree.namespace? (some d) ≠ some q.tree.defaultNamespace) :
    ∃ q', ElementProxy.replaceBy q.currentName none q = (.ok .proceed, q') ∧ Bare o q' q.tree.size below ∧
      q'.fate = q.fate ∧ Remains ∅ q.tree q'.tree := by
  have hnamed := h.keeps.recalls.named
  obtain ⟨q', hq, ho, hfate, hn, hov, hname⟩ := h.replaceBy_name hnamed q.currentName none
  have hr := (steady_remains ∅ q.tree).replaceBy q.currentName none q (.refl _ hnamed)
  rw [hq] at hr
  have hdefault := h.visiting.defaultNamespace_eq ho.visiting ha hr.recalls hnamed h.kind hf
  refine ⟨q', hq, ⟨h.of_remains ho (.inl rfl) hr, h.keeps.trans hr nofun, hn.trans h.pendingName,
    hov.trans h.overrides, .inr ⟨h.visiting.evolves.size, ?_⟩, .inr ?_⟩, hfate, hr⟩
  · -- only the visited node itself can be outside the default namespace
    obtain rfl : d = o.node := h.home.resolve_right hf
    have hlt : o.node < o.tree.size := lt_of_kind h.element
    have htag : q.tree.tag? (some o.node) = o.tree.tag? (some o.node) := by
      rcases h.recreated with ⟨-, ht⟩ | ⟨hle, -⟩
      · exact ht
      · omega
    obtain ⟨name, attributes, hc⟩ := exists_element_of_kind h.element
    have hown : o.tree.tag? (some o.node) = some name.written := by
      rw [tag?, name?, content_of_lt hlt, hc]
      rfl
    have hlive : q.currentName = Text.lowerCase name.written := by
      rw [ElementProxy.currentName, h.pendingName, Option.getD_none, ElementProxy.liveName, h.delegate, htag, hown,
        Option.getD_some]
    exact ⟨_, hown, by rw [tag?, hname, Option.map_some, written_ofWritten, hlive]⟩
  · rw [namespace?, hname, Option.map_some, space_ofWritten, hdefault, ElementProxy.spaceFor, h.pendingNamespace]
    rfl

/-- Persisting a delegate that is to stay. -/
theorem persist_stays (h : Bare o q d below) (ha : Apex o.tree o.parent) (hf : q.fate = .keep) :
    ∃ d' q', ElementProxy.persist q = (.ok .proceed, q') ∧ Bare o q' d' below ∧ q'.fate = .keep ∧
      Remains ∅ q.tree q'.tree := by
  rw [ElementProxy.persist_content h.isMutable (NodeProxy.settle_keep hf)]
  obtain ⟨space, hspace⟩ := exists_namespace_of_kind h.kind
  by_cases hhome : space = q.tree.defaultNamespace
  · have hn : ¬ q.needsNew := by
      rw [ElementProxy.needsNew, h.delegate, hspace, h.pendingNamespace]
      simp [hhome]
    have hw : Edit.writeAttributes q.namespaces q.delegate q.overrides q.tree = (.ok (), q.tree) := by
      rw [h.overrides]
      rfl
    exact ⟨d, q, h.persistContent_eq (ElementProxy.persistAttributes_same hn hw) h.overrides, h, hf,
      .refl _ h.keeps.recalls.named⟩
  · have hforeign : q.tree.namespace? (some d) ≠ some q.tree.defaultNamespace := by
      rw [hspace]
      exact fun he => hhome (Option.some.inj he)
    have hn : q.needsNew := by
      rw [ElementProxy.needsNew, h.delegate, hspace]
      exact .inl hhome
    obtain ⟨q', hq, hb, hfate, hr⟩ := h.recreate ha hforeign
    exact ⟨_, q', h.persistContent_eq ((ElementProxy.persistAttributes_new hn).trans hq) hb.overrides, hb,
      hfate.trans hf, hr⟩

/-- Persisting a delegate without content that is to leave. -/
theorem persist_leaves (h : Bare o q d below) (hf : q.fate = .remove) :
    ∃ q', ElementProxy.persist q = (.ok .stop, q') ∧ Remains ∅ o.tree q'.tree ∧
      ∃ d', Visiting o q'.tree d' below (.vacated .nil) := by
  have hr := (steady_remains ∅ o.tree).persist q h.keeps
  obtain ⟨d', q', hq, ho, -, -⟩ := h.toOnElement.persist
  rw [hq] at hr
  rw [hf] at hq ho
  exact ⟨q', hq, hr, d', ho.visiting⟩

/-- A walk through the children of the delegate. -/
theorem descend (h : Bare o q d below) (ha : Apex o.tree o.parent) (ht : q.tree.Turned d [] below u below')
    (hr : Remains ∅ q.tree u) (hl : u.Leafy below') : Bare o { q with tree := u } d below' := by
  have hnamed := h.keeps.recalls.named
  have hlt := h.visiting.delegate_lt
  refine ⟨h.toStands.descend ht (hr.mono (Set.empty_subset _)) hl, h.keeps.trans hr nofun, h.pendingName, h.overrides,
    h.recreated.later hr hnamed hlt, h.home.imp_right fun hhome => ?_⟩
  -- the document is neither the delegate nor below it
  have hz : 0 < q.tree.size := Nat.zero_lt_of_lt hlt
  have hout : ∀ r, 0 ∉ q.tree.kids r := h.visiting.evolves.orphan h.visiting.start.size_pos ha
  have hkids : u.kids 0 = q.tree.kids 0 := ht.evolves.kids hz fun hm => by
    rcases hm with he | hm
    · exact hout o.parent (he ▸ h.visiting.list_attached ▸ List.mem_append_right _ List.mem_cons_self)
    · obtain ⟨r, hr⟩ := h.visiting.inner.stands hm
      exact hout r hr
  show u.namespace? (some d) = some u.defaultNamespace
  rw [hr.recalls.namespace? hnamed hlt, hhome, hr.recalls.defaultNamespace hnamed h.visiting.ahead.linked hkids]

end Bare

/-- A visit is over, and the tree of its node was pruned. -/
def Cursor.Prunes (o : Cursor) (next : Ref) (u : Tree) : Prop :=
  Remains ∅ o.tree u ∧ ∃ d below place, Visiting o u d below place ∧ u.Leafy (place.seat d below) ∧
    o.tree.Pruned u (.node o.node o.below .nil) (place.seat d below) ∧ (next = none ∨ next = o.rest.roots.head?)

namespace Cursor.Prunes

/-- The walk goes on at what followed, and prunes the forest that was ahead. -/
theorem proceed (h : o.Prunes next u) (ho : Ground Apex o.tree o.parent o.before o.ahead) :
    ∃ pre, Ground Apex u o.parent pre o.rest ∧ (next <|> o.rest.roots.head?) = o.rest.roots.head? ∧
      ∀ v, u.Prunes o.parent pre o.rest v → o.tree.Prunes o.parent o.before o.ahead v := by
  obtain ⟨hr, d, below, place, hv, hl, hp, hn⟩ := h
  refine ⟨_, ⟨hv.ahead.after, ho.leafy_rest hr, hr.recalls.named, hv.evolves.orphan ho.ahead.size_pos ho.site⟩, ?_, ?_⟩
  · rcases hn with rfl | rfl
    · rfl
    · cases o.rest.roots.head? <;> rfl
  · rintro v ⟨g', ht, hr', hl', hp'⟩
    have hseat : ∀ x ∈ (place.seat d below).toList, x < u.size := fun x hx => hv.ahead.lt_front hx
    refine ⟨_, hv.turned_rest ht, hr.trans hr' nofun, ?_, ?_⟩
    · exact leafy_append.2 ⟨hl.congr fun x hx => hr'.recalls.kind (hseat x hx), hl'⟩
    · exact (hp.later hr' hr.recalls.named hseat).append (hp'.earlier hr ho.named ho.lt_rest)

/-- A node without children that is no element. -/
theorem leaf (ho : Ground Apex o.tree o.parent o.before o.ahead) (he : o.tree.kind? (some o.node) ≠ some .element) :
    o.Prunes none o.tree := by
  have hb : o.below = .nil := ho.leafy.1.resolve_right he
  refine ⟨.refl _ ho.named, o.node, o.below, .attached, .begin ho.ahead, ?_, ?_, .inl rfl⟩
  · exact ⟨.inl hb, ho.leafy.2.1, trivial⟩
  · exact .keep (.same rfl) (hb ▸ .nil) .nil

end Cursor.Prunes

namespace Filter

/-- The only rule is the one that removes elements without content, and it runs after the children. -/
structure OnlyPrunes (f : Filter κ σ) : Prop where
  last : f.rules.element? RuleSet.afterChildren = some Rule.removeIfEmpty
  others : ∀ key, key ≠ RuleSet.afterChildren → f.rules.element? key = none
  text : f.rules.text = none

/-- What is asked of the walk through the children of a delegate, for child lists up to a bound. -/
def DescendsPruning (bound : Nat) (descend : Ref → Pass σ Unit) : Prop :=
  ∀ {t d below} j, Ground Apex t d [] below → below.size ≤ bound →
    Ends (fun _ s => t.Prunes d [] below s.1) (fun _ _ => False) (descend (some d) (t, j))

/-- The delegate stands bare above the nodes that the visited node had below it. -/
def Untrimmed (fate : Forest Nat → ElementProxy → Prop) (o : Cursor) (q : ElementProxy) : Prop :=
  ∃ d, Bare o q d o.below ∧ fate o.below q

/-- The delegate stands bare above what pruning left of these nodes. -/
def Trimmed (fate : Forest Nat → ElementProxy → Prop) (o : Cursor) (q : ElementProxy) : Prop :=
  ∃ d below, Bare o q d below ∧ fate below q ∧ o.tree.Pruned q.tree o.below below

/-- Persisting, for what `post` says of a delegate that is to stay. -/
theorem bare_persist_ends (post : ElementProxy → Prop) {s : ElementProxy × σ} (h : Bare o s.1 d below)
    (ha : Apex o.tree o.parent) (hf : Fate.Pruning below s.1) (hb : o.tree.Pruned s.1.tree o.below below)
    (hpost : ∀ {q' d'}, Bare o q' d' below → Fate.Kept below q' → o.tree.Pruned q'.tree o.below below → post q') :
    StageEnds (·.tree) (Answered (fun s' => post s'.1) fun next s' => o.Prunes next s'.1.tree) (fun _ _ => False)
      (stage Writers.plain.element s) := by
  refine stage_ends ?_
  rcases hf with hf | ⟨hf, hc⟩
  · obtain ⟨d', q', hq, h', hf', hr⟩ := h.persist_stays ha hf
    simp only [Writers.plain, Rule.onProxy, hq]
    exact hpost h' hf' (hb.later hr h.keeps.recalls.named fun x hx => h.visiting.inner.lt hx)
  · obtain ⟨q', hq, hr, d', hv⟩ := h.persist_leaves hf
    simp only [Writers.plain, Rule.onProxy, hq]
    refine ⟨hr, d', below, _, hv, trivial, .drop (fun y hy hs => ?_) .nil, .inl rfl⟩
    rcases List.mem_cons.1 hy with rfl | hy
    · cases h.element.symm.trans hs.kind
    · have hlt : y < o.tree.size := h.visiting.start.lt (Forest.mem_toList_below hy _ _)
      exact h.leafy.silent hc y (hb.mem hy hs) ((h.keeps.speaks hlt).2 hs)

variable {descend : Ref → Pass σ Unit}

theorem OnlyPrunes.rule_eq (hf : f.OnlyPrunes) {key : String} {rule : ElementRule κ σ}
    (hr : f.rules.element? key = some rule) : rule = Rule.removeIfEmpty := by
  by_cases hkey : key = RuleSet.afterChildren
  · subst hkey
    exact Option.some.inj (hr.symm.trans hf.last)
  · exact nomatch hr.symm.trans (hf.others key hkey)

/-- The rule decides on a bare delegate, and changes nothing else. -/
theorem OnlyPrunes.rule_ends (hf : f.OnlyPrunes) {key : String} {rule : ElementRule κ σ}
    (hr : f.rules.element? key = some rule) {s : ElementProxy × σ} (h : Bare o s.1 d below)
    (hk : Fate.Kept below s.1) {post : ElementProxy → Prop}
    (hpost : ∀ {q'}, Bare o q' d below → q'.tree = s.1.tree → Fate.Pruning below q' → post q') :
    StageEnds (·.tree) (fun _ s' => post s'.1) (fun _ _ => False) (stage (rule f.context Rule.noop) s) := by
  obtain ⟨q', hq, hb, ht, hd⟩ := h.decide hk f.context s.2
  rw [hf.rule_eq hr, stage_ok (s := s) hq]
  exact hpost hb ht hd

theorem OnlyPrunes.course_prunes (hf : f.OnlyPrunes) (j : σ)
    (ho : Ground Apex o.tree o.parent o.before o.ahead) (hd : DescendsPruning o.below.size descend) :
    f.Course .plain o descend j (fun s => Untrimmed Fate.Kept o s.1) (fun s => Untrimmed Fate.Pruning o s.1)
      (fun s => Trimmed Fate.Kept o s.1) (fun next s => o.Prunes next s.1) fun _ _ => False where
  begin he := ⟨o.node, .begin ho he f.namespaces, rfl⟩
  rule hr s hs := by
    obtain ⟨d, hb, hk⟩ := hs
    exact hf.rule_ends hr hb hk fun hb' _ hd' => ⟨d, hb', hd'⟩
  persist s hs := by
    obtain ⟨d, hb, hd⟩ := hs
    exact bare_persist_ends (Untrimmed Fate.Kept o) hb ho.site hd (.refl hb.keeps ho.named ho.lt_below)
      fun {q' d'} hb' hk _ => ⟨d', hb', hk⟩
  descend s hs := by
    obtain ⟨d, hb, hk⟩ := hs
    refine onTree_leaves ?_
    rw [hb.delegate]
    refine (hd s.2 (hb.toStands.ground enduring_apex ho) hb.visiting.size).mono ?_ fun _ _ => id
    rintro _ s' ⟨below', ht, hr, hl, hp⟩
    exact ⟨d, below', hb.descend ho.site ht hr hl, hk, hp.earlier hb.keeps ho.named ho.lt_below⟩
  closing s hs := by
    have hpersist : ∀ s : ElementProxy × σ, Trimmed Fate.Pruning o s.1 → StageEnds (·.tree)
        (Answered (fun s' => Trimmed Fate.Kept o s'.1) fun next s' => o.Prunes next s'.1.tree) (fun _ _ => False)
        (stage Writers.plain.element s) := by
      intro s hs
      obtain ⟨d, below, hb, hd, hp⟩ := hs
      exact bare_persist_ends (Trimmed Fate.Kept o) hb ho.site hd hp
        fun {q' d'} hb' hk hp' => ⟨d', below, hb', hk, hp'⟩
    refine closing_ends (fun next s => o.Prunes next s.1) (fun s => Trimmed Fate.Kept o s.1)
      (fun s => Trimmed Fate.Pruning o s.1) (fun s => Trimmed Fate.Kept o s.1) (hpersist s ?_) (fun hr s hs => ?_)
      hpersist (fun s hs => ?_) fun hn => ?_
    · obtain ⟨d, below, hb, hk, hp⟩ := hs
      exact ⟨d, below, hb, .inl hk, hp⟩
    · obtain ⟨d, below, hb, hk, hp⟩ := hs
      exact hf.rule_ends hr hb hk fun hb' ht hd' => ⟨d, below, hb', hd', ht ▸ hp⟩
    · obtain ⟨d, below, hb, -, hp⟩ := hs
      exact successor_ends (fun next s => o.Prunes next s.1) hb.toOnElement fun _ hnext =>
        ⟨hb.keeps, d, below, .attached, hb.visiting, ⟨.inr hb.kind, hb.leafy, trivial⟩,
          .keep hb.recreated hp .nil, hnext⟩
    · cases hn.symm.trans hf.last
  text ht := by
    rw [visitTextBy, hf.text]
    exact .leaf ho (by simp [ht])
  other he _ := .leaf ho he

theorem OnlyPrunes.walk_prunes (hf : f.OnlyPrunes) {fuel : Nat} (h : Ground Apex t p pre g) (hs : g.size ≤ fuel)
    (j : σ) :
    Ends (fun _ s => t.Prunes p pre g s.1) (fun _ _ => False) (f.walk fuel g.roots.head? (t, j)) := by
  refine walk_induction (I := fun s p pre g => Ground Apex s.1 p pre g)
    (R := fun s p pre g s' => s.1.Prunes p pre g s'.1) (E := fun _ _ _ _ _ _ => False) (fun h => h.ahead)
    (fun h => ⟨.nil, .refl h.ahead, .refl _ h.named, trivial, .nil⟩) ?_ (s := (t, j)) h hs
  intro o descend j ho hd
  rw [← visitBy_plain]
  refine ((hf.course_prunes j ho hd).visit_ends ho.ahead).mono ?_ fun _ _ => id
  rintro _ s ⟨next, hp, rfl⟩
  obtain ⟨pre', hg, hn, hgo⟩ := hp.proceed ho
  have hsize : o.ahead.size = o.below.size + o.rest.size + 1 := rfl
  exact ⟨o.parent, pre', o.rest, hg, by omega, hn, fun v => hgo v.1, fun _ _ => id⟩

/-! ### Passes -/

/-- Where the rule that removes elements without content runs after the children, a pass that succeeds leaves no such
element below the start node. If there is no other rule the pass does succeed, and every text below the start node that
is not blank is still there, below the nodes that it was below or what they were recreated as. -/
theorem Buffers.apply_prunes (hf : f.Buffers)
    (hlast : f.rules.element? RuleSet.afterChildren = some Rule.removeIfEmpty) (ht : t.WellFormed) (start : Ref)
    (hk : ∀ x ∈ (t.below start).toList, t.kids x ≠ [] → t.kind? (some x) = some .element) (journal : σ) :
    let answer := (f.apply start t journal).1
    let u := (f.apply start t journal).2.1
    (answer = .ok () → ∀ x ∈ (u.below start).toList, u.kind? (some x) = some .element →
        ∃ c ∈ u.kids x, u.kind? (some c) = some .element ∨
          ∃ text, u.text? (some c) = some text ∧ Text.allBlank text = false) ∧
      ((∀ key, key ≠ RuleSet.afterChildren → f.rules.element? key = none) → f.rules.text = none →
        answer = .ok () ∧ ∀ x ∈ (t.below start).toList, ∀ text, t.text? (some x) = some text →
          Text.allBlank text = false → x ∈ (u.below start).toList ∧ u.text? (some x) = some text ∧
            List.Forall₂ (t.Recreated u) (t.ancestorsOrSelf (some x)) (u.ancestorsOrSelf (some x))) := by
  intro answer u
  cases start with
  | none =>
    have hrun := f.apply_none t journal
    have hu : u = t := congrArg (fun r => r.2.1) hrun
    have hanswer : answer = .ok () := congrArg (fun r => r.1) hrun
    rw [hu, below_none]
    exact ⟨fun _ _ hx => absurd hx List.not_mem_nil, fun _ _ => ⟨hanswer, fun _ hx => absurd hx List.not_mem_nil⟩⟩
  | some start =>
    have ha := Ahead.of_below ht.linked start
    refine ⟨fun hok x hx he => ?_, fun hothers htext => ?_⟩
    · obtain ⟨g, hg, -, -, hsub⟩ := (hf.apply_fills hlast ht start hk journal).of_ok hok
      rw [hg.ahead.below_eq] at hx
      obtain ⟨c, hc, hcontent⟩ := hsub.exists_child hg.ahead.fits hx he
      exact ⟨c, hc, Rule.isContent_iff.1 hcontent⟩
    · have honly : f.OnlyPrunes := ⟨hlast, hothers, htext⟩
      have hground : Ground Apex t start [] (t.below (some start)) :=
        ⟨ha, leafy_of_kids ha.fits hk, ht.stored.named, ht.apex⟩
      have hw := honly.walk_prunes hground ha.size_le journal
      rw [← f.apply_some ht.linked] at hw
      obtain ⟨⟨⟩, s, hs, g, hg, hr, -, hp⟩ := hw.exists
      have hu : u = s.1 := congrArg (fun r => r.2.1) hs
      refine ⟨congrArg (fun r => r.1) hs, fun x hx text hxt hb => ?_⟩
      have hspeaks : t.Speaks x := ⟨text, hxt, hb⟩
      rw [hu, hg.ahead.below_eq]
      refine ⟨hp.mem hx hspeaks, (hr.text (ha.lt hx) (Set.notMem_empty x)).trans hxt, ?_⟩
      obtain ⟨r, hroot, -⟩ := below_of_mem_toList ha.fits hx
      have hstart : start < t.size := ht.linked.parent_lt (ha.roots_subset hroot)
      refine hp.ancestors ht.linked hg.ahead.linked ha.fits hg.ahead.fits ha.roots_subset hg.ahead.roots_subset ?_ hx
        hspeaks
      rw [ha.ancestorsOrSelf_eq hg.evolves hstart]
      exact List.forall₂_same.2 fun y hy =>
        .same (hr.tag ht.stored.named (List.mem_range.1 (ht.linked.pathFrom_subset hstart _ hy)))

/-- Removes elements without content, and does nothing else. -/
def pruner : Filter Unit Unit where
  rules := { elements := [(RuleSet.afterChildren, Rule.removeIfEmpty)] }
  context := ()

theorem pruner_buffers : pruner.Buffers where
  element hr := RuleSet.forall_element (P := BuffersElement ()) (fun entry he => by
    obtain rfl := List.mem_singleton.1 he
    exact Rule.buffers_removeIfEmpty ()) hr
  text hr := nomatch hr

theorem pruner_others (key : String) (hk : key ≠ RuleSet.afterChildren) : pruner.rules.element? key = none := by
  simp [pruner, RuleSet.element?, Keyed.lookup_cons_ite, hk]

/-- A text below an element of another namespace, and an element with nothing but a blank text. -/
def laden : Tree where
  nodes := #[
    { first := some 1, last := some 1, data := .document },
    { parent := some 0, first := some 2, last := some 4, data := .element ⟨0, 0, 1⟩ [] },
    { parent := some 1, next := some 4, first := some 3, last := some 3, data := .element ⟨3, 0, 4⟩ [] },
    { parent := some 2, data := .text "kept" },
    { parent := some 1, prev := some 2, first := some 5, last := some 5, data := .element ⟨0, 0, 2⟩ [] },
    { parent := some 4, data := .text " " }]
  symbols := ⟨#["", "div", "b", "urn:x", "i"]⟩

theorem wellFormed_laden : laden.WellFormed := by
  have hl : laden.Linked := Agrees.linked (by decide +kernel)
  exact ⟨hl, by decide +kernel, hl.orphan_iff.1 (by decide +kernel), by decide +kernel, by decide +kernel⟩

/-- The element of another namespace is recreated above its text, and the one with a blank text is gone. -/
theorem pruner_prunes :
    let answer := (pruner.apply (some 1) laden ()).1
    let u := (pruner.apply (some 1) laden ()).2.1
    answer = .ok () ∧ u.below (some 1) = .node 6 (.node 3 .nil .nil) .nil ∧
      (∀ x ∈ (u.below (some 1)).toList, u.kind? (some x) = some .element →
        ∃ c ∈ u.kids x, u.kind? (some c) = some .element ∨
          ∃ text, u.text? (some c) = some text ∧ Text.allBlank text = false) ∧
      ∀ x ∈ (laden.below (some 1)).toList, ∀ text, laden.text? (some x) = some text → Text.allBlank text = false →
        x ∈ (u.below (some 1)).toList ∧ u.text? (some x) = some text ∧
          List.Forall₂ (laden.Recreated u) (laden.ancestorsOrSelf (some x)) (u.ancestorsOrSelf (some x)) := by
  obtain ⟨hcontent, hrest⟩ := pruner_buffers.apply_prunes rfl wellFormed_laden (some 1) (by decide +kernel) ()
  obtain ⟨hok, htexts⟩ := hrest pruner_others rfl
  exact ⟨hok, by decide +kernel, hcontent hok, htexts⟩

end Filter

end RichText
