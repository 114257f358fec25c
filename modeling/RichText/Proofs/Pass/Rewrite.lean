import RichText.Proofs.Pass.Poised
import RichText.Proofs.Pass.Walk
import RichText.Proofs.Tree.Check

/-!
A pass that carries out verdicts is the rewriting of a forest.

The walk changes links while it follows them: it goes on at what took the place of an unwrapped element, and after
the replacement of a renamed one. Still, what it leaves below the start node is what `Forest.rewrite` makes of the
contents that were there, for every tree whose forest is regular.
-/

namespace RichText

open RichText.Tree Effects

variable {κ σ : Type} {f : Filter κ σ} {verdicts : String → Option Verdict} {prunes : Bool} {space : String}
  {o : Cursor} {t u : Tree} {p d : Nat} {pre : List Nat} {g below : Forest Nat} {place : Place} {next : Ref}
  {q : ElementProxy} {name : Name} {attributes : List (Attribute String)}

/-! ### Where a walk stands -/

/-- The forest ahead is orderly for the default namespace of a well-formed tree, and it is not the forest below
the document. -/
structure Tree.Ready (space : String) (t : Tree) (p : Nat) (pre : List Nat) (g : Forest Nat) : Prop where
  wellFormed : t.WellFormed
  ahead : t.Ahead p pre g
  parent_ne : p ≠ 0
  defaultNamespace : t.defaultNamespace = space
  orderly : (g.map t.contentOf).Orderly space

/-- From `t` to `u` the forest `g` in the list of `p` after `pre` was rewritten. -/
def Tree.Rewrites (verdicts : String → Option Verdict) (prunes : Bool) (t : Tree) (p : Nat) (pre : List Nat)
    (g : Forest Nat) (u : Tree) : Prop :=
  ∃ g', t.Turned p pre g u g' ∧ Retains t.size t u ∧
    g'.map u.contentOf = (g.map t.contentOf).rewrite verdicts prunes

/-- The contents of the visited node and of all that is below it. -/
def Cursor.contents (o : Cursor) : Forest Content :=
  .node (o.tree.contentOf o.node) (o.below.map o.tree.contentOf) .nil

theorem Cursor.contents_ahead (o : Cursor) :
    o.ahead.map o.tree.contentOf = o.contents ++ o.rest.map o.tree.contentOf := rfl

/-- A visit leaves these contents in the place of the node, and the walk goes on at what followed. -/
def Cursor.Leaves (o : Cursor) (contents : Forest Content) (u : Tree) (next : Ref) : Prop :=
  Retains o.tree.size o.tree u ∧ (next = none ∨ next = o.rest.roots.head?) ∧
    ∃ d below place, Visiting o u d below place ∧ (place.seat d below).map u.contentOf = contents

/-- A visit is over: it left what the rewriting makes of the node, or the children of an unwrapped node took its
place and are still to be visited. -/
def Cursor.Rewritten (verdicts : String → Option Verdict) (prunes : Bool) (o : Cursor) (u : Tree) (next : Ref) :
    Prop :=
  o.Leaves (o.contents.rewrite verdicts prunes) u next ∨
    (o.tree.kind? (some o.node) = some .element ∧ Retains o.tree.size o.tree u ∧ next = o.below.roots.head? ∧
      (∃ d below, Visiting o u d below (.vacated o.below)) ∧
      o.contents.rewrite verdicts prunes = (o.below.map o.tree.contentOf).rewrite verdicts prunes)

namespace Tree.Ready

theorem zero_not_mem (h : o.tree.Ready space o.parent o.before o.ahead) :
    0 ∉ {x | x = o.parent ∨ x ∈ o.node :: o.below.toList} :=
  h.ahead.apex_not_mem h.wellFormed.apex h.parent_ne

/-- What a visit leaves is ready for a further walk as far as it is orderly. -/
theorem after (h : o.tree.Ready space o.parent o.before o.ahead) (hv : Visiting o u d below place)
    (hr : Retains o.tree.size o.tree u) (ha : u.Ahead p pre g) (hp : p ≠ 0)
    (hg : (g.map u.contentOf).Orderly space) : u.Ready space p pre g :=
  ⟨h.wellFormed.evolve hv.evolves hr.stored, ha, hp,
    (h.wellFormed.defaultNamespace_eq hv.evolves hr h.zero_not_mem).trans h.defaultNamespace, hg⟩

theorem rest_contents (h : o.tree.Ready space o.parent o.before o.ahead) (hr : Retains o.tree.size o.tree u) :
    o.rest.map u.contentOf = o.rest.map o.tree.contentOf :=
  hr.contents fun _ hx => h.ahead.lt (Forest.mem_toList_rest hx _ _)

theorem below_contents (h : o.tree.Ready space o.parent o.before o.ahead) (hr : Retains o.tree.size o.tree u) :
    o.below.map u.contentOf = o.below.map o.tree.contentOf :=
  hr.contents fun _ hx => h.ahead.lt (Forest.mem_toList_below hx _ _)

theorem orderly_parts (h : o.tree.Ready space o.parent o.before o.ahead) :
    o.contents.Orderly space ∧ (o.rest.map o.tree.contentOf).Orderly space :=
  Forest.orderly_append.1 (o.contents_ahead ▸ h.orderly)

end Tree.Ready

/-- Where a visit is over the walk goes on at a smaller forest that is ready, and once that is rewritten so is the
forest that was ahead. -/
theorem Cursor.Rewritten.proceed (h : o.Rewritten verdicts prunes u next)
    (ho : o.tree.Ready space o.parent o.before o.ahead) :
    ∃ pre g, u.Ready space o.parent pre g ∧ g.size < o.ahead.size ∧ (next <|> o.rest.roots.head?) = g.roots.head? ∧
      ∀ v, u.Rewrites verdicts prunes o.parent pre g v →
        o.tree.Rewrites verdicts prunes o.parent o.before o.ahead v := by
  have hsize : o.ahead.size = o.below.size + o.rest.size + 1 := rfl
  obtain ⟨hnode, hrest⟩ := ho.orderly_parts
  rcases h with ⟨hr, hn, d, below, place, hv, hc⟩ | ⟨hk, hr, hn, ⟨d, below, hv⟩, he⟩
  · refine ⟨_, o.rest, ho.after hv hr hv.ahead.after ho.parent_ne ?_, by omega, ?_, ?_⟩
    · rw [ho.rest_contents hr]
      exact hrest
    · rcases hn with rfl | rfl
      · rfl
      · cases o.rest.roots.head? <;> rfl
    · rintro v ⟨g', ht, hr', hg'⟩
      refine ⟨_, hv.turned_rest ht, hr.trans hr' hv.evolves.size, ?_⟩
      have hseat : ∀ x ∈ (place.seat d below).toList, x < u.size := fun x hx =>
        hv.ahead.lt_front hx
      rw [Forest.map_append, hr'.contents hseat, hc, hg', ho.rest_contents hr, o.contents_ahead,
        Forest.rewrite_append]
  · have hbelow : (o.below.map o.tree.contentOf).Orderly space := by
      obtain ⟨name, attributes, hc⟩ := exists_element_of_kind hk
      rw [Cursor.contents, hc] at hnode
      exact hnode.2.1
    have hcontents : (o.below ++ o.rest).map u.contentOf =
        o.below.map o.tree.contentOf ++ o.rest.map o.tree.contentOf := by
      rw [Forest.map_append, ho.below_contents hr, ho.rest_contents hr]
    refine ⟨o.before, o.below ++ o.rest, ho.after hv hr hv.ahead ho.parent_ne ?_, ?_, ?_, ?_⟩
    · rw [hcontents]
      exact Forest.orderly_append.2 ⟨hbelow, hrest⟩
    · rw [Forest.size_append]
      omega
    · rw [hn, Forest.roots_append, List.head?_append]
      cases o.below.roots.head? <;> rfl
    · rintro v ⟨g', ht, hr', hg'⟩
      refine ⟨g', hv.turned_again ht, hr.trans hr' hv.evolves.size, ?_⟩
      rw [hg', hcontents, Forest.rewrite_append, o.contents_ahead, Forest.rewrite_append, he]

/-! ### Visits -/

theorem NodeData.renamed_eq (new : String) (name : Name) (attributes : List (Attribute String)) :
    ∃ name' attributes', NodeData.renamed new name attributes = .element name' attributes' ∧
      name'.space = name.space := by
  rw [NodeData.renamed]
  split
  · exact ⟨name, attributes, rfl, rfl⟩
  · exact ⟨_, _, rfl, space_ofWritten name.space _⟩

namespace Poised

variable {content : Content}

theorem defaultNamespace (h : Poised o q d below content) (ho : o.tree.Ready space o.parent o.before o.ahead) :
    q.tree.defaultNamespace = space :=
  (ho.wellFormed.defaultNamespace_eq h.visiting.evolves h.retains ho.zero_not_mem).trans ho.defaultNamespace

/-- What is below a poised delegate is ready for the walk through it. -/
theorem ready (h : Poised o q d o.below content) (ho : o.tree.Ready space o.parent o.before o.ahead)
    (hb : (o.below.map o.tree.contentOf).Orderly space) : q.tree.Ready space d [] o.below := by
  refine ho.after h.visiting h.retains h.visiting.inner ?_ (ho.below_contents h.retains ▸ hb)
  rintro rfl
  rcases h.visiting.own with he | hle
  · exact ho.zero_not_mem (.inr (he ▸ List.mem_cons_self))
  · have := ho.wellFormed.size_pos
    omega

theorem leaves (h : Poised o q d below content) (hn : next = none ∨ next = o.rest.roots.head?) :
    o.Leaves (.node content (below.map q.tree.contentOf) .nil) q.tree next := by
  refine ⟨h.retains, hn, d, below, .attached, h.visiting, ?_⟩
  rw [Place.seat, Forest.map, contentOf, h.content]
  rfl

theorem leaves_nothing {u : Tree} (hv : Visiting o u d below (.vacated .nil)) (hr : Retains o.tree.size o.tree u) :
    o.Leaves .nil u none :=
  ⟨hr, .inl rfl, d, below, _, hv, rfl⟩

end Poised

namespace Filter

/-- What is asked of the walk through the children of a delegate, for child lists up to a bound. -/
def DescendsRewriting (verdicts : String → Option Verdict) (prunes : Bool) (space : String) (bound : Nat)
    (descend : Ref → Pass σ Unit) : Prop :=
  ∀ {t d below} j, t.Ready space d [] below → below.size ≤ bound →
    ∃ u, descend (some d) (t, j) = (.ok (), u, j) ∧ t.Rewrites verdicts prunes d [] below u

/-- The pruning of a delegate without content. -/
theorem prune_empty (h : Poised o q d below (.element name attributes)) (context : κ)
    (hc : (below.map q.tree.contentOf).roots.any NodeData.counts = false)
    (rest : List (Action Halt σ ElementProxy Unit)) (j : σ) :
    ∃ q', throughStages (stage (Rule.removeIfEmpty context Rule.noop) :: rest) (q, j) = (.ok none, q', j) ∧
      o.Leaves .nil q'.tree none := by
  obtain ⟨q', hq, hv, hr⟩ := h.persist_remove
  have hrun : stage (Rule.removeIfEmpty context Rule.noop) (q, j) = (.ok (), { q with fate := .remove }, j) := by
    rw [run_stage, Rule.run_removeIfEmpty h.isMutable, h.isEmpty_iff, hc]
    rfl
  exact ⟨q', throughStages_cons hrun hq, Poised.leaves_nothing hv hr⟩

theorem prune_full (h : Poised o q d below (.element name attributes)) (hs : name.space = q.tree.defaultNamespace)
    (context : κ) (hc : (below.map q.tree.contentOf).roots.any NodeData.counts = true)
    (rest : List (Action Halt σ ElementProxy Unit)) (j : σ) :
    throughStages (stage (Rule.removeIfEmpty context Rule.noop) :: rest) (q, j) = throughStages rest (q, j) := by
  have hrun : stage (Rule.removeIfEmpty context Rule.noop) (q, j) = (.ok (), q, j) := by
    rw [run_stage, Rule.run_removeIfEmpty h.isMutable, h.isEmpty_iff, hc]
    rfl
  exact throughStages_cons hrun (h.persist_idle hs)

/-- The stages after the children leave the element, unless it is empty and empty elements are pruned. -/
theorem closing_leaves (hf : f.Enacts verdicts prunes) (h : Poised o q d below (.element name attributes))
    (hs : name.space = q.tree.defaultNamespace) (j : σ) :
    ∃ next q', throughStages (f.rules.closing.map fun rule => stage (rule f.context Rule.noop)) (q, j) =
        (.ok next, q', j) ∧
      o.Leaves (.keep prunes (.element name attributes) (below.map q.tree.contentOf)) q'.tree next := by
  obtain ⟨next, hn, hnext⟩ := h.successor (ε := Halt) j
  rw [RuleSet.closing, hf.closing, Forest.keep]
  cases prunes with
  | false => exact ⟨next, q, hn, h.leaves hnext⟩
  | true =>
    cases hc : (below.map q.tree.contentOf).roots.any NodeData.counts with
    | false =>
      obtain ⟨q', hq, hl⟩ := prune_empty h f.context hc [] j
      exact ⟨none, q', hq, hl⟩
    | true => exact ⟨next, q, (prune_full h hs f.context hc [] j).trans hn, h.leaves hnext⟩

/-- The stages from the children on leave the element above what was made of its children. -/
theorem descend_leaves (hf : f.Enacts verdicts prunes) {descend : Ref → Pass σ Unit}
    (hd : DescendsRewriting verdicts prunes space o.below.size descend)
    (ho : o.tree.Ready space o.parent o.before o.ahead) (hb : (o.below.map o.tree.contentOf).Orderly space)
    (h : Poised o q d o.below (.element name attributes)) (hs : name.space = space) (j : σ) :
    ∃ next q', throughStages (onTree descend :: f.rules.closing.map fun rule => stage (rule f.context Rule.noop))
        (q, j) = (.ok next, q', j) ∧
      o.Leaves (.keep prunes (.element name attributes)
        ((o.below.map o.tree.contentOf).rewrite verdicts prunes)) q'.tree next := by
  obtain ⟨u, hu, below', ht, hr, hc⟩ := hd j (h.ready ho hb) (Nat.le_refl _)
  have hrun : onTree descend (q, j) = (.ok (), { q with tree := u }, j) := by
    simp only [onTree, h.delegate, hu]
  have hp : Poised o { q with tree := u } d below' (.element name attributes) :=
    ⟨h.descend ht, h.retains.trans hr h.visiting.evolves.size,
      (hr.content h.visiting.delegate_lt).trans h.content, h.fate, h.pendingName, h.overrides⟩
  have hs' : name.space = u.defaultNamespace := hs.trans (hp.defaultNamespace ho).symm
  obtain ⟨next, q', hq, hl⟩ := closing_leaves hf hp hs' j
  refine ⟨next, q', (throughStages_cons hrun (hp.persist_idle hs')).trans hq, ?_⟩
  rwa [← ho.below_contents h.retains, ← hc]

/-- Before the children runs the rule of the tag. An element whose tag reads like the key of the pruning is
pruned there as well. -/
theorem Enacts.opening (hf : f.Enacts verdicts prunes) (tag : String) :
    f.rules.opening tag = (verdicts tag).toList.map Verdict.rule ∨
      prunes = true ∧ verdicts tag = none ∧ f.rules.opening tag = [Rule.removeIfEmpty] := by
  have hopening : f.rules.opening tag = (f.rules.element? tag).toList := by
    simp only [RuleSet.opening, List.filterMap_cons, hf.before, hf.after, List.filterMap_nil]
    cases f.rules.element? tag <;> rfl
  rw [hopening]
  by_cases ht : tag ∈ [RuleSet.beforeElement, RuleSet.afterElement, RuleSet.afterChildren]
  · have hnone : verdicts tag = none := hf.reserved ht
    simp only [List.mem_cons, List.not_mem_nil, or_false] at ht
    rcases ht with rfl | rfl | rfl
    · exact .inl (by rw [hf.before, hnone]; rfl)
    · exact .inl (by rw [hf.after, hnone]; rfl)
    · rw [hf.closing, hnone]
      cases prunes with
      | false => exact .inl rfl
      | true => exact .inr ⟨rfl, rfl, rfl⟩
  · refine .inl ?_
    rw [hf.tag ht]
    cases verdicts tag <;> rfl

/-- A forest without content among its roots has none after the rewriting either. -/
theorem keep_of_empty {content : Content} {contents : Forest Content}
    (h : contents.roots.any NodeData.counts = false) :
    Forest.keep true content (contents.rewrite verdicts prunes) = .nil := by
  have hleaves : ∀ c ∈ contents.roots, c.kind ≠ .element := by
    intro c hc hk
    have hn := List.any_eq_false.1 h c hc
    cases c with
    | element name attributes => exact hn rfl
    | _ => cases hk
  rw [Forest.rewrite_of_leaves hleaves, Forest.keep, h]
  rfl

/-- The rewriting of the element at a cursor. -/
theorem rewrite_contents (hc : o.tree.contentOf o.node = .element name attributes) :
    o.contents.rewrite verdicts prunes = Forest.treat prunes name attributes
      ((o.below.map o.tree.contentOf).rewrite verdicts prunes) (verdicts (Text.lowerCase name.written)) := by
  rw [Cursor.contents, hc, Forest.rewrite, Forest.rewrite, Forest.append_nil]

/-- The stages of a visit to an element whose tag has a verdict. -/
theorem stages_verdict (hf : f.Enacts verdicts prunes) {descend : Ref → Pass σ Unit}
    (hd : DescendsRewriting verdicts prunes space o.below.size descend)
    (ho : o.tree.Ready space o.parent o.before o.ahead) (h : Poised o q o.node o.below (.element name attributes))
    (hc : o.tree.contentOf o.node = .element name attributes) {verdict : Verdict}
    (hv : verdicts (Text.lowerCase name.written) = some verdict) (j : σ) :
    ∃ next q', throughStages (stage (verdict.rule f.context Rule.noop) ::
        onTree descend :: f.rules.closing.map fun rule => stage (rule f.context Rule.noop)) (q, j) =
          (.ok next, q', j) ∧
      o.Rewritten verdicts prunes q'.tree next := by
  have horderly := ho.orderly_parts.1
  have hrewrite : o.contents.rewrite verdicts prunes = _ := rewrite_contents hc
  rw [hv] at hrewrite
  rw [Cursor.contents, hc] at horderly
  obtain ⟨⟨hs, hk, hn⟩, hb, -⟩ := horderly
  have hrun : stage (verdict.rule f.context Rule.noop) (q, j) = (.ok (), verdict.record q, j) :=
    stage_ok (Rule.run_verdict h.isMutable verdict f.context j)
  cases verdict with
  | rename new =>
    have hs' : name.space = q.tree.defaultNamespace := hs.trans (h.defaultNamespace ho).symm
    obtain ⟨d', q', hp, h'⟩ := h.persist_rename hs' hk hn new
    -- renamed or not, what the walk goes on below is an element of the same namespace
    obtain ⟨name', attributes', hnew, hspace⟩ := NodeData.renamed_eq new name attributes
    rw [hnew] at h'
    obtain ⟨next, q'', hq, hl⟩ := descend_leaves hf hd ho hb h' (hspace.trans hs) j
    refine ⟨next, q'', (throughStages_cons hrun hp).trans hq, .inl ?_⟩
    rw [hrewrite, Forest.treat, hnew]
    exact hl
  | remove =>
    obtain ⟨q', hp, hvisit, hr⟩ := h.persist_remove
    refine ⟨none, q', throughStages_cons hrun hp, .inl ?_⟩
    rw [hrewrite]
    exact Poised.leaves_nothing hvisit hr
  | unwrap =>
    -- the children are in the place of the element, and have not been walked through yet
    obtain ⟨q', hp, hvisit, hr⟩ := h.persist_unwrap
    refine ⟨o.below.roots.head?, q', (throughStages_cons hrun hp).trans ?_,
      .inr ⟨h.element, hr, rfl, ⟨_, _, hvisit⟩, ?_⟩⟩
    · cases o.below.roots.head? <;> rfl
    · rw [hrewrite]
      rfl

/-- The stages of a visit to an element that is pruned before the walk through its children as well as after. -/
theorem stages_pruned (hf : f.Enacts verdicts true) {descend : Ref → Pass σ Unit}
    (hd : DescendsRewriting verdicts true space o.below.size descend)
    (ho : o.tree.Ready space o.parent o.before o.ahead) (h : Poised o q o.node o.below (.element name attributes))
    (hc : o.tree.contentOf o.node = .element name attributes)
    (hv : verdicts (Text.lowerCase name.written) = none) (j : σ) :
    ∃ next q', throughStages (stage (Rule.removeIfEmpty f.context Rule.noop) ::
        onTree descend :: f.rules.closing.map fun rule => stage (rule f.context Rule.noop)) (q, j) =
          (.ok next, q', j) ∧
      o.Rewritten verdicts true q'.tree next := by
  have horderly := ho.orderly_parts.1
  have hrewrite : o.contents.rewrite verdicts true = _ := rewrite_contents hc
  rw [hv, Forest.treat] at hrewrite
  rw [Cursor.contents, hc] at horderly
  obtain ⟨⟨hs, -, -⟩, hb, -⟩ := horderly
  cases hcounts : (o.below.map q.tree.contentOf).roots.any NodeData.counts with
  | false =>
    obtain ⟨q', hq, hl⟩ := prune_empty h f.context hcounts _ j
    refine ⟨none, q', hq, .inl ?_⟩
    rw [ho.below_contents h.retains] at hcounts
    rw [hrewrite, keep_of_empty hcounts]
    exact hl
  | true =>
    obtain ⟨next, q', hq, hl⟩ := descend_leaves hf hd ho hb h hs j
    have hs' : name.space = q.tree.defaultNamespace := hs.trans (h.defaultNamespace ho).symm
    exact ⟨next, q', (prune_full h hs' f.context hcounts _ j).trans hq, .inl (by rw [hrewrite]; exact hl)⟩

/-- The stages of a visit to an element do what the rewriting says. -/
theorem stages_rewrite (hf : f.Enacts verdicts prunes) {descend : Ref → Pass σ Unit}
    (hd : DescendsRewriting verdicts prunes space o.below.size descend)
    (ho : o.tree.Ready space o.parent o.before o.ahead) (h : Poised o q o.node o.below (.element name attributes))
    (hc : o.tree.contentOf o.node = .element name attributes) (j : σ) :
    ∃ next q', throughStages (f.stages descend (Text.lowerCase name.written)) (q, j) = (.ok next, q', j) ∧
      o.Rewritten verdicts prunes q'.tree next := by
  rw [stages]
  rcases hf.opening (Text.lowerCase name.written) with ht | ⟨rfl, hv, ht⟩
  · rw [ht]
    cases hv : verdicts (Text.lowerCase name.written) with
    | none =>
      have horderly := ho.orderly_parts.1
      rw [Cursor.contents, hc] at horderly
      obtain ⟨⟨hs, -, -⟩, hb, -⟩ := horderly
      obtain ⟨next, q', hq, hl⟩ := descend_leaves hf hd ho hb h hs j
      refine ⟨next, q', hq, .inl ?_⟩
      rw [rewrite_contents hc, hv]
      exact hl
    | some verdict => exact stages_verdict hf hd ho h hc hv j
  · rw [ht]
    exact stages_pruned hf hd ho h hc hv j

/-- Nodes that are no elements are left alone where there is no text rule. -/
theorem visit_other (hf : f.rules.text = none) (descend : Ref → Pass σ Unit) {x : Nat}
    (hx : t.kind? (some x) ≠ some .element) (j : σ) :
    f.visit descend x (t, j) = (.ok (t.nextSibling (some x)), t, j) := by
  have htext : f.visitText x (t, j) = (.ok none, t, j) := by simp only [visitText, hf]
  rw [visit, bind_ok (run_get _)]
  rcases hk : t.kind? (some x) with _ | kind
  · simp only [hk]
    rfl
  · cases kind with
    | element => exact absurd hk hx
    | text =>
      simp only [hk]
      exact (bind_ok htext).trans rfl
    | _ =>
      simp only [hk]
      rfl

/-- A visit to an element does what the rewriting says. -/
theorem visitElement_rewrites (hf : f.Enacts verdicts prunes) {descend : Ref → Pass σ Unit}
    (hd : DescendsRewriting verdicts prunes space o.below.size descend)
    (ho : o.tree.Ready space o.parent o.before o.ahead) (he : o.tree.kind? (some o.node) = some .element) (j : σ) :
    ∃ next u, f.visitElement descend o.node (o.tree, j) = (.ok next, u, j) ∧ o.Rewritten verdicts prunes u next := by
  obtain ⟨name, attributes, hc⟩ := exists_element_of_kind he
  have h := Poised.begin ho.ahead ho.wellFormed.stored he f.namespaces
  rw [hc] at h
  obtain ⟨next, q', hq, hr⟩ := stages_rewrite hf hd ho h hc j
  have htag : (ElementProxy.ofNode o.tree (some o.node) f.namespaces).currentName = Text.lowerCase name.written :=
    ElementProxy.liveName_eq h.content_delegate
  refine ⟨next, q'.tree, ?_, hr⟩
  rw [throughStages, ← htag] at hq
  rw [run_visitElement, elementStages]
  simp only [hq]

/-- A visit does what the rewriting says, and the walk goes on at the node it answers. -/
theorem visit_rewrites (hf : f.Enacts verdicts prunes) {descend : Ref → Pass σ Unit}
    (hd : DescendsRewriting verdicts prunes space o.below.size descend)
    (ho : o.tree.Ready space o.parent o.before o.ahead) (j : σ) :
    ∃ next u, f.visit descend o.node (o.tree, j) = (.ok (next <|> o.rest.roots.head?), u, j) ∧
      o.Rewritten verdicts prunes u next := by
  have hfollowing : o.tree.nextSibling (some o.node) = o.rest.roots.head? :=
    ho.ahead.linked.nextSibling ho.ahead.list
  by_cases he : o.tree.kind? (some o.node) = some .element
  · obtain ⟨next, u, hu, hr⟩ := visitElement_rewrites hf hd ho he j
    exact ⟨next, u, hfollowing ▸ visit_element he hu, hr⟩
  · have hkind := kind_eq_of_content (content_of_lt (ho.ahead.lt List.mem_cons_self : o.node < o.tree.size))
    have hk : (o.tree.contentOf o.node).kind ≠ .element := fun hk => he (hkind.trans (congrArg some hk))
    refine ⟨none, o.tree, ?_, .inl ⟨.refl _ ho.wellFormed.stored, .inl rfl, o.node, o.below, .attached,
      .begin ho.ahead, ?_⟩⟩
    · rw [visit_other hf.text descend he, hfollowing]
      rfl
    · rw [Cursor.contents, Forest.rewrite_other hk]
      rfl

/-- A walk over a forest ahead rewrites it, for every bound that is not below its size. -/
theorem walk_rewrites (hf : f.Enacts verdicts prunes) {fuel : Nat} (h : t.Ready space p pre g) (hs : g.size ≤ fuel)
    (j : σ) :
    ∃ u, f.walk fuel g.roots.head? (t, j) = (.ok (), u, j) ∧ t.Rewrites verdicts prunes p pre g u := by
  have hw := walk_induction (f := f) (I := fun s p pre g => s.1.Ready space p pre g)
    (R := fun s p pre g s' => s.1.Rewrites verdicts prunes p pre g s'.1 ∧ s'.2 = s.2)
    (E := fun _ _ _ _ _ _ => False) (fun h => h.ahead)
    (fun h => ⟨⟨.nil, .refl h.ahead, .refl _ h.wellFormed.stored, rfl⟩, rfl⟩) ?_ (s := (t, j)) h hs
  · obtain ⟨⟨⟩, ⟨u, _⟩, hu, hr, rfl⟩ := hw.exists
    exact ⟨u, hu, hr⟩
  · intro o descend j₁ ho hd
    have hdescend : DescendsRewriting verdicts prunes space o.below.size descend := by
      intro u d b j' hb hbs
      obtain ⟨⟨⟩, ⟨v, _⟩, hv, hr, rfl⟩ := (hd j' hb hbs).exists
      exact ⟨v, hv, hr⟩
    obtain ⟨next, u, hu, hr⟩ := visit_rewrites hf hdescend ho j₁
    -- what is ahead after the visit has fewer nodes, even where children took the place of the node
    obtain ⟨pre', g', hg', hlt, hnext, hgo⟩ := hr.proceed ho
    rw [hu]
    exact ⟨o.parent, pre', g', hg', hlt, hnext, fun v hv => ⟨hgo v.1 hv.1, hv.2⟩, fun _ _ => id⟩

/-- A walk over a forest without elements among its roots leaves it alone where there is no text rule. -/
theorem walk_leaves (hf : f.rules.text = none) {fuel : Nat} (h : t.Ahead p pre g)
    (hg : ∀ x ∈ g.roots, t.kind? (some x) ≠ some .element) (hs : g.size ≤ fuel) (j : σ) :
    f.walk fuel g.roots.head? (t, j) = (.ok (), t, j) := by
  induction g generalizing pre fuel with
  | nil => cases fuel <;> rfl
  | node x below rest _ ih =>
    obtain _ | fuel := fuel
    · simp [Forest.size] at hs
    have hrest : t.Ahead p (pre ++ [x]) rest := Ahead.after (f := .node x below .nil) h
    have hnext : t.nextSibling (some x) = rest.roots.head? := h.linked.nextSibling h.list
    have hsize : rest.size ≤ fuel := by
      rw [Forest.size] at hs
      omega
    rw [Forest.roots, List.head?_cons, walk, bind_ok (visit_other hf _ (hg x List.mem_cons_self) j), hnext]
    exact ih hrest (fun y hy => hg y (List.mem_cons_of_mem _ hy)) hsize

/-- Where the document element is not below the document there is no element among its children. -/
theorem kind_of_document (hd : ∀ x ∈ t.kids 0, t.documentElement ≠ some x) :
    ∀ x ∈ t.kids 0, t.kind? (some x) ≠ some .element := by
  intro x hx hk
  have hsome : (t.documentElement).isSome = true := List.find?_isSome.2 ⟨x, hx, by simpa using hk⟩
  obtain ⟨y, hy⟩ := Option.isSome_iff_exists.1 hsome
  exact hd y (mem_of_documentElement hy) hy

/-- A pass that carries out verdicts succeeds and rewrites the forest below the start node. The tree it leaves is well
formed and has the same document element and default namespace. -/
theorem pass_rewrites (hf : f.Enacts verdicts prunes) (ht : t.WellFormed) {start : Nat}
    (hd : ∀ x ∈ (t.below (some start)).toList, t.documentElement ≠ some x)
    (hr : (t.contentBelow (some start)).Orderly t.defaultNamespace) (journal : σ) :
    ∃ u, f.apply (some start) t journal = (.ok (), u, journal) ∧
      t.Rewrites verdicts prunes start [] (t.below (some start)) u ∧ u.WellFormed ∧
      u.documentElement = t.documentElement ∧ u.defaultNamespace = t.defaultNamespace := by
  have ha := Ahead.of_below ht.linked start
  rw [f.apply_some ht.linked]
  by_cases hs : start = 0
  · subst hs
    -- the children of the document are no elements then, and a walk does not go below them
    have hkids : (t.below (some 0)).roots = t.kids 0 := (ht.linked.below_spec 0).1
    have hleaves : ∀ x ∈ (t.below (some 0)).roots, t.kind? (some x) ≠ some .element :=
      hkids ▸ kind_of_document fun x hx => hd x (Forest.mem_toList_of_mem_roots (hkids ▸ hx))
    refine ⟨t, walk_leaves hf.text ha hleaves ha.size_le journal, ⟨_, .refl ha, .refl _ ht.stored, ?_⟩, ht, rfl, rfl⟩
    rw [Forest.rewrite_of_leaves]
    intro c hc hk
    rw [Forest.roots_map] at hc
    obtain ⟨x, hx, rfl⟩ := List.mem_map.1 hc
    have hlt := ha.lt (Forest.mem_toList_of_mem_roots hx)
    exact hleaves x hx ((kind_eq_of_content (content_of_lt hlt)).trans (congrArg some hk))
  · obtain ⟨u, hu, hw⟩ := walk_rewrites hf ⟨ht, ha, hs, rfl, hr⟩ ha.size_le journal
    have ⟨g', hg, hret, _⟩ := hw
    have hzero : 0 ∉ {x | x = start ∨ x ∈ (t.below (some start)).toList} := by
      rintro (rfl | hm)
      · exact hs rfl
      · obtain ⟨q, hq⟩ := ha.stands hm
        exact ht.apex q hq
    exact ⟨u, hu, hw, ht.evolve hg.evolves hret.stored, ht.documentElement_eq hg.evolves hzero,
      ht.defaultNamespace_eq hg.evolves hret hzero⟩

theorem contentBelow_of_rewrites {start : Nat} (h : t.Rewrites verdicts prunes start [] (t.below (some start)) u) :
    u.contentBelow (some start) = (t.contentBelow (some start)).rewrite verdicts prunes := by
  obtain ⟨g', hg, -, hc⟩ := h
  rw [contentBelow, hg.ahead.below_eq, hc, contentBelow]

/-- A pass that carries out verdicts succeeds, and the contents below the start node are afterwards the rewriting
of what they were. -/
theorem apply_rewrites (hf : f.Enacts verdicts prunes) (ht : t.WellFormed) {start : Ref}
    (hd : ∀ x ∈ (t.below start).toList, t.documentElement ≠ some x)
    (hr : (t.contentBelow start).Regular t.defaultNamespace) (journal : σ) :
    ∃ u, f.apply start t journal = (.ok (), u, journal) ∧
      u.contentBelow start = (t.contentBelow start).rewrite verdicts prunes := by
  cases start with
  | none =>
    have hnil : t.contentBelow none = .nil := by rw [contentBelow, below_none]; rfl
    exact ⟨t, f.apply_none t journal, by rw [hnil]; rfl⟩
  | some start =>
    obtain ⟨u, hu, hw, -⟩ := pass_rewrites hf ht hd hr.orderly journal
    exact ⟨u, hu, contentBelow_of_rewrites hw⟩

/-- A link whose target stands under a name in a namespace, but without a prefix. -/
def linking : Tree where
  nodes := #[
    { first := some 1, last := some 1, data := .document },
    { parent := some 0, first := some 2, last := some 2, data := .element ⟨0, 0, 1⟩ [] },
    { parent := some 1, first := some 3, last := some 3, data := .element ⟨0, 0, 2⟩ [⟨⟨3, 0, 4⟩, "v"⟩] },
    { parent := some 2, data := .text "x" }]
  symbols := ⟨#["", "div", "b", "urn:x", "href"]⟩

/-- Renames every `b`, and removes elements without content. -/
def italics : Filter Unit Unit where
  rules := { elements := [("b", Rule.renameTo "I"), ("$$", Rule.removeIfEmpty)] }
  context := ()

/-- What the rules of `italics` say. -/
def italic (tag : String) : Option Verdict := if tag = "b" then some (.rename "I") else none

theorem italics_enacts : italics.Enacts italic true := by
  refine ⟨fun {key} hk => ?_, fun {key} hk => ?_, rfl, rfl, rfl, rfl⟩
  · have hclosing : key ≠ "$$" := fun e => hk (by simp [e, RuleSet.afterChildren])
    simp only [italics, RuleSet.element?, Keyed.lookup_cons_ite, if_neg hclosing, List.lookup_nil, italic]
    split <;> rfl
  · simp only [List.mem_cons, List.not_mem_nil, or_false] at hk
    rcases hk with rfl | rfl | rfl <;> rfl

theorem wellFormed_linking : linking.WellFormed := by
  have hl : linking.Linked := Agrees.linked (by decide)
  exact ⟨hl, rfl, hl.orphan_iff.1 rfl, ⟨rfl, by decide⟩⟩

theorem regular_linking : (linking.contentBelow (some 1)).Regular linking.defaultNamespace := by
  have hc : linking.contentBelow (some 1) =
      .node (.element ⟨"", "", "b"⟩ [⟨⟨"urn:x", "", "href"⟩, "v"⟩]) (.node (.text "x") .nil .nil) .nil := by decide
  rw [hc]
  refine ⟨⟨by decide, ?_, List.nodup_singleton _⟩, ⟨rfl, trivial⟩, trivial⟩
  intro a ha
  obtain rfl := List.mem_singleton.1 ha
  exact ⟨by decide, by decide⟩

theorem italics_rewrites : ∃ u, italics.apply (some 1) linking () = (.ok (), u, ()) ∧
    u.contentBelow (some 1) = (linking.contentBelow (some 1)).rewrite italic true :=
  apply_rewrites italics_enacts wellFormed_linking (by decide) regular_linking ()

/-- The attributes of a renamed element are not the same in every respect: one in a namespace has lost it. -/
theorem italics_drops_space :
    italics.Enacts italic true ∧ linking.WellFormed ∧
      (∀ x ∈ (linking.below (some 1)).toList, linking.documentElement ≠ some x) ∧
      (linking.contentBelow (some 1)).Regular linking.defaultNamespace ∧
      ∃ a, linking.contentBelow (some 1) =
          .node (.element ⟨"", "", "b"⟩ [a]) (.node (.text "x") .nil .nil) .nil ∧
        ∀ name, (italics.apply (some 1) linking ()).2.1.contentBelow (some 1) ≠
          .node (.element name [a]) (.node (.text "x") .nil .nil) .nil := by
  refine ⟨italics_enacts, wellFormed_linking, by decide, regular_linking, ⟨⟨"urn:x", "", "href"⟩, "v"⟩, by decide, ?_⟩
  have hc : (italics.apply (some 1) linking ()).2.1.contentBelow (some 1) =
      .node (.element ⟨"", "", "i"⟩ [⟨⟨"", "", "href"⟩, "v"⟩]) (.node (.text "x") .nil .nil) .nil := by
    decide +kernel
  intro name he
  simp [hc] at he

end Filter

end RichText
