import RichText.Proofs.Pass.Relabel
import RichText.Proofs.Pass.Rewrite
import RichText.Proofs.Tree.Resolved

/-!
A pass without rules.

Such a pass is not idle: every element is persisted once its children were walked through, and an element outside the
default namespace is then exchanged for a new one inside. The new element has the old tag, lower-cased, and the old
attributes, resolved by the table. Nothing else changes below the start node, so that the pass is a relabelling.
-/

namespace RichText

open RichText.Tree Effects

variable {κ σ : Type} {f : Filter κ σ} {namespaces : NamespaceTable} {space : String} {o : Cursor} {t u : Tree}
  {p d : Nat} {pre : List Nat} {g below : Forest Nat} {next : Ref} {q : ElementProxy} {name : Name}
  {attributes : List (Attribute String)} {l : Labels → Labels}

/-! ### What becomes of an element -/

/-- An element in the given namespace stays, and any other one is made anew in it. -/
def adopt (namespaces : NamespaceTable) (space : String) (e : Labels) : Labels :=
  if e.1.space = space then e
  else (.ofWritten space (Text.lowerCase e.1.written), e.2.map (Attribute.resolved namespaces))

/-- A new element can take over all attributes: they have distinct names, and none of them asks for a namespace. -/
def Transferable (e : Labels) : Prop :=
  (e.2.map fun a => a.name.written).Nodup ∧ ∀ a ∈ e.2, a.name.written ≠ "xmlns"

theorem Transferable.adopt {e : Labels} (h : Transferable e) (namespaces : NamespaceTable) (space : String) :
    Transferable (adopt namespaces space e) := by
  rw [RichText.adopt]
  split
  · exact h
  · simpa [Transferable, Function.comp_def] using h

/-! ### Persisting an idle proxy -/

namespace ElementProxy

/-- Nothing is buffered on the proxy. -/
structure Idle (q : ElementProxy) : Prop where
  isMutable : q.isMutable = true
  fate : q.fate = .keep
  pendingName : q.pendingName = none
  overrides : q.overrides = []

theorem Idle.persist (h : q.Idle) {response : Response} {q' : ElementProxy}
    (hq : persistAttributes q = (.ok response, q')) (ho : q'.overrides = []) :
    ElementProxy.persist q = (.ok response, q') := by
  have hq₀ : { q with pendingName := none } = q := by rw [← h.pendingName]
  have hcontent := persistContent_attributes (p := q) (fun _ hn => nomatch hn.symm.trans h.pendingName) (hq₀ ▸ hq)
  rw [persist_content h.isMutable (NodeProxy.settle_keep h.fate)]
  exact hcontent.trans (by rw [← ho])

/-- An element in the default namespace stays. -/
theorem Idle.persist_home (h : q.Idle) (hc : q.tree.content? q.delegate = some (.element name attributes))
    (hs : name.space = q.tree.defaultNamespace) : ElementProxy.persist q = (.ok .proceed, q) :=
  h.persist (persistAttributes_home hc h.overrides hs) h.overrides

/-- An element outside the default namespace is exchanged for a new one. -/
theorem Idle.persist_foreign (h : q.Idle) (hc : q.tree.content? q.delegate = some (.element name attributes))
    (hs : name.space ≠ q.tree.defaultNamespace) (hn : (attributes.map fun a => a.name.written).Nodup) {new : Nat}
    (hu : Edit.renew q.namespaces q.delegate q.tree.defaultNamespace (Text.lowerCase name.written)
      (attributes.map fun a => (a.name.written, some a.value)) q.tree = (.ok new, u)) :
    ElementProxy.persist q = (.ok .proceed, { q with tree := u, delegate := some new, replacement := some new }) := by
  have hspace : (q.tree.namespace? q.delegate).getD "" = name.space := by
    simp [namespace?, name?, hc, NodeData.name?]
  have hpending : q.pendingNamespace = none := by simp [pendingNamespace, h.overrides]
  have hfor : q.spaceFor none = q.tree.defaultNamespace := by simp [spaceFor, hpending]
  have hname : q.currentName = Text.lowerCase name.written := by
    rw [currentName, h.pendingName, Option.getD_none, liveName_eq hc]
  rw [← hfor, ← hname, ← entries_eq hc h.overrides hn] at hu
  exact h.persist ((persistAttributes_new (.inl (hspace ▸ hs))).trans (replaceBy_ok h.isMutable hu)) h.overrides

end ElementProxy

/-! ### Where a walk stands -/

/-- A forest ahead whose elements can all be exchanged, in a well-formed tree with this default namespace. The document
element is not in it, and it is not the forest below the document. -/
structure Tree.Open (space : String) (t : Tree) (p : Nat) (pre : List Nat) (g : Forest Nat) : Prop where
  wellFormed : t.WellFormed
  ahead : t.Ahead p pre g
  parent_ne : p ≠ 0
  defaultNamespace : t.defaultNamespace = space
  apart : ∀ x ∈ g.toList, t.documentElement ≠ some x
  transferable : ∀ e ∈ (g.map t.contentOf).walked, Transferable e

/-- From `t` to `u` the forest `g` in the list of `p` after `pre` was relabelled, and of all other nodes the document
element alone may have changed. -/
def Tree.Relabels (l : Labels → Labels) (t : Tree) (p : Nat) (pre : List Nat) (g : Forest Nat) (u : Tree) : Prop :=
  ∃ g', t.Turned p pre g u g' ∧ t.Spares u ∧ g'.map u.contentOf = (g.map t.contentOf).relabel l

/-- A visit is over: in the place of the node there is a relabelled one, above what was made of its children. -/
def Cursor.Relabels (l : Labels → Labels) (o : Cursor) (u : Tree) (next : Ref) : Prop :=
  o.tree.Spares u ∧ (next = none ∨ next = o.rest.roots.head?) ∧
    ∃ d below, Visiting o u d below .attached ∧ (Forest.node d below .nil).map u.contentOf = o.contents.relabel l

theorem Tree.Spares.contents (h : t.Spares u) (hg : ∀ x ∈ g.toList, x < t.size)
    (ha : ∀ x ∈ g.toList, t.documentElement ≠ some x) : g.map u.contentOf = g.map t.contentOf :=
  Forest.map_congr fun x hx => by rw [contentOf, contentOf, h.content (hg x hx) (ha x hx)]

namespace Tree.Open

theorem zero_not_mem (h : o.tree.Open space o.parent o.before o.ahead) :
    0 ∉ {x | x = o.parent ∨ x ∈ o.node :: o.below.toList} :=
  h.ahead.apex_not_mem h.wellFormed.apex h.parent_ne

theorem documentElement_eq (h : o.tree.Open space o.parent o.before o.ahead) {place : Place}
    (hv : Visiting o u d below place) : u.documentElement = o.tree.documentElement :=
  h.wellFormed.documentElement_eq hv.evolves h.zero_not_mem

theorem defaultNamespace_eq (h : o.tree.Open space o.parent o.before o.ahead) {place : Place}
    (hv : Visiting o u d below place) (hs : o.tree.Spares u) : u.defaultNamespace = space := by
  have hkids : u.kids 0 = o.tree.kids 0 := hv.evolves.kids h.wellFormed.size_pos h.zero_not_mem
  exact (hs.toRecalls.defaultNamespace h.wellFormed.stored.named h.ahead.linked hkids).trans h.defaultNamespace

/-- A forest that was ahead and is ahead again, of nodes that the visit did not change. -/
theorem after (h : o.tree.Open space o.parent o.before o.ahead) {place : Place} (hv : Visiting o u d below place)
    (hs : o.tree.Spares u) (ha : u.Ahead p pre g) (hp : p ≠ 0) (hg : ∀ x ∈ g.toList, x ∈ o.ahead.toList)
    (ht : ∀ e ∈ (g.map o.tree.contentOf).walked, Transferable e) :
    u.Open space p pre g ∧ g.map u.contentOf = g.map o.tree.contentOf := by
  have hapart : ∀ x ∈ g.toList, o.tree.documentElement ≠ some x := fun x hx => h.apart x (hg x hx)
  have hcontents := hs.contents (fun x hx => h.ahead.lt (hg x hx)) hapart
  exact ⟨⟨h.wellFormed.evolve hv.evolves hs.stored, ha, hp, h.defaultNamespace_eq hv hs,
    h.documentElement_eq hv ▸ hapart, hcontents ▸ ht⟩, hcontents⟩

/-- The document element is not in the place of the visited node. -/
theorem seat_apart (h : o.tree.Open space o.parent o.before o.ahead) {place : Place}
    (hv : Visiting o u d below place) {x : Nat} (hx : x ∈ (place.seat d below).toList) :
    o.tree.documentElement ≠ some x := by
  rcases hv.seat_source hx with hx | hge
  · rcases List.mem_cons.1 hx with rfl | hx
    · exact h.apart _ List.mem_cons_self
    · exact h.apart x (Forest.mem_toList_below hx _ _)
  · exact fun he => (lt_of_documentElement he).not_ge hge

theorem transferable_parts (h : o.tree.Open space o.parent o.before o.ahead) :
    (∀ e ∈ o.contents.walked, Transferable e) ∧ ∀ e ∈ (o.rest.map o.tree.contentOf).walked, Transferable e := by
  have ht := h.transferable
  rw [o.contents_ahead, Forest.walked_append, List.forall_mem_append] at ht
  exact ht

/-- An element that is visited can be exchanged itself. -/
theorem transferable_node (h : o.tree.Open space o.parent o.before o.ahead)
    (hc : o.tree.contentOf o.node = .element name attributes) : Transferable (name, attributes) := by
  refine h.transferable_parts.1 _ ?_
  rw [Cursor.contents, hc]
  exact List.mem_cons_self

/-- What is below an element that is visited is open to the walk through it. -/
theorem inside (h : o.tree.Open space o.parent o.before o.ahead)
    (he : o.tree.kind? (some o.node) = some .element) : o.tree.Open space o.node [] o.below := by
  obtain ⟨name, attributes, hc⟩ := exists_element_of_kind he
  have hv := Visiting.begin h.ahead
  refine (h.after hv (.refl h.wellFormed.stored) hv.inner ?_ (fun _ hx => Forest.mem_toList_below hx _ _)
    fun e hw => ?_).1
  · intro h0
    rw [h0] at he
    exact nomatch he.symm.trans h.wellFormed.document
  · refine h.transferable_parts.1 e ?_
    rw [Cursor.contents, hc]
    exact List.mem_cons_of_mem _ (List.mem_append_left _ hw)

end Tree.Open

/-- Where a visit is over the walk goes on at what followed, and once that is relabelled so is the forest that was
ahead. -/
theorem Cursor.Relabels.proceed (h : o.Relabels l u next) (ho : o.tree.Open space o.parent o.before o.ahead) :
    ∃ pre, u.Open space o.parent pre o.rest ∧ (next <|> o.rest.roots.head?) = o.rest.roots.head? ∧
      ∀ v, u.Relabels l o.parent pre o.rest v → o.tree.Relabels l o.parent o.before o.ahead v := by
  obtain ⟨hs, hn, d, below, hv, hc⟩ := h
  obtain ⟨hopen, hrest⟩ := ho.after hv hs hv.ahead.after ho.parent_ne (fun _ hx => Forest.mem_toList_rest hx _ _)
    ho.transferable_parts.2
  refine ⟨_, hopen, ?_, ?_⟩
  · rcases hn with rfl | rfl
    · rfl
    · cases o.rest.roots.head? <;> rfl
  · rintro v ⟨g', ht, hs', hg'⟩
    have hdoc := ho.documentElement_eq hv
    refine ⟨_, hv.turned_rest ht, hs.trans hs' hdoc, ?_⟩
    have hseat : (Forest.node d below .nil).map v.contentOf = (Forest.node d below .nil).map u.contentOf :=
      hs'.contents (fun _ hx => hv.ahead.lt_front hx) fun x hx => hdoc ▸ ho.seat_apart hv hx
    rw [Place.seat, Forest.map_append, hseat, hc, hg', hrest, o.contents_ahead, Forest.relabel_append]

/-! ### Visits -/

theorem RuleSet.element?_of_isEmpty {rules : RuleSet κ σ} (h : rules.isEmpty = true) (key : String) :
    rules.element? key = none := by
  rw [isEmpty, Bool.and_eq_true, List.isEmpty_iff] at h
  rw [element?, h.1]
  rfl

theorem RuleSet.text_of_isEmpty {rules : RuleSet κ σ} (h : rules.isEmpty = true) : rules.text = none := by
  rw [isEmpty, Bool.and_eq_true, Option.isNone_iff_eq_none] at h
  exact h.2

namespace Filter

/-- Without rules the walk through the children is all there is to a visit. -/
theorem stages_of_isEmpty (h : f.rules.isEmpty = true) (descend : Ref → Pass σ Unit) (tag : String) :
    f.stages descend tag = [onTree descend] := by
  simp [stages, RuleSet.opening, RuleSet.closing, RuleSet.element?_of_isEmpty h]

/-- What is asked of the walk through the children of an element, for child lists up to a bound. -/
def DescendsRelabelling (l : Labels → Labels) (space : String) (bound : Nat) (descend : Ref → Pass σ Unit) : Prop :=
  ∀ {t d below} j, t.Open space d [] below → below.size ≤ bound →
    ∃ u, descend (some d) (t, j) = (.ok (), u, j) ∧ t.Relabels l d [] below u

/-- Persisting an idle proxy of the visited element relabels it. -/
theorem persist_relabels (hns : namespaces.Separates) (ho : o.tree.Open space o.parent o.before o.ahead)
    (h : OnElement o q o.node below .attached) (hi : q.Idle) (hq : q.namespaces = namespaces)
    (hs : o.tree.Spares q.tree) (hc : o.tree.contentOf o.node = .element name attributes)
    (hb : below.map q.tree.contentOf = (o.below.map o.tree.contentOf).relabel (adopt namespaces space)) :
    ∃ d q', ElementProxy.persist q = (.ok .proceed, q') ∧ OnElement o q' d below .attached ∧
      o.tree.Spares q'.tree ∧
      (Forest.node d below .nil).map q'.tree.contentOf = o.contents.relabel (adopt namespaces space) := by
  have hlt : o.node < o.tree.size := ho.ahead.lt List.mem_cons_self
  have hcontent : q.tree.content? (some o.node) = some (.element name attributes) := by
    rw [hs.content hlt (ho.apart _ List.mem_cons_self), content_of_lt hlt, hc]
  have hspace : q.tree.defaultNamespace = space := ho.defaultNamespace_eq h.visiting hs
  have hrelabel : o.contents.relabel (adopt namespaces space) =
      .node (.element (adopt namespaces space (name, attributes)).1 (adopt namespaces space (name, attributes)).2)
        (below.map q.tree.contentOf) .nil := by
    rw [Cursor.contents, hc, Forest.relabel, hb, Forest.relabel]
  by_cases hhome : name.space = space
  · refine ⟨o.node, q, hi.persist_home (h.delegate ▸ hcontent) (hhome.trans hspace.symm), h, hs, ?_⟩
    rw [hrelabel, adopt, if_pos hhome, Forest.map, contentOf, hcontent, Option.getD_some, Forest.map]
  · have htransfer := ho.transferable_node hc
    obtain ⟨u, hu, hv⟩ := h.visiting.renew h.kind q.namespaces q.tree.defaultNamespace (Text.lowerCase name.written)
      (attributes.map fun a => (a.name.written, some a.value))
    obtain ⟨hspares, hnew⟩ := hs.stored.renew_resolved h.visiting.ahead.linked (hq ▸ hns) htransfer.2 htransfer.1 hu
    have hdoc := ho.documentElement_eq h.visiting
    have hbelow : below.map u.contentOf = below.map q.tree.contentOf :=
      hspares.contents (fun _ hx => h.visiting.inner.lt hx) fun x hx =>
        hdoc ▸ ho.seat_apart h.visiting (Forest.mem_toList_below hx _ _)
    have hforeign : name.space ≠ q.tree.defaultNamespace := hspace ▸ hhome
    refine ⟨q.tree.size, _, hi.persist_foreign (h.delegate ▸ hcontent) hforeign htransfer.1 (h.delegate ▸ hu),
      ⟨hv, rfl, h.isMutable, h.element, .inr rfl⟩, hs.trans hspares hdoc, ?_⟩
    rw [hrelabel, adopt, if_neg hhome, Forest.map, contentOf, hnew, hbelow, hspace, hq, Option.getD_some, Forest.map]

theorem visitElement_relabels (hf : f.rules.isEmpty = true) (hns : f.namespaces.Separates)
    {descend : Ref → Pass σ Unit}
    (hd : DescendsRelabelling (adopt f.namespaces space) space o.below.size descend)
    (ho : o.tree.Open space o.parent o.before o.ahead) (he : o.tree.kind? (some o.node) = some .element) (j : σ) :
    ∃ next u, f.visitElement descend o.node (o.tree, j) = (.ok next, u, j) ∧
      o.Relabels (adopt f.namespaces space) u next := by
  obtain ⟨name, attributes, hc⟩ := exists_element_of_kind he
  let q := ElementProxy.ofNode o.tree (some o.node) f.namespaces
  have hbegin : OnElement o q o.node o.below .attached := ⟨.begin ho.ahead, rfl, rfl, he, .inl rfl⟩
  obtain ⟨u, hu, below, ht, hs, hb⟩ := hd j (ho.inside he) (Nat.le_refl _)
  have hrun : onTree descend (q, j) = (.ok (), { q with tree := u }, j) := by
    simp only [onTree, q, ElementProxy.ofNode, NodeProxy.ofNode, hu]
  obtain ⟨d, q', hq, hon, hs', hcontents⟩ := persist_relabels (q := { q with tree := u }) hns ho (hbegin.descend ht)
    ⟨rfl, rfl, rfl, rfl⟩ rfl hs hc hb
  obtain ⟨next, hn, hnext⟩ := hon.successor (ε := Halt) j
  refine ⟨next, q'.tree, ?_, hs', hnext, d, below, hon.visiting, hcontents⟩
  have hstages : f.elementStages descend o.node o.tree j = (.ok next, q', j) := by
    rw [elementStages, stages_of_isEmpty hf]
    exact (throughStages_cons hrun hq).trans hn
  rw [run_visitElement, hstages]

/-- A visit relabels an element and all that is below it, and leaves any other node alone. The walk goes on at what
followed. -/
theorem visit_relabels (hf : f.rules.isEmpty = true) (hns : f.namespaces.Separates) {descend : Ref → Pass σ Unit}
    (hd : DescendsRelabelling (adopt f.namespaces space) space o.below.size descend)
    (ho : o.tree.Open space o.parent o.before o.ahead) (j : σ) :
    ∃ next u, f.visit descend o.node (o.tree, j) = (.ok (next <|> o.rest.roots.head?), u, j) ∧
      o.Relabels (adopt f.namespaces space) u next := by
  have hfollowing : o.tree.nextSibling (some o.node) = o.rest.roots.head? := ho.ahead.linked.nextSibling ho.ahead.list
  by_cases he : o.tree.kind? (some o.node) = some .element
  · obtain ⟨next, u, hu, hr⟩ := visitElement_relabels hf hns hd ho he j
    exact ⟨next, u, hfollowing ▸ visit_element he hu, hr⟩
  · have hkind := kind_eq_of_content (content_of_lt (ho.ahead.lt List.mem_cons_self : o.node < o.tree.size))
    have hk : (o.tree.contentOf o.node).kind ≠ .element := fun hk => he (hkind.trans (congrArg some hk))
    refine ⟨none, o.tree, ?_, .refl ho.wellFormed.stored, .inl rfl, o.node, o.below, .begin ho.ahead, ?_⟩
    · rw [visit_other (RuleSet.text_of_isEmpty hf) descend he, hfollowing]
      rfl
    · rw [Cursor.contents, Forest.relabel_other hk]
      rfl

/-! ### Walks and passes -/

/-- A walk over a forest ahead relabels it. -/
theorem walk_relabels (hf : f.rules.isEmpty = true) (hns : f.namespaces.Separates) {fuel : Nat}
    (h : t.Open space p pre g) (hs : g.size ≤ fuel) (j : σ) :
    ∃ u, f.walk fuel g.roots.head? (t, j) = (.ok (), u, j) ∧ t.Relabels (adopt f.namespaces space) p pre g u := by
  have hw := walk_induction (f := f) (I := fun s p pre g => s.1.Open space p pre g)
    (R := fun s p pre g s' => s.1.Relabels (adopt f.namespaces space) p pre g s'.1 ∧ s'.2 = s.2)
    (E := fun _ _ _ _ _ _ => False) (fun h => h.ahead)
    (fun h => ⟨⟨.nil, .refl h.ahead, .refl h.wellFormed.stored, rfl⟩, rfl⟩) ?_ (s := (t, j)) h hs
  · obtain ⟨⟨⟩, ⟨u, _⟩, hu, hr, rfl⟩ := hw.exists
    exact ⟨u, hu, hr⟩
  · intro o descend j₁ ho hd
    have hdescend : DescendsRelabelling (adopt f.namespaces space) space o.below.size descend := by
      intro u d b j' hb hbs
      obtain ⟨⟨⟩, ⟨v, _⟩, hv, hr, rfl⟩ := (hd j' hb hbs).exists
      exact ⟨v, hv, hr⟩
    obtain ⟨next, u, hu, hr⟩ := visit_relabels hf hns hdescend ho j₁
    obtain ⟨pre', hopen, hnext, hgo⟩ := hr.proceed ho
    have hlt : o.rest.size < o.ahead.size := by
      show o.rest.size < o.below.size + o.rest.size + 1
      omega
    rw [hu]
    exact ⟨o.parent, pre', o.rest, hopen, hlt, hnext, fun v hv => ⟨hgo v.1 hv.1, hv.2⟩, fun _ _ => id⟩

/-- A pass without rules succeeds, and exchanges the elements below the start node that are not in the default
namespace. -/
theorem apply_relabels (hf : f.rules.isEmpty = true) (hns : f.namespaces.Separates) (ht : t.WellFormed) {start : Nat}
    (hd : t.documentElement = some d) (hb : d ∉ (t.below (some start)).toList)
    (hw : ∀ e ∈ (t.contentBelow (some start)).walked, Transferable e) (journal : σ) :
    ∃ u, f.apply (some start) t journal = (.ok (), u, journal) ∧
      u.contentBelow (some start) =
        (t.contentBelow (some start)).relabel (adopt f.namespaces t.defaultNamespace) := by
  have ha := Ahead.of_below ht.linked start
  have hopen : t.Open t.defaultNamespace start [] (t.below (some start)) :=
    ⟨ht, ha, ht.ne_zero hd hb, rfl, fun x hx he => hb (Option.some.inj (hd.symm.trans he) ▸ hx), hw⟩
  obtain ⟨u, hu, g, hg, -, hc⟩ := walk_relabels hf hns hopen ha.size_le journal
  refine ⟨u, (f.apply_some ht.linked start journal).trans hu, ?_⟩
  rw [contentBelow, hg.ahead.below_eq, hc, contentBelow]

end Filter

end RichText
