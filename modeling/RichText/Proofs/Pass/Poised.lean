import RichText.Proofs.Pass.Delegate
import RichText.Proofs.Pass.Verdicts

/-!
A visit between two stages, with nothing buffered.

`Poised` follows the content of the delegate through a visit. A verdict is recorded on the proxy and then carried
out by persisting it: a renamed delegate is poised again with its new content, a removed or unwrapped one has left
its place. Persisting a poised proxy does nothing.
-/

namespace RichText

open RichText.Tree Effects

variable {o : Cursor} {q : ElementProxy} {d : Nat} {below : Forest Nat} {content : Content} {name : Name}
  {attributes : List (Attribute String)}

/-! ### What rules record -/

/-- The proxy after a verdict was recorded on it. -/
def Verdict.record (q : ElementProxy) : Verdict → ElementProxy
  | rename new => { q with pendingName := some (Text.lowerCase new) }
  | remove => { q with fate := .remove }
  | unwrap => { q with fate := .unwrap }

namespace Rule

variable {κ σ : Type}

theorem run_record (hm : q.isMutable = true) (fate : Fate) (operation : Operation) (j : σ) :
    (onProxy (ElementProxy.onNode (NodeProxy.toggle fate true operation)) : RuleM σ ElementProxy Unit) (q, j) =
      (.ok (), { q with fate }, j) := by
  simp only [onProxy, ElementProxy.onNode_ok (p := q) (NodeProxy.toggle_ok hm fate operation)]

theorem run_verdict (hm : q.isMutable = true) (verdict : Verdict) (context : κ) (j : σ) :
    (verdict.rule context noop : RuleM σ ElementProxy Unit) (q, j) = (.ok (), verdict.record q, j) := by
  cases verdict with
  | rename new =>
    show (onProxy (ElementProxy.setName new) : RuleM σ ElementProxy Unit) (q, j) = _
    simp only [onProxy, ElementProxy.setName_ok hm new]
    rfl
  | remove => exact run_record hm .remove .setRemove j
  | unwrap => exact run_record hm .unwrap .setReplaceByChildren j

theorem run_removeIfEmpty (hm : q.isMutable = true) (context : κ) (j : σ) :
    (removeIfEmpty context noop : RuleM σ ElementProxy Unit) (q, j) =
      (.ok (), if q.isEmptyBy isContent then { q with fate := .remove } else q, j) := by
  rw [removeIfEmpty, bind_ok (run_get _)]
  dsimp only
  split
  · exact run_record hm .remove .setRemove j
  · rfl

end Rule

/-! ### Reading an element -/

namespace ElementProxy

theorem liveName_eq (h : q.tree.content? q.delegate = some (.element name attributes)) :
    q.liveName = Text.lowerCase name.written := by
  simp [liveName, tag?, name?, h, NodeData.name?]

/-- What a new element takes over where no attribute is buffered: all attributes in their order. -/
theorem entries_eq (h : q.tree.content? q.delegate = some (.element name attributes)) (ho : q.overrides = [])
    (hn : (attributes.map fun a => a.name.written).Nodup) :
    q.entries = attributes.map fun a => (a.name.written, some a.value) := by
  have hlive : q.tree.attributes q.delegate = attributes := by simp [Tree.attributes, h, NodeData.attributes]
  have hnames : q.attributeNames = attributes.map fun a => a.name.written := by
    simp [attributeNames, ho, addNew, Tree.attributeNames, hlive]
  rw [entries, hnames, List.map_map]
  refine List.map_congr_left fun a ha => ?_
  have hfind : attributes.find? (fun b => b.name.written == a.name.written) = some a := by
    obtain ⟨l, r, rfl⟩ := List.append_of_mem ha
    rw [List.map_append, List.map_cons, List.nodup_append] at hn
    refine List.find?_eq_some_iff_append.2 ⟨by simp, l, r, rfl, fun b hb => ?_⟩
    simpa using hn.2.2 _ (List.mem_map_of_mem hb) _ List.mem_cons_self
  have hvalue : q.attribute? a.name.written = some a.value := by
    simp [ElementProxy.attribute?, ho, Tree.attribute?, hlive, hfind]
  rw [Function.comp_apply, hvalue]

/-- Writing the attributes of an element in the default namespace does nothing where none is buffered. -/
theorem persistAttributes_home (h : q.tree.content? q.delegate = some (.element name attributes))
    (ho : q.overrides = []) (hs : name.space = q.tree.defaultNamespace) :
    persistAttributes q = (.ok .proceed, q) := by
  have hspace : (q.tree.namespace? q.delegate).getD "" = q.tree.defaultNamespace := by
    simp [namespace?, name?, h, NodeData.name?, hs]
  refine persistAttributes_same ?_ ?_
  · simp [needsNew, hspace, pendingNamespace, ho]
  · simp [ho, Edit.writeAttributes]

end ElementProxy

theorem Rule.isContent_eq {t : Tree} {x : Nat} (hx : x < t.size) : isContent t x = (t.contentOf x).counts := by
  obtain ⟨n, hn⟩ := exists_node? hx
  rw [isContent, contentOf, content?, data?, hn]
  cases hd : n.data <;> simp [hd, NodeData.map, NodeData.counts]

/-! ### Poised visits -/

/-- The delegate stands in its place with the given content, and nothing is buffered on its proxy. The nodes that
were there when the visit began have their contents of then. -/
structure Poised (o : Cursor) (q : ElementProxy) (d : Nat) (below : Forest Nat) (content : Content) : Prop extends
    OnElement o q d below .attached where
  retains : Retains o.tree.size o.tree q.tree
  content : q.tree.content? (some d) = some content
  fate : q.fate = .keep
  pendingName : q.pendingName = none
  overrides : q.overrides = []

namespace Poised

theorem begin (h : o.tree.Ahead o.parent o.before o.ahead) (hs : o.tree.Stored)
    (he : o.tree.kind? (some o.node) = some .element) (namespaces : NamespaceTable) :
    Poised o (ElementProxy.ofNode o.tree (some o.node) namespaces) o.node o.below (o.tree.contentOf o.node) :=
  ⟨⟨.begin h, rfl, rfl, he, .inl rfl⟩, .refl _ hs, content_of_lt (lt_of_kind he), rfl, rfl, rfl⟩

theorem content_delegate (h : Poised o q d below content) : q.tree.content? q.delegate = some content :=
  h.delegate ▸ h.content

theorem settle (h : Poised o q d below content) : NodeProxy.settle q.toNodeProxy = (.ok none, q.toNodeProxy) :=
  NodeProxy.settle_keep h.fate

/-- Whether the rule that prunes empty elements removes the delegate. -/
theorem isEmpty_iff (h : Poised o q d below content) :
    q.isEmptyBy Rule.isContent = !(below.map q.tree.contentOf).roots.any NodeData.counts := by
  have hkids : q.tree.children q.delegate = below.roots := by
    rw [h.delegate]
    exact h.visiting.inner.list
  have hany : below.roots.any (Rule.isContent q.tree) = (below.map q.tree.contentOf).roots.any NodeData.counts := by
    rw [Forest.roots_map, List.any_map, Bool.eq_iff_iff, List.any_eq_true, List.any_eq_true]
    refine exists_congr fun x => and_congr_right fun hx => ?_
    rw [Rule.isContent_eq (h.visiting.inner.lt (Forest.mem_toList_of_mem_roots hx)), Function.comp_apply]
  rw [NodeProxy.isEmptyBy, hkids, hany]

/-- Persisting does nothing where no other name than that of the element is buffered. -/
theorem persist_same (h : Poised o q d below (.element name attributes))
    (hs : name.space = q.tree.defaultNamespace) {pendingName : Option String}
    (hn : ∀ new, pendingName = some new → new = q.liveName) :
    ElementProxy.persist { q with pendingName } = (.ok .proceed, q) := by
  have hq : { q with pendingName := none, overrides := [] } = q := by rw [← h.pendingName, ← h.overrides]
  have hsettle : NodeProxy.settle { q with pendingName }.toNodeProxy = (.ok none, q.toNodeProxy) := h.settle
  rw [ElementProxy.persist_content (p := { q with pendingName }) h.isMutable hsettle]
  have hcontent := ElementProxy.persistContent_attributes (p := { q with pendingName }) hn
    (ElementProxy.persistAttributes_home (q := { q with pendingName := none }) h.content_delegate h.overrides hs)
  exact hcontent.trans (by rw [hq])

theorem persist_idle (h : Poised o q d below (.element name attributes))
    (hs : name.space = q.tree.defaultNamespace) : ElementProxy.persist q = (.ok .proceed, q) := by
  have hn : ∀ new, none = some new → new = q.liveName := nofun
  have hq : { q with pendingName := none } = q := by rw [← h.pendingName]
  exact hq ▸ h.persist_same hs hn

/-- Persisting a new name puts a new element in the place of the delegate. -/
theorem persist_rename (h : Poised o q d below (.element name attributes))
    (hs : name.space = q.tree.defaultNamespace) (hk : ∀ a ∈ attributes, PlainKey a.name.written)
    (hn : (attributes.map fun a => a.name.written).Nodup) (new : String) :
    ∃ d' q', ElementProxy.persist (Verdict.record q (.rename new)) = (.ok .proceed, q') ∧
      Poised o q' d' below (.renamed new name attributes) := by
  have hlive : q.liveName = Text.lowerCase name.written := ElementProxy.liveName_eq h.content_delegate
  rw [NodeData.renamed]
  split
  · rename_i he
    refine ⟨d, q, h.persist_same hs ?_, h⟩
    rintro _ ⟨⟩
    rw [he, hlive]
  · rename_i hne
    -- the new element takes its namespace and its attributes from the delegate, as nothing else is buffered
    let p : ElementProxy := Verdict.record q (.rename new)
    obtain ⟨u, hu, hv⟩ := h.visiting.renew h.kind q.namespaces name.space (Text.lowerCase new)
      (attributes.map fun a => (a.name.written, some a.value))
    obtain ⟨hret, hcont⟩ := h.retains.stored.renew hk hn hu
    have hspace : ElementProxy.spaceFor { p with pendingName := none } none = name.space := by
      simp [p, Verdict.record, ElementProxy.spaceFor, ElementProxy.pendingNamespace, h.overrides, hs]
    have hentries : ElementProxy.entries { p with pendingName := none } =
        attributes.map fun a => (a.name.written, some a.value) :=
      ElementProxy.entries_eq h.content_delegate h.overrides hn
    rw [← hspace, ← hentries, ← h.delegate] at hu
    have hreplace := ElementProxy.replaceBy_ok (p := { p with pendingName := none }) h.isMutable hu
    have hcontent := ElementProxy.persistContent_renamed (p := p) rfl (hlive ▸ hne) hreplace
    have hsettle : NodeProxy.settle p.toNodeProxy = (.ok none, q.toNodeProxy) := h.settle
    refine ⟨q.tree.size, _, (ElementProxy.persist_content (p := p) h.isMutable hsettle).trans hcontent, ?_⟩
    exact ⟨⟨hv, rfl, h.isMutable, h.element, .inr rfl⟩, h.retains.trans hret h.visiting.evolves.size, hcont, h.fate,
      rfl, rfl⟩

/-- Persisting a removal. -/
theorem persist_remove (h : Poised o q d below content) :
    ∃ q', ElementProxy.persist { q with fate := .remove } = (.ok .stop, q') ∧
      Visiting o q'.tree d below (.vacated .nil) ∧ Retains o.tree.size o.tree q'.tree := by
  obtain ⟨u, hu, hv⟩ := h.visiting.remove
  rw [← h.delegate] at hu
  have hsettle := NodeProxy.settle_remove (p := { q.toNodeProxy with fate := .remove }) rfl hu
  have hpersist := ElementProxy.persist_settled (p := { q with fate := .remove }) h.isMutable hsettle
  have hret := Retains.of_sameData q.tree.size h.retains.stored (sameData_of_detach hu)
  exact ⟨_, hpersist, hv, h.retains.trans hret h.visiting.evolves.size⟩

/-- Persisting an unwrapping, after which the visit goes on at the first child. -/
theorem persist_unwrap (h : Poised o q d below content) :
    ∃ q', ElementProxy.persist { q with fate := .unwrap } = (.ok (NodeProxy.afterUnwrap below.roots.head?), q') ∧
      Visiting o q'.tree d .nil (.vacated below) ∧ Retains o.tree.size o.tree q'.tree := by
  obtain ⟨u, hu, hv⟩ := h.visiting.unwrap
  have hfirst : q.tree.firstChild q.delegate = below.roots.head? := h.delegate.symm ▸ h.visiting.inner.firstChild
  rw [← h.delegate] at hu
  have hsettle := NodeProxy.settle_unwrap (p := { q.toNodeProxy with fate := .unwrap }) rfl hu
  have hpersist := ElementProxy.persist_settled (p := { q with fate := .unwrap }) h.isMutable hsettle
  have hret := Retains.of_sameData q.tree.size h.retains.stored (sameData_of_unwrap hu)
  exact ⟨_, hfirst ▸ hpersist, hv, h.retains.trans hret h.visiting.evolves.size⟩

end Poised

end RichText
