import RichText.Proofs.Proxy.Replace
import RichText.Proofs.Tree.Written

/-!
Committing what a proxy reads.

Reading merges the buffer with the live element by written names, and persisting writes it under keys. A renamed
element is a new one, which reads as the proxy did. An element that stays does so where each key of the buffer finds
the attribute that is written like it; the document element may also have gained declarations.
-/

namespace RichText

open RichText.Tree Effects
open Relation (ReflTransGen)

variable {p q : ElementProxy} {u : Tree} {d parent : Nat} {k : String}

namespace ElementProxy

/-! ### The two ways of persisting -/

/-- The buffered name is not that of the live element. -/
def Renames (p : ElementProxy) : Prop := ∃ name, p.pendingName = some name ∧ name ≠ p.liveName

/-- Persisting makes a new element. -/
def Renews (p : ElementProxy) : Prop := p.Renames ∨ p.needsNew

/-- An element in a list can be renewed under any name. -/
theorem exists_renewed (hl : p.tree.Linked) (hd : p.delegate = some d) (hparent : p.tree.parent (some d) = some parent)
    (name : String) :
    ∃ u, Edit.renew p.namespaces p.delegate (p.spaceFor none) name p.entries p.tree = (.ok p.tree.size, u) ∧
      u.Linked ∧ p.tree.Exchanges parent d p.tree.size u ∧
      ∀ x, u.kind? (some x) = if x = p.tree.size then some .element else p.tree.kind? (some x) := by
  obtain ⟨l, r, hcut⟩ := List.append_of_mem (hl.parent_iff.1 hparent)
  obtain ⟨u, hu, hul, huk, -, hkind⟩ := hl.renew hcut p.namespaces (p.spaceFor none) name p.entries
  exact ⟨u, hd ▸ hu, hul, hl.exchanges hul hcut huk, hkind⟩

theorem eq_liveName_of_not_renames (h : ¬ p.Renames) : ∀ name, p.pendingName = some name → name = p.liveName := by
  intro name hname
  by_contra hne
  exact h ⟨name, hname, hne⟩

/-- The content of an element that keeps its name and its namespace is written in place. -/
theorem persistContent_inPlace (hr : ¬ p.Renews)
    (hu : Edit.writeAttributes p.namespaces p.delegate p.overrides p.tree = (.ok (), u)) :
    persistContent p = (.ok .proceed, { p with tree := u, pendingName := none, overrides := [] }) := by
  have hn : ¬ ElementProxy.needsNew { p with pendingName := none } := fun h => hr (.inr h)
  exact persistContent_attributes (eq_liveName_of_not_renames fun h => hr (.inl h)) (persistAttributes_same hn hu)

/-- The content of any other element is that of a new one. -/
theorem persistContent_anew (hm : p.isMutable = true) (h : p.Renews) {new : Nat}
    (hu : Edit.renew p.namespaces p.delegate (p.spaceFor none) p.currentName p.entries p.tree = (.ok new, u)) :
    persistContent p = (.ok .proceed, { p with
      tree := u, delegate := some new, replacement := some new, pendingName := none, overrides := [] }) := by
  by_cases hr : p.Renames
  · obtain ⟨name, hname, hne⟩ := hr
    have hc : p.currentName = name := by rw [currentName, hname, Option.getD_some]
    exact persistContent_renamed hname hne (replaceBy_ok (p := { p with pendingName := none }) hm (hc ▸ hu))
  · have hsame := eq_liveName_of_not_renames hr
    have hn : ElementProxy.needsNew { p with pendingName := none } := h.resolve_left hr
    have hc : p.currentName = currentName { p with pendingName := none } := by
      unfold currentName
      cases hp : p.pendingName with
      | none => rfl
      | some name => exact hsame name hp
    have hb := replaceBy_ok (p := { p with pendingName := none }) hm (hc ▸ hu)
    exact persistContent_attributes hsame ((persistAttributes_new hn).trans hb)

/-- An element that keeps its name and its namespace is written to in place. -/
theorem persist_inPlace (hm : p.isMutable = true) (hf : p.fate = .keep) (hr : ¬ p.Renews)
    (hu : Edit.writeAttributes p.namespaces p.delegate p.overrides p.tree = (.ok (), u)) :
    persist p = (.ok .proceed, { p with tree := u, pendingName := none, overrides := [] }) := by
  rw [persist_content hm (NodeProxy.settle_keep hf)]
  exact persistContent_inPlace hr hu

/-- Any other element in a list is exchanged for a new one. -/
theorem persist_anew (hl : p.tree.Linked) (hm : p.isMutable = true) (hf : p.fate = .keep) (hd : p.delegate = some d)
    (hparent : p.tree.parent (some d) = some parent) (h : p.Renews) :
    ∃ name u, Edit.renew p.namespaces p.delegate (p.spaceFor none) name p.entries p.tree = (.ok p.tree.size, u) ∧
      p.tree.Exchanges parent d p.tree.size u ∧
      (∀ x, u.kind? (some x) = if x = p.tree.size then some .element else p.tree.kind? (some x)) ∧
      persist p = (.ok .proceed, { p with
        tree := u, delegate := some p.tree.size, replacement := some p.tree.size, pendingName := none
        overrides := [] }) := by
  obtain ⟨u, hu, -, hex, hkind⟩ := exists_renewed hl hd hparent p.currentName
  rw [persist_content hm (NodeProxy.settle_keep hf)]
  exact ⟨_, u, hu, hex, hkind, persistContent_anew hm h hu⟩

/-! ### What is read afterwards -/

theorem attribute?_of_not_mem (h : k ∉ p.overrides.map Prod.fst) :
    p.attribute? k = p.tree.attribute? p.delegate k := by
  have hl : p.overrides.lookup k = none := by
    rw [List.lookup_eq_none_iff]
    intro e he
    simp only [bne_iff_ne, ne_eq]
    rintro rfl
    exact h (List.mem_map_of_mem he)
  rw [attribute?, hl]

theorem Tidy.attribute?_of_mem (h : p.Tidy) {e : String × Option String} (he : e ∈ p.overrides) :
    e.2 = p.attribute? e.1 := by
  rw [attribute?, (Keyed.lookup_eq_some_iff h).2 he]

/-- A renewed element reads as the proxy did, whatever it held before. -/
theorem attribute?_renewed (hl : p.tree.Linked) (hs : p.tree.Indexed) (hns : p.namespaces.Separates) {space name : String}
    (hu : Edit.renew p.namespaces p.delegate space name p.entries p.tree = (.ok p.tree.size, u)) (hk : k ≠ "xmlns") :
    u.attribute? (some p.tree.size) k = p.attribute? k := by
  rw [Tree.attribute?_eq, (hs.renew hl hu).1]
  refine (NamespaceTable.Identifies.nil p.namespaces p.attributeNames).lookup_settle hns ?_ (by simp) ?_ hk (by simp) ?_
  · intro e he
    obtain ⟨key, hkey, rfl⟩ := List.mem_map.1 he
    exact hkey
  · intro e he
    obtain ⟨key, -, rfl⟩ := List.mem_map.1 he
    rfl
  · intro hnot
    -- what is not named is not read
    have hnone : p.attribute? k = none := by
      by_contra hsome
      refine hnot (List.mem_map.2 ⟨(k, p.attribute? k), List.mem_map.2 ⟨k, ?_, rfl⟩, rfl⟩)
      exact mem_attributeNames_of_isSome (Option.isSome_iff_ne_none.2 hsome)
    simp [Attribute.entries, hnone]

/-- Each key of the buffer finds the attribute of the live element that is written like it and no other, and so it does
among the declarations that writing the buffer adds to the document element. -/
structure Unambiguous (p : ElementProxy) : Prop where
  live : p.namespaces.Identifies (p.overrides.map Prod.fst) (p.tree.attributes p.delegate)
  declared : p.tree.documentElement = p.delegate → ∀ nsPrefix ∈ p.namespaces.published p.overrides,
    ∀ key ∈ p.overrides.map Prod.fst,
      p.namespaces.finds key ⟨Uri.xmlns, "xmlns", nsPrefix⟩ = ("xmlns:" ++ nsPrefix == key)

/-- Writing the buffer to the document element declares the prefix of an attribute, under a name that the proxy does not
read. -/
def Declares (p : ElementProxy) (k : String) : Prop :=
  p.tree.documentElement = p.delegate ∧ p.attribute? k = none ∧
    ∃ nsPrefix ∈ p.namespaces.published p.overrides, k = "xmlns:" ++ nsPrefix

/-- An element that is written to in place reads as the proxy did, but for the declarations that it gained. -/
theorem attribute?_written (hs : p.tree.Indexed) (hns : p.namespaces.Separates) (ht : p.Tidy) (ha : p.Unambiguous)
    (hd : p.delegate = some d) (hkind : p.tree.kind? (some d) = some .element) :
    ∃ u, Edit.writeAttributes p.namespaces p.delegate p.overrides p.tree = (.ok (), u) ∧
      ∀ k, k ≠ "xmlns" → ¬ p.Declares k → u.attribute? p.delegate k = p.attribute? k := by
  obtain ⟨u, hu, haltered⟩ := hs.writeAttributes p.namespaces hkind p.overrides
  refine ⟨u, hd ▸ hu, fun k hk hnot => ?_⟩
  have hlive := ha.live
  have hdeclared := ha.declared
  rw [hd] at hlive hdeclared
  rw [hd, Tree.attribute?_eq, haltered.attributes, decide_eq_true rfl]
  refine hlive.lookup_settle hns (fun e he => List.mem_map_of_mem he) ?_ (fun e he => ht.attribute?_of_mem he) hk ?_ ?_
  · intro hroot
    exact hdeclared (of_decide_eq_true hroot)
  · intro hroot hnone nsPrefix hp he
    exact hnot ⟨hd ▸ of_decide_eq_true hroot, hnone, nsPrefix, hp, he⟩
  · intro hfree
    rw [← Tree.attribute?_eq, ← hd, attribute?_of_not_mem hfree]

/-- Persisting a proxy of an element in the default namespace commits what the proxy reads. After any writes to its
buffer the element that is its delegate from then on has, under every key other than `xmlns`, the value that the proxy
read. An element that is not renamed needs an unambiguous buffer, and the document element may have declarations that
the proxy did not read. -/
theorem persist_commits (hl : p.tree.Linked) (hs : p.tree.Indexed) (hns : p.namespaces.Separates)
    (hm : p.isMutable = true) (hf : p.fate = .keep) (hd : p.delegate = some d)
    (hkind : p.tree.kind? (some d) = some .element) (hparent : p.tree.parent (some d) = some parent)
    (hhome : p.tree.namespace? (some d) = some p.tree.defaultNamespace) (ht : p.Tidy)
    (hx : "xmlns" ∉ p.overrides.map Prod.fst) (hw : ReflTransGen Write p q) (ha : ¬ q.Renames → q.Unambiguous) :
    ∃ q', persist q = (.ok .proceed, q') ∧ ∀ k, k ≠ "xmlns" → (q.Renames ∨ ¬ q.Declares k) →
      q'.tree.attribute? q'.delegate k = q.attribute? k := by
  have hb : Buffering p q := Buffering.writes ⟨rfl, rfl, ht, hx⟩ hw
  have htree : q.tree = p.tree := congrArg NodeProxy.tree hb.node
  have hdelegate : q.delegate = some d := (congrArg NodeProxy.delegate hb.node).trans hd
  have hmutable : q.isMutable = true := (congrArg NodeProxy.isMutable hb.node).trans hm
  have hfate : q.fate = .keep := (congrArg NodeProxy.fate hb.node).trans hf
  rw [← hb.namespaces] at hns
  rw [← htree] at hl hs hkind hparent hhome
  by_cases hr : q.Renames
  · obtain ⟨name, u, hu, -, -, hp⟩ := persist_anew hl hmutable hfate hdelegate hparent (.inl hr)
    exact ⟨_, hp, fun k hk _ => attribute?_renewed hl hs hns hu hk⟩
  · have hsame : ¬ q.needsNew := by
      have hnone : q.overrides.lookup "xmlns" = none := by
        rw [List.lookup_eq_none_iff]
        intro e he
        simp only [bne_iff_ne, ne_eq]
        intro hxe
        exact hb.xmlns (hxe ▸ List.mem_map_of_mem he)
      simp [needsNew, hdelegate, hhome, pendingNamespace, hnone]
    obtain ⟨u, hu, hread⟩ := attribute?_written hs hns hb.tidy (ha hr) hdelegate hkind
    have hstays : ¬ q.Renews := fun h => h.elim hr hsame
    refine ⟨_, persist_inPlace hmutable hfate hstays hu, fun k hk hnot => ?_⟩
    exact hread k hk (hnot.resolve_left hr)

theorem indexed_classified : classified.Indexed := ⟨stored_classified, by unfold SymbolTable.Distinct; decide⟩

theorem writes_classless : ReflTransGen Write (ofNode classified (some 2) .standard) classless :=
  .tail (.single (.set _ "i" (by decide))) (.delete _ (by decide))

theorem persist_classless :
    ∃ q', persist classless = (.ok .proceed, q') ∧ ∀ k, k ≠ "xmlns" → (classless.Renames ∨ ¬ classless.Declares k) →
      q'.tree.attribute? q'.delegate k = classless.attribute? k := by
  refine persist_commits linked_classified indexed_classified standard_separates rfl rfl rfl rfl rfl rfl
    (by unfold Tidy; decide) (by decide) writes_classless fun _ => ⟨⟨by decide, by decide⟩, ?_⟩
  intro hroot
  exact absurd hroot (by decide)

/-- A proxy of the document element in which a link was set. -/
def linkedRoot : ElementProxy := (setAttribute "xlink:href" "v" (ofNode classified (some 1) .standard)).2

/-- The document element gains a declaration that its proxy did not read. -/
theorem persist_linkedRoot :
    classified.Linked ∧ classified.Indexed ∧ NamespaceTable.standard.Separates ∧
      classified.kind? (some 1) = some .element ∧ classified.parent (some 1) = some 0 ∧
      classified.namespace? (some 1) = some classified.defaultNamespace ∧
      ReflTransGen Write (ofNode classified (some 1) .standard) linkedRoot ∧ linkedRoot.isMutable = true ∧
      linkedRoot.fate = .keep ∧ (persist linkedRoot).1 = .ok .proceed ∧ "xmlns:xlink" ≠ "xmlns" ∧
      linkedRoot.attribute? "xmlns:xlink" = none ∧
      (persist linkedRoot).2.tree.attribute? (persist linkedRoot).2.delegate "xmlns:xlink" = some Uri.xlink := by
  refine ⟨linked_classified, indexed_classified, standard_separates, rfl, rfl, rfl,
    .single (.set _ "v" (by decide)), ?_⟩
  decide +kernel

end ElementProxy

end RichText
