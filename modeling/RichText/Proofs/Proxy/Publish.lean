import RichText.Proofs.Proxy.Commit

/-!
Declaring the prefixes that are used.

An attribute that is written under a bound prefix has the prefix declared on the document element of that moment. The
declaration is still there after the proxy was persisted if the element that is written to is another one, and on the
document element itself if nothing that is written later takes it away. A document element that is renewed takes over
the declarations that its proxy reads, and no others.
-/

namespace RichText

open RichText.Tree Effects

variable {p : ElementProxy} {d parent : Nat} {key value nsPrefix uri localPart : String}

namespace ElementProxy

theorem mem_overrides (h : p.overrides.lookup key = some (some value)) : (key, some value) ∈ p.overrides := by
  obtain ⟨l, r, he, -⟩ := List.lookup_eq_some_iff.1 h
  rw [he]
  exact List.mem_append_right _ List.mem_cons_self

/-- A value in the buffer is among the attributes that a new element takes over. -/
theorem mem_entries (h : p.overrides.lookup key = some (some value)) : (key, some value) ∈ p.entries := by
  have hread : p.attribute? key = some value := by rw [attribute?, h]
  refine List.mem_map.2 ⟨key, mem_attributeNames_of_isSome ?_, by rw [hread]⟩
  rw [hread]
  rfl

end ElementProxy

/-- An attribute that is read under the written name of a declaration declares the prefix. -/
theorem NamespaceTable.declared_of_isSome {t : Tree} {r : Ref}
    (h : (t.attribute? r ("xmlns:" ++ nsPrefix)).isSome = true) : Declared nsPrefix (t.attributes r) := by
  obtain ⟨a, ha, hw⟩ := List.mem_map.1 (Tree.mem_attributeNames.2 h)
  refine ⟨a, ha, ?_⟩
  simp [declares, hw]

namespace ElementProxy

/-- What keeps a declaration on the document element while its own proxy is persisted. Written to in place it must not
lose the declaration by what is buffered after the attribute that needs it; renewed it has to read the declaration
beforehand. -/
def Secures (p : ElementProxy) (nsPrefix key value : String) : Prop :=
  (¬ p.Renews ∧ ∃ before after, p.overrides = before ++ (key, some value) :: after ∧
      ∀ e ∈ after, p.namespaces.Spares nsPrefix
        (p.namespaces.Occurs p.overrides (p.tree.attributes p.delegate)) e) ∨
    (p.Renews ∧ p.namespaces.Separates ∧ (p.attribute? ("xmlns:" ++ nsPrefix)).isSome = true)

/-- After an attribute with a bound prefix was persisted the document element declares the prefix: always if the
attribute is one of another element, and also if it is one of the document element where the declaration is secured. -/
theorem persist_declares {root : Nat} (hl : p.tree.Linked) (hs : p.tree.Indexed)
    (hdocument : p.tree.kind? Tree.root = some .document) (hroot : p.tree.documentElement = some root)
    (hm : p.isMutable = true) (hf : p.fate = .keep) (hd : p.delegate = some d)
    (hkind : p.tree.kind? (some d) = some .element) (hparent : p.tree.parent (some d) = some parent)
    (hset : p.overrides.lookup key = some (some value))
    (hbound : p.namespaces.resolve? key = some (nsPrefix, uri, localPart)) (hxml : nsPrefix ≠ "xml")
    (hxmlns : nsPrefix ≠ "xmlns") (hself : root = d → p.Secures nsPrefix key value) :
    ∃ q root', persist p = (.ok .proceed, q) ∧ q.tree.documentElement = some root' ∧
      NamespaceTable.Declared nsPrefix (q.tree.attributes (some root')) := by
  have hpublished : p.namespaces.published? key (some value) = some (nsPrefix, uri) := by
    rw [NamespaceTable.published?_bound hbound, if_neg (by simp [hxml, hxmlns])]
  by_cases hr : p.Renews
  · obtain ⟨name, u, hu, hex, hkinds, hp⟩ := persist_anew hl hm hf hd hparent hr
    have hdoc : u.documentElement = some (exchange d p.tree.size root) := by
      rw [hex.documentElement hl hkinds hdocument hkind, hroot, Option.map_some]
    refine ⟨_, _, hp, hdoc, ?_⟩
    by_cases hrd : root = d
    · obtain ⟨hnot, -⟩ | ⟨-, hns, hread⟩ := hself hrd
      · exact absurd hr hnot
      · rw [hrd, exchange_self]
        refine NamespaceTable.declared_of_isSome ?_
        have hne : "xmlns:" ++ nsPrefix ≠ "xmlns" := by
          intro he
          simpa using congrArg String.toList he
        rwa [attribute?_renewed hl hs hns hu hne]
    · rw [exchange_of_ne hrd, (hs.renew hl hu).2 root (lt_of_documentElement hroot), hroot, decide_eq_true rfl]
      obtain ⟨before, after, hcut⟩ := List.append_of_mem (mem_entries hset)
      rw [hcut]
      exact NamespaceTable.declared_elsewhere hpublished _
  · obtain ⟨u, hu, ha⟩ := hs.writeAttributes p.namespaces hkind p.overrides
    have hp := persist_inPlace hm hf hr (hd ▸ hu)
    refine ⟨_, root, hp, ha.shape.documentElement.trans hroot, ?_⟩
    show NamespaceTable.Declared nsPrefix (u.attributes (some root))
    rw [ha.attributes, hroot, decide_eq_true rfl]
    by_cases hrd : root = d
    · obtain ⟨-, before, after, hcut, hspares⟩ | ⟨hyes, -⟩ := hself hrd
      · rw [decide_eq_true hrd]
        rw [hcut, hd, ← hrd] at hspares
        rw [hcut]
        exact NamespaceTable.declared_there hpublished hspares
      · exact absurd hyes hr
    · rw [decide_eq_false hrd]
      obtain ⟨before, after, hcut⟩ := List.append_of_mem (mem_overrides hset)
      rw [hcut]
      exact NamespaceTable.declared_elsewhere hpublished _

theorem linkedRoot_declares :
    ∃ q root', persist linkedRoot = (.ok .proceed, q) ∧ q.tree.documentElement = some root' ∧
      NamespaceTable.Declared "xlink" (q.tree.attributes (some root')) := by
  have hplace : ¬ linkedRoot.Renews := by
    rintro (⟨name, hname, -⟩ | hneeds)
    · exact nomatch hname
    · exact absurd hneeds (by unfold needsNew; decide)
  have hset : linkedRoot.overrides.lookup "xlink:href" = some (some "v") := rfl
  have hbound : linkedRoot.namespaces.resolve? "xlink:href" = some ("xlink", Uri.xlink, "href") := by decide
  have hroot : linkedRoot.tree.documentElement = some 1 := rfl
  have hd : linkedRoot.delegate = some 1 := rfl
  have hsecure : linkedRoot.Secures "xlink" "xlink:href" "v" := .inl ⟨hplace, [], [], rfl, by simp⟩
  exact persist_declares linked_classified indexed_classified rfl hroot rfl rfl hd rfl rfl hset hbound (by decide)
    (by decide) fun _ => hsecure

/-- A proxy of the document element in which a link was set and the name changed. -/
def renamedRoot : ElementProxy := (setName "section" linkedRoot).2

/-- The declaration goes to the document element that is given up for the renamed one. -/
theorem renamedRoot_loses :
    classified.Linked ∧ classified.Indexed ∧ classified.kind? Tree.root = some .document ∧
      classified.documentElement = some 1 ∧ renamedRoot.tree = classified ∧ renamedRoot.delegate = some 1 ∧
      renamedRoot.isMutable = true ∧ renamedRoot.fate = .keep ∧
      renamedRoot.overrides.lookup "xlink:href" = some (some "v") ∧
      renamedRoot.namespaces.resolve? "xlink:href" = some ("xlink", Uri.xlink, "href") ∧
      (persist renamedRoot).1 = .ok .proceed ∧ (persist renamedRoot).2.tree.documentElement = some 4 ∧
      ((persist renamedRoot).2.tree.attributes (some 1)).map (·.name.written) = ["xmlns:xlink"] ∧
      ¬ NamespaceTable.Declared "xlink" ((persist renamedRoot).2.tree.attributes (some 4)) := by
  refine ⟨linked_classified, indexed_classified, rfl, rfl, rfl, rfl, rfl, rfl, rfl, by decide, ?_⟩
  unfold NamespaceTable.Declared
  decide +kernel

end ElementProxy

end RichText
