import RichText.Proofs.Tree.Recalled

/-!
Attributes that are written under a table of namespaces.

A key is stored in the namespace that its prefix is bound to, or else as it is written, and either way it is read as it
was. Under a table that separates its prefixes two keys are never stored as one attribute, so that a new element takes
over the attributes of an old one in their order. On the way nothing but the document element gains attributes, those
that declare prefixes.
-/

namespace RichText

open RichText.Tree Effects

variable {namespaces : NamespaceTable} {a b : Attribute String} {key nsPrefix uri localPart : String}

/-! ### Resolved attributes -/

/-- Different prefixes have different namespaces, and no prefix has the empty one. -/
structure NamespaceTable.Separates (namespaces : NamespaceTable) : Prop where
  distinct : (namespaces.entries.map Prod.snd).Nodup
  proper : "" ∉ namespaces.entries.map Prod.snd

/-- The attribute with the same written name and value that is in the namespace of its prefix, if that is bound. -/
def Attribute.resolved (namespaces : NamespaceTable) (a : Attribute String) : Attribute String :=
  match namespaces.resolve? a.name.written with
  | some (_, uri, _) => ⟨.ofWritten uri a.name.written, a.value⟩
  | none => a.plain

@[simp] theorem Attribute.written_resolved (namespaces : NamespaceTable) (a : Attribute String) :
    (a.resolved namespaces).name.written = a.name.written := by
  rw [resolved]
  split
  · exact written_ofWritten _ _
  · exact a.written_plain

@[simp] theorem Attribute.plain_resolved (namespaces : NamespaceTable) (a : Attribute String) :
    (a.resolved namespaces).plain = a.plain := by
  rw [plain, written_resolved, resolved]
  split <;> rfl

namespace NamespaceTable

theorem mem_of_uri? (h : namespaces.uri? nsPrefix = some uri) : (nsPrefix, uri) ∈ namespaces.entries := by
  obtain ⟨l, r, he, -⟩ := List.lookup_eq_some_iff.1 h
  rw [he]
  exact List.mem_append_right _ List.mem_cons_self

theorem Separates.ne (h : namespaces.Separates) (hu : namespaces.uri? nsPrefix = some uri) : uri ≠ "" := by
  rintro rfl
  exact h.proper (List.mem_map.2 ⟨_, mem_of_uri? hu, rfl⟩)

theorem Separates.prefix_eq (h : namespaces.Separates) {other : String} (hu : namespaces.uri? nsPrefix = some uri)
    (ho : namespaces.uri? other = some uri) : nsPrefix = other :=
  congrArg Prod.fst (List.inj_on_of_nodup_map h.distinct (mem_of_uri? hu) (mem_of_uri? ho) rfl)

end NamespaceTable

/-- Attributes under different keys are not in the same namespace with the same local part. -/
theorem Attribute.resolved_apart (h : namespaces.Separates) (hne : a.name.written ≠ key)
    (hk : namespaces.resolve? key = some (nsPrefix, uri, localPart)) :
    ¬ ((a.resolved namespaces).name.space = uri ∧ (a.resolved namespaces).name.localPart = localPart) := by
  rintro ⟨hspace, hlocal⟩
  obtain ⟨hu, -, hb⟩ := NamespaceTable.resolve?_eq_some hk
  rw [resolved] at hspace hlocal
  split at hspace
  · rename_i p uri' l hr
    obtain ⟨hu', -, ha⟩ := NamespaceTable.resolve?_eq_some hr
    simp only [hr, ha] at hspace hlocal
    obtain rfl : uri' = uri := hspace
    obtain rfl : l = localPart := hlocal
    -- the namespace gives the prefix away, and so the whole key
    obtain rfl := h.prefix_eq hu' hu
    refine hne ?_
    rw [← written_ofWritten uri' a.name.written, ha, ← hb, written_ofWritten]
  · exact h.ne hu hspace.symm

namespace Tree

variable {t u v : Tree} {r : Ref} {d x : Nat} {name : Name} {attributes : List (Attribute String)}

/-! ### Writing an attribute in a namespace -/

theorem mem_replaceOrPush {α : Type} {p : α → Bool} {f : α → α} {new b : α} {l : List α}
    (h : b ∈ replaceOrPush p f new l) : b = new ∨ ∃ a ∈ l, b = a ∨ b = f a := by
  induction l with
  | nil => exact .inl (List.mem_singleton.1 h)
  | cons a l ih =>
    rw [replaceOrPush] at h
    split at h
    · rcases List.mem_cons.1 h with rfl | h
      · exact .inr ⟨a, List.mem_cons_self, .inr rfl⟩
      · exact .inr ⟨b, List.mem_cons_of_mem _ h, .inl rfl⟩
    · rcases List.mem_cons.1 h with rfl | h
      · exact .inr ⟨b, List.mem_cons_self, .inl rfl⟩
      · obtain rfl | ⟨a', ha, he⟩ := ih h
        · exact .inl rfl
        · exact .inr ⟨a', List.mem_cons_of_mem _ ha, he⟩

/-- Other attributes are read from an element alone. -/
theorem elementAttributes_cases (r : Ref) (t : Tree) :
    (∃ e, Edit.elementAttributes r t = (.error e, t)) ∨
      ∃ d name old, r = some d ∧ t.data? (some d) = some (.element name old) ∧
        Edit.elementAttributes r t = (.ok old, t) := by
  rw [Edit.elementAttributes, bind_ok (run_get t)]
  cases hd : t.data? r with
  | none => exact .inl ⟨_, rfl⟩
  | some data =>
    cases data with
    | element name old =>
      cases r with
      | none => cases hd
      | some d => exact .inr ⟨d, name, old, rfl, hd, rfl⟩
    | _ => exact .inl ⟨_, rfl⟩

/-- An attribute that is written in a namespace has a stored name, and no other node changes. -/
theorem Stored.setAttributeNS (h : t.Stored) (r : Ref) (space written value : String) :
    (Edit.setAttributeNS r space written value t).2.Stored ∧ ∀ {x}, r ≠ some x →
      (Edit.setAttributeNS r space written value t).2.content? (some x) = t.content? (some x) := by
  obtain ⟨hx, hp, -⟩ := t.symbols.internName_spec (.ofWritten space written)
  let key := (t.symbols.internName (.ofWritten space written)).1
  let w : Tree := { t with symbols := (t.symbols.internName (.ofWritten space written)).2 }
  have hw : w.Stored := h.symbols hx
  have hcontent : ∀ r, w.content? r = t.content? r := h.content_symbols hx
  rw [Edit.setAttributeNS, Edit.internName, bind_ok (run_modifyGet _ t)]
  rcases elementAttributes_cases r w with ⟨e, he⟩ | ⟨d, name, old, rfl, hd, he⟩
  · rw [bind_error he]
    exact ⟨hw, fun _ => hcontent _⟩
  · rw [bind_ok he]
    -- the attributes are old ones, but one that is new or takes the new prefix
    refine ⟨(hw.putAttributes hd fun a ha s hs => ?_).1.stored, fun {x} hne => ?_⟩
    · rcases mem_replaceOrPush ha with rfl | ⟨b, hb, rfl | rfl⟩
      · exact hp s hs
      · exact hw.attribute_lt hd hb hs
      · simp only [QualifiedName.parts, List.mem_cons, List.not_mem_nil, or_false] at hs
        rcases hs with rfl | rfl | rfl
        · exact hw.attribute_lt hd hb (by simp [QualifiedName.parts])
        · exact hp _ (by simp [QualifiedName.parts])
        · exact hw.attribute_lt hd hb (by simp [QualifiedName.parts])
    · have hxd : x ≠ d := fun he => hne (congrArg some he.symm)
      rw [← hcontent, content?, content?, run_modify, data?_putAttributes_of_ne hxd, symbols_putAttributes]

/-- Declaring a prefix is writing an attribute of the document element, at most. -/
theorem Stored.declarePrefix (h : t.Stored) (nsPrefix uri : String) :
    (Edit.declarePrefix nsPrefix uri t).2.Stored ∧ ∀ {x}, t.documentElement ≠ some x →
      (Edit.declarePrefix nsPrefix uri t).2.content? (some x) = t.content? (some x) := by
  unfold Edit.declarePrefix
  split
  · exact ⟨h, fun _ => rfl⟩
  · rw [bind_ok (run_get t)]
    cases hd : t.documentElement with
    | none => exact ⟨h, fun _ => rfl⟩
    | some d =>
      dsimp only
      split
      · exact ⟨h, fun _ => rfl⟩
      · exact h.setAttributeNS (some d) _ _ _

/-- An attribute whose namespace and local part are new to the element comes after the others. -/
theorem Stored.append_attributeNS (h : t.Stored) (hd : t.content? (some d) = some (.element name attributes))
    {space written : String} (hn : ∀ a ∈ attributes, ¬ (a.name.space = space ∧
      a.name.localPart = (QualifiedName.ofWritten space written).localPart)) (value : String) :
    ∃ u, Edit.setAttributeNS (some d) space written value t = (.ok (), u) ∧
      u.content? (some d) = some (.element name (attributes ++ [⟨.ofWritten space written, value⟩])) := by
  obtain ⟨data, hdata, hc⟩ := Option.map_eq_some_iff.1 hd
  obtain ⟨hx, hp, hr⟩ := t.symbols.internName_spec (.ofWritten space written)
  rcases hi : t.symbols.internName (.ofWritten space written) with ⟨key, symbols⟩
  rw [hi] at hx hp hr
  cases data with
  | element name' old =>
    obtain ⟨rfl, rfl⟩ := NodeData.element.inj hc
    obtain ⟨hname, hattributes⟩ := NodeData.element.inj (h.map_resolve hx hdata)
    let w : Tree := { t with symbols }
    have hw : w.Stored := h.symbols hx
    have hdata' : w.data? (some d) = some (.element name' old) := hdata
    -- equal symbols would stand for equal strings
    have hnot : ∀ a ∈ old, hasKey key.space key.localPart a = false := by
      intro a ha
      by_contra hk
      rw [Bool.not_eq_false, hasKey, Bool.and_eq_true, beq_iff_eq, beq_iff_eq] at hk
      have hkey : ∀ s ∈ a.name.parts, symbols.resolve s = t.symbols.resolve s := fun s hs =>
        hx.resolve (h.attribute_lt hdata ha hs)
      refine hn _ (List.mem_map_of_mem ha) ⟨?_, ?_⟩
      · have hs : symbols.resolve key.space = space := congrArg QualifiedName.space hr
        rw [← hs, ← hk.1]
        exact (hkey _ (by simp [QualifiedName.parts])).symm
      · have hl : symbols.resolve key.localPart = (QualifiedName.ofWritten space written).localPart :=
          congrArg QualifiedName.localPart hr
        rw [← hl, ← hk.2]
        exact (hkey _ (by simp [QualifiedName.parts])).symm
    have hparts : ∀ a ∈ old ++ [⟨key, value⟩], ∀ s ∈ a.name.parts, s < symbols.size := by
      intro a ha s hsp
      rcases List.mem_append.1 ha with ha | ha
      · exact (h.attribute_lt hdata ha hsp).trans_le hx.size_le
      · obtain rfl := List.mem_singleton.1 ha
        exact hp s hsp
    refine ⟨_, Edit.setAttributeNS_new hdata hi hnot value, ?_⟩
    have hlast : key.map symbols.resolve = .ofWritten space written := hr
    rw [(hw.putAttributes hdata' hparts).2, NodeData.map, hname, List.map_append, hattributes, List.map_singleton,
      hlast]
  | _ => cases hc

/-! ### Writing the attributes of a new element -/

/-- From `t` to `u` names and kinds stay, and all nodes but the document element of `t` keep their contents. -/
structure Spares (t u : Tree) : Prop extends Recalls t u where
  stored : u.Stored
  content : ∀ {x}, x < t.size → t.documentElement ≠ some x → u.content? (some x) = t.content? (some x)

/-- Since `t` the element `d` was added, and what was written to it so far are these attributes. -/
structure Writing (t : Tree) (d : Nat) (name : Name) (attributes : List (Attribute String)) (u : Tree) : Prop where
  linked : u.Linked
  spares : t.Spares u
  documentElement : u.documentElement = t.documentElement
  fresh : t.size ≤ d
  content : u.content? (some d) = some (.element name attributes)

namespace Spares

theorem refl (h : t.Stored) : t.Spares t := ⟨.refl h.named, h, fun _ _ => rfl⟩

theorem trans (h : t.Spares u) (h' : u.Spares v) (hd : u.documentElement = t.documentElement) : t.Spares v :=
  ⟨h.toRecalls.trans h'.toRecalls, h'.stored, fun hx hn =>
    (h'.content (hx.trans_le h.size) (hd ▸ hn)).trans (h.content hx hn)⟩

theorem moves (h : t.Spares u) (hs : u.SameData v) : t.Spares v := by
  have hr := Retains.of_sameData u.size h.stored hs
  exact ⟨(lasting_recalls t).moves hs h.toRecalls, hr.stored, fun hx hn =>
    (hr.content (hx.trans_le h.size)).trans (h.content hx hn)⟩

end Spares

namespace Writing

variable {attributes' : List (Attribute String)}

theorem begin (hl : t.Linked) (hs : t.Stored) (space written : String) :
    t.Writing t.size (.ofWritten space written) [] (t.createElement space written).2 := by
  obtain ⟨u, hu, hul, huk, -, hkind⟩ := hl.createElement space written
  obtain ⟨hr, hc⟩ := hs.createElement space written
  have hrecalls := (hs.named.createElement space written).1
  rw [hu] at hr hc hrecalls ⊢
  refine ⟨hul, ⟨hrecalls, hr.stored, fun hx _ => hr.content hx⟩, ?_, Nat.le_refl _, hc⟩
  exact documentElement_congr (congrFun huk 0) fun x hx => by rw [hkind, if_neg (hl.child_lt hx).ne]

/-- An edit of data that gives the new element these attributes, and otherwise changes the document element at most. -/
theorem edit (h : t.Writing d name attributes u) (hs : u.SameShape v) (hr : t.Recalls v) (hv : v.Stored)
    (hc : ∀ {x}, x < t.size → t.documentElement ≠ some x → v.content? (some x) = u.content? (some x))
    (hd : v.content? (some d) = some (.element name attributes')) : t.Writing d name attributes' v := by
  obtain ⟨hvl, hvk⟩ := h.linked.of_sameLinks hs.toSameLinks
  have hdoc : v.documentElement = u.documentElement := documentElement_congr (congrFun hvk 0) fun _ _ => hs.kind _
  have hspares : t.Spares v := ⟨hr, hv, fun hx hn => (hc hx hn).trans (h.spares.content hx hn)⟩
  exact ⟨hvl, hspares, hdoc.trans h.documentElement, h.fresh, hd⟩

theorem kind (h : t.Writing d name attributes u) : u.kind? (some d) = some .element := kind_eq_of_content h.content

theorem setAttribute (h : t.Writing d name attributes u) {written : String}
    (hn : ∀ a ∈ attributes, a.name.written ≠ written) (value : String) :
    ∃ v, Edit.setAttribute (some d) written value u = (.ok (), v) ∧
      t.Writing d name (attributes ++ [⟨⟨"", "", written⟩, value⟩]) v := by
  obtain ⟨v, hv, hr, hc⟩ := h.spares.stored.setAttribute h.content hn value
  obtain ⟨⟨⟩, v', hv', hs⟩ := Writes.setAttribute h.kind written value
  obtain rfl : v = v' := congrArg Prod.snd (hv.symm.trans hv')
  have hrecalls := ((lasting_recalls t).at (some d)).setAttribute written value u h.spares.toRecalls
  rw [hv] at hrecalls
  exact ⟨v, hv, h.edit hs hrecalls hr.stored (fun hx _ => hr.content (hx.trans_le h.fresh)) hc⟩

theorem setAttributeNS (h : t.Writing d name attributes u) {space written : String}
    (hn : ∀ a ∈ attributes, ¬ (a.name.space = space ∧
      a.name.localPart = (QualifiedName.ofWritten space written).localPart)) (value : String) :
    ∃ v, Edit.setAttributeNS (some d) space written value u = (.ok (), v) ∧
      t.Writing d name (attributes ++ [⟨.ofWritten space written, value⟩]) v := by
  obtain ⟨v, hv, hc⟩ := h.spares.stored.append_attributeNS h.content hn value
  obtain ⟨hstored, hothers⟩ := h.spares.stored.setAttributeNS (some d) space written value
  obtain ⟨⟨⟩, v', hv', hs⟩ := Writes.setAttributeNS h.kind space written value
  obtain rfl : v = v' := congrArg Prod.snd (hv.symm.trans hv')
  have hrecalls := ((lasting_recalls t).at (some d)).setAttributeNS space written value u h.spares.toRecalls
  rw [hv] at hrecalls hstored hothers
  refine ⟨v, hv, h.edit hs hrecalls hstored (fun {x} hx _ => hothers fun he => ?_) hc⟩
  exact (hx.trans_le h.fresh).ne (Option.some.inj he).symm

theorem declarePrefix (h : t.Writing d name attributes u) (nsPrefix uri : String) :
    ∃ v, Edit.declarePrefix nsPrefix uri u = (.ok (), v) ∧ t.Writing d name attributes v := by
  obtain ⟨hstored, hothers⟩ := h.spares.stored.declarePrefix nsPrefix uri
  obtain ⟨⟨⟩, v, hv, hs⟩ := Writes.declarePrefix nsPrefix uri u
  have hrecalls := preserves_declarePrefix (lasting_recalls t).assignable nsPrefix uri u h.spares.toRecalls
  rw [hv] at hrecalls hstored hothers
  rw [h.documentElement] at hothers
  -- the new element is not the document element, which was there before
  have hd : t.documentElement ≠ some d := fun he =>
    (lt_of_documentElement he).not_ge h.fresh
  exact ⟨v, hv, h.edit hs hrecalls hstored (fun _ hn => hothers hn) ((hothers hd).trans h.content)⟩

/-- One more attribute, under a new key. -/
theorem write {done : List (Attribute String)} (h : t.Writing d name (done.map (Attribute.resolved namespaces)) u)
    (hns : namespaces.Separates) (hk : a.name.written ≠ "xmlns")
    (hn : ∀ b ∈ done, b.name.written ≠ a.name.written) :
    ∃ v, Edit.writeAttribute namespaces (some d) a.name.written (some a.value) u = (.ok (), v) ∧
      t.Writing d name ((done ++ [a]).map (Attribute.resolved namespaces)) v := by
  have hmap : (done ++ [a]).map (Attribute.resolved namespaces) =
      done.map (Attribute.resolved namespaces) ++ [a.resolved namespaces] := by simp
  unfold Edit.writeAttribute
  rw [if_neg hk, hmap, Attribute.resolved]
  cases hr : namespaces.resolve? a.name.written with
  | none =>
    refine h.setAttribute (List.forall_mem_map.2 fun b hb => ?_) a.value
    rw [Attribute.written_resolved]
    exact hn b hb
  | some key =>
    obtain ⟨nsPrefix, uri, localPart⟩ := key
    obtain ⟨-, -, hsplit⟩ := NamespaceTable.resolve?_eq_some hr
    have hnot : ∀ b ∈ done.map (Attribute.resolved namespaces), ¬ (b.name.space = uri ∧
        b.name.localPart = (QualifiedName.ofWritten uri a.name.written).localPart) :=
      List.forall_mem_map.2 fun b hb => hsplit ▸ Attribute.resolved_apart hns (hn b hb) hr
    obtain ⟨v, hv, hw⟩ := h.setAttributeNS hnot a.value
    obtain ⟨w, hd, hw'⟩ := hw.declarePrefix nsPrefix uri
    exact ⟨w, (bind_ok hv).trans hd, hw'⟩

/-- Attributes under distinct keys are written one after another. -/
theorem writeAttributes {done new : List (Attribute String)}
    (h : t.Writing d name (done.map (Attribute.resolved namespaces)) u) (hns : namespaces.Separates)
    (hk : ∀ a ∈ new, a.name.written ≠ "xmlns") (hn : ((done ++ new).map fun a => a.name.written).Nodup) :
    ∃ v, Edit.writeAttributes namespaces (some d) (new.map fun a => (a.name.written, some a.value)) u = (.ok (), v) ∧
      t.Writing d name ((done ++ new).map (Attribute.resolved namespaces)) v := by
  induction new generalizing u done with
  | nil => exact ⟨u, rfl, by rwa [List.append_nil]⟩
  | cons a new ih =>
    have hnew : ∀ b ∈ done, b.name.written ≠ a.name.written := by
      intro b hb he
      rw [List.map_append, List.map_cons] at hn
      exact (List.nodup_append.1 hn).2.2 _ (List.mem_map_of_mem hb) _ List.mem_cons_self he
    obtain ⟨v, hv, hw⟩ := h.write hns (hk a List.mem_cons_self) hnew
    rw [List.append_cons] at hn ⊢
    obtain ⟨w, hw', hw⟩ := ih hw (fun b hb => hk b (List.mem_cons_of_mem _ hb)) hn
    refine ⟨w, ?_, hw⟩
    rw [List.map_cons, Edit.writeAttributes, bind_ok hv]
    exact hw'

end Writing

/-- A new element in the place of an old one takes over its attributes, each resolved anew. -/
theorem Stored.renew_resolved (hs : t.Stored) (hl : t.Linked) (hns : namespaces.Separates) {old : Ref}
    {space written : String}
    (hk : ∀ a ∈ attributes, a.name.written ≠ "xmlns") (hn : (attributes.map fun a => a.name.written).Nodup)
    (hu : Edit.renew namespaces old space written (attributes.map fun a => (a.name.written, some a.value)) t =
      (.ok t.size, u)) :
    t.Spares u ∧ u.content? (some t.size) =
      some (.element (.ofWritten space written) (attributes.map (Attribute.resolved namespaces))) := by
  have hbegin : t.Writing t.size (.ofWritten space written) ([].map (Attribute.resolved namespaces)) _ :=
    .begin hl hs space written
  obtain ⟨v, hv, hw⟩ := hbegin.writeAttributes hns hk hn
  have hcreate : Edit.createElement space written t = (.ok t.size, (t.createElement space written).2) := rfl
  rw [Edit.renew, bind_ok hcreate, bind_ok hv] at hu
  obtain ⟨⟨⟩, w, hm, hu⟩ := run_bind_eq_ok hu
  obtain ⟨⟨⟩, w', hs', hu⟩ := run_bind_eq_ok hu
  cases hu
  have hmoves := (sameData_of_moveChildren (Edit.ofExcept_inv hm)).trans (sameData_of_succeed (Edit.ofExcept_inv hs'))
  refine ⟨hw.spares.moves hmoves, ?_⟩
  have hret := Retains.of_sameData (t.size + 1) hw.spares.stored hmoves
  rw [hret.content (Nat.lt_succ_self _), hw.content, List.nil_append]

end Tree

end RichText
