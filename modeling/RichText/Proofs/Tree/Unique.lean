import RichText.Proofs.Conversion.Copying

/-!
Attributes that no two of an element share a namespace and a local part.

Attributes are written in two ways: by their written name, and by namespace and local part. Either way only looks
whether there is an attribute that it would find itself, before it adds one. That both together never give an element
two attributes with one key is due to a second invariant: an attribute without a namespace has no prefix. It is then
written like its local part, so that an attribute that is added for its written name is new also by its key.

The attributes of an element are therefore a map from keys to values, with an order.
-/

namespace RichText

open Effects

/-- What identifies an attribute: its namespace and its local part. -/
def QualifiedName.key (name : Name) : String × String := (name.space, name.localPart)

/-- A name has a prefix only where it has a namespace. -/
def QualifiedName.Proper (name : Name) : Prop := name.space = "" → name.nsPrefix = ""

instance (name : Name) : Decidable name.Proper := inferInstanceAs (Decidable (_ → _))

theorem Attribute.hasKey_iff {space localPart : String} (a : Attribute String) :
    (a.name.space == space && a.name.localPart == localPart) = true ↔ a.name.key = (space, localPart) := by
  rw [Bool.and_eq_true, beq_iff_eq, beq_iff_eq, QualifiedName.key, Prod.mk.injEq]

/-! ### Lists with keys -/

namespace Tree

section

variable {α κ : Type} {p q : α → Bool} {f : α → α} {new : α} {l : List α} {key : α → κ}

/-- Where an entry is replaced by one with the same key, the keys stay. -/
theorem keys_replaceOrPush (hf : ∀ a ∈ l, p a = true → key (f a) = key a) :
    (replaceOrPush p f new l).map key = if l.any p = true then l.map key else l.map key ++ [key new] := by
  induction l with
  | nil => rfl
  | cons a rest ih =>
    by_cases ha : p a = true
    · simp [replaceOrPush, ha, hf a List.mem_cons_self ha]
    · rw [replaceOrPush, if_neg ha, List.map_cons, ih fun b hb => hf b (List.mem_cons_of_mem _ hb), List.any_cons,
        Bool.eq_false_iff.2 ha, Bool.false_or]
      split <;> rfl

/-- The first entry that is found is replaced where it stands. -/
theorem replaceOrPush_append {before after : List α} {a : α} (hb : ∀ b ∈ before, p b = false) (ha : p a = true) :
    replaceOrPush p f new (before ++ a :: after) = before ++ f a :: after := by
  induction before with
  | nil => rw [List.nil_append, replaceOrPush, if_pos ha, List.nil_append]
  | cons b rest ih =>
    rw [List.cons_append, replaceOrPush, hb b List.mem_cons_self, ih fun c hc => hb c (List.mem_cons_of_mem _ hc)]
    rfl

/-- Looking for another key finds what was found before. -/
theorem find?_replaceOrPush [DecidableEq κ] {k k' : κ} (hp : ∀ a, p a = true ↔ key a = k)
    (hq : ∀ a, q a = true ↔ key a = k') (hf : ∀ a, key (f a) = k) (hn : key new = k) :
    (replaceOrPush p f new l).find? q = if k' = k then some (((l.find? p).map f).getD new) else l.find? q := by
  have hnew : ∀ {b}, key b = k → q b = decide (k' = k) := fun hb => by
    rw [Bool.eq_iff_iff, hq, hb, decide_eq_true_eq, eq_comm]
  induction l with
  | nil =>
    rw [replaceOrPush, List.find?_singleton, hnew hn]
    by_cases hk : k' = k <;> simp [hk]
  | cons a rest ih =>
    by_cases ha : p a = true
    · rw [replaceOrPush, if_pos ha, List.find?_cons, List.find?_cons, List.find?_cons, hnew (hf a), hnew ((hp a).1 ha), ha]
      by_cases hk : k' = k <;> simp [hk]
    · rw [replaceOrPush, if_neg ha, List.find?_cons, List.find?_cons, List.find?_cons, ih, Bool.eq_false_iff.2 ha]
      cases hqa : q a with
      | false => rfl
      | true =>
        have hk : k' ≠ k := fun hk => ha ((hp a).2 (((hq a).1 hqa).trans hk))
        simp [hk]

/-- Where keys are distinct, removing the first entry with a key removes all entries with it. -/
theorem eraseP_eq_filter [DecidableEq κ] {k : κ} (h : (l.map key).Nodup) (hp : ∀ a, p a = true ↔ key a = k) :
    l.eraseP p = l.filter fun a => key a ≠ k := by
  induction l with
  | nil => rfl
  | cons a rest ih =>
    obtain ⟨hnot, hrest⟩ := List.nodup_cons.1 h
    rw [List.eraseP_cons, List.filter_cons]
    by_cases ha : key a = k
    · have hkept : (rest.filter fun b => key b ≠ k) = rest := by
        refine List.filter_eq_self.2 fun b hb => decide_eq_true fun hk => hnot ?_
        exact List.mem_map.2 ⟨b, hb, hk.trans ha.symm⟩
      rw [(hp a).2 ha, cond_true, if_neg (by simpa using ha), hkept]
    · rw [Bool.eq_false_iff.2 fun hpa => ha ((hp a).1 hpa), cond_false, if_pos (by simpa using ha), ih hrest]

/-- Only entries with other keys are found where all entries with a key are left out. -/
theorem find?_filter_key [DecidableEq κ] {k k' : κ} (hp : ∀ a, p a = true ↔ key a = k') :
    (l.filter fun a => key a ≠ k).find? p = if k' = k then none else l.find? p := by
  rw [List.find?_filter]
  split
  · rename_i hk
    refine List.find?_eq_none.2 fun a _ ha => ?_
    simp only [decide_eq_true_eq] at ha
    exact ha.1 (((hp a).1 ha.2).trans hk)
  · rename_i hk
    refine List.find?_congr fun a _ => ?_
    rw [Bool.eq_iff_iff, decide_eq_true_eq, decide_eq_true_eq, and_iff_right_iff_imp]
    exact fun ha hkey => hk (((hp a).1 ha).symm.trans hkey)

/-- Where keys are distinct, an entry is found by its key. -/
theorem find?_eq_some_iff_of_nodup {k : κ} (h : (l.map key).Nodup) (hp : ∀ a, p a = true ↔ key a = k) {a : α} :
    l.find? p = some a ↔ a ∈ l ∧ key a = k := by
  constructor
  · intro hf
    exact ⟨List.mem_of_find?_eq_some hf, (hp a).1 (List.find?_some hf)⟩
  · rintro ⟨ha, hk⟩
    cases hf : l.find? p with
    | none => exact absurd ((hp a).2 hk) (List.find?_eq_none.1 hf a ha)
    | some b =>
      have hb := (hp b).1 (List.find?_some hf)
      rw [List.inj_on_of_nodup_map h (List.mem_of_find?_eq_some hf) ha (hb.trans hk.symm)]

end

end Tree

/-! ### The attributes of one element -/

namespace Attribute

variable {attributes fewer : List (Attribute String)} {p : Attribute String → Bool}
  {f : Attribute String → Attribute String} {new : Attribute String}

/-- No two attributes have the same key, and none has a prefix without a namespace. -/
structure Apart (attributes : List (Attribute String)) : Prop where
  keys : (attributes.map fun a => a.name.key).Nodup
  proper : ∀ a ∈ attributes, a.name.Proper

namespace Apart

theorem nil : Apart [] := ⟨List.nodup_nil, by simp⟩

theorem sublist (h : Apart attributes) (hs : fewer.Sublist attributes) : Apart fewer :=
  ⟨h.keys.sublist (hs.map _), fun a ha => h.proper a (hs.subset ha)⟩

/-- An attribute that is replaced keeps its key, and one that is added has a new key. -/
theorem replaceOrPush (h : Apart attributes) (hf : ∀ a ∈ attributes, p a = true → (f a).name.key = a.name.key)
    (hproper : ∀ a ∈ attributes, (f a).name.Proper) (hnew : new.name.Proper)
    (hfresh : ∀ a ∈ attributes, a.name.key = new.name.key → p a = true) :
    Apart (Tree.replaceOrPush p f new attributes) := by
  constructor
  · rw [Tree.keys_replaceOrPush hf]
    split
    · exact h.keys
    · rename_i hnone
      refine List.nodup_append.2 ⟨h.keys, List.nodup_singleton _, fun k hk k' hk' => ?_⟩
      rintro rfl
      obtain ⟨a, ha, he⟩ := List.mem_map.1 hk
      exact hnone (List.any_eq_true.2 ⟨a, ha, hfresh a ha (he.trans (List.mem_singleton.1 hk'))⟩)
  · intro b hb
    rcases Tree.mem_replaceOrPush hb with rfl | ⟨a, ha, rfl | rfl⟩
    · exact hnew
    · exact h.proper _ ha
    · exact hproper a ha

/-- An attribute with the key of a plain name has no prefix, and is therefore written like that name. -/
theorem setAttribute (h : Apart attributes) (written value : String) :
    Apart (Tree.replaceOrPush (fun a => a.name.written == written) (fun a => { a with value })
      ⟨⟨"", "", written⟩, value⟩ attributes) := by
  refine h.replaceOrPush (fun a _ _ => rfl) (fun a ha => h.proper a ha) (fun _ => rfl) fun a ha hk => ?_
  obtain ⟨hspace, hlocal⟩ := Prod.mk.inj hk
  rw [beq_iff_eq, QualifiedName.written, if_pos (h.proper a ha hspace), hlocal]

theorem setAttributeNS (h : Apart attributes) {space nsPrefix localPart : String}
    (hn : QualifiedName.Proper ⟨space, nsPrefix, localPart⟩) (value : String) :
    Apart (Tree.replaceOrPush (fun a => a.name.space == space && a.name.localPart == localPart)
      (fun _ => ⟨⟨space, nsPrefix, localPart⟩, value⟩) ⟨⟨space, nsPrefix, localPart⟩, value⟩ attributes) :=
  h.replaceOrPush (fun a _ hp => (a.hasKey_iff.1 hp).symm) (fun _ _ => hn) hn
    fun a _ hk => a.hasKey_iff.2 hk

end Apart

end Attribute

/-! ### The attributes of all elements -/

namespace Tree

open Attribute

variable {source t u : Tree} {r : Ref} {d n : Nat}

/-- A well-linked tree that uses only names which it stores, in which no element has two attributes with one key. -/
structure Regular (t : Tree) : Prop extends Indexed t where
  linked : t.Linked
  apart : ∀ x, Apart (t.attributes (some x))

theorem apart_attributes (h : ∀ content, t.content? r = some content → Apart content.attributes) :
    Apart (t.attributes r) := by
  rw [attributes]
  cases hc : t.content? r with
  | none => exact .nil
  | some content => exact h content hc

theorem regular_empty : Tree.empty.Regular := by
  refine ⟨indexed_empty, linked_empty, fun x => ?_⟩
  cases x with
  | zero => exact .nil
  | succ x => exact .nil

namespace Regular

/-- More strings change no attribute. -/
theorem store (h : t.Regular) {symbols : SymbolTable} (hx : t.symbols.Extends symbols) (hd : symbols.Distinct) :
    Regular { t with symbols } := by
  refine ⟨h.symbols hx hd, (h.linked.of_sameLinks (SameShape.symbols t symbols).toSameLinks).1, fun x => ?_⟩
  rw [attributes, h.content_symbols hx]
  exact h.apart x

/-- A new node without attributes. -/
theorem push (h : t.Regular) {data : NodeData Symbol} (hp : ∀ s ∈ data.parts, s < t.symbols.size)
    (ha : data.attributes = []) : (t.push data).2.Regular := by
  refine ⟨⟨h.toStored.push hp, h.distinct⟩, h.linked.push data, fun x => ?_⟩
  rw [attributes, content?_push]
  split
  · cases data with
    | element name attributes =>
      obtain rfl : attributes = [] := ha
      exact .nil
    | _ => exact .nil
  · exact h.apart x

theorem createElement (h : t.Regular) (space written : String) : (t.createElement space written).2.Regular := by
  obtain ⟨hx, hp, -⟩ := t.symbols.internName_spec (.ofWritten space written)
  refine (h.store hx (h.distinct.internName _)).push (fun s hs => hp s ?_) rfl
  rwa [NodeData.parts, List.flatMap_nil, List.append_nil] at hs

/-- Edits of attributes that keep those of each node apart. -/
theorem alters (h : t.Regular) {change : Nat → List (Attribute String) → List (Attribute String)}
    (hu : t.Alters change u)
    (hc : ∀ x, Apart (t.attributes (some x)) → Apart (change x (t.attributes (some x)))) : u.Regular := by
  refine ⟨hu.indexed, (h.linked.of_sameLinks hu.shape.toSameLinks).1, fun x => ?_⟩
  rw [hu.attributes]
  exact hc x (h.apart x)

theorem movable : Movable Regular where
  detach hu h := ⟨h.toIndexed.moves (sameData_of_detach hu), h.linked.of_detach hu, fun x =>
    attributes_of_sameData (sameData_of_detach hu) (some x) ▸ h.apart x⟩
  insertBefore hu h := ⟨h.toIndexed.moves (sameData_of_insertBefore hu), h.linked.of_insertBefore hu, fun x =>
    attributes_of_sameData (sameData_of_insertBefore hu) (some x) ▸ h.apart x⟩

theorem setText (h : t.Regular) {content : String} (hu : t.setText r content = .ok u) : u.Regular := by
  refine ⟨h.toIndexed.setText hu, h.linked.of_setText hu, fun x => apart_attributes fun c hc => ?_⟩
  obtain ⟨data, hd, rfl⟩ := Option.map_eq_some_iff.1 hc
  rw [symbols_of_setText hu]
  rcases data_of_setText hu hd with rfl | hd
  · exact .nil
  · have happart := h.apart x
    rwa [attributes, content?, hd] at happart

/-- The attributes of a copy are those of the node that was copied. -/
theorem copyFrom (h : t.Regular) (hs : source.Regular) (r : Ref) : (Edit.copyFrom source r t).2.Regular := by
  by_cases hr : ∃ n < source.size, r = some n
  · obtain ⟨n, hn, rfl⟩ := hr
    obtain ⟨u, hu, hc, -⟩ := h.linked.copies h.toIndexed hs.linked hs.toIndexed hn
    have hsound := invariant_sound.copyFrom source (some n) t ⟨h.blank, h.distinct⟩
    rw [hu] at hsound ⊢
    refine ⟨⟨⟨hsound.blank, hc.interned⟩, hsound.distinct⟩, hc.linked, fun x => ?_⟩
    by_cases hx : x < t.size
    · rw [attributes, (hc.former x hx).2]
      exact h.apart x
    by_cases hxu : x < u.size
    · have hmem : x ∈ (source.subtree n).toList.map (source.copyAt n t.size) := by
        rw [hc.order, List.mem_range'_1, ← hc.size]
        exact ⟨Nat.le_of_not_lt hx, hxu⟩
      obtain ⟨y, hy, rfl⟩ := List.mem_map.1 hmem
      rw [attributes, hc.content y hy]
      exact hs.apart y
    · refine apart_attributes fun content hcontent => ?_
      rw [content?, data?, node?_eq_none_iff.2 (Nat.le_of_not_lt hxu)] at hcontent
      cases hcontent
  · -- an unknown node is refused
    have hnone : source.content? r = none := by
      cases r with
      | none => rfl
      | some n =>
        have hn : source.size ≤ n := Nat.le_of_not_lt fun hn => hr ⟨n, hn, rfl⟩
        rw [content?, data?, node?_eq_none_iff.2 hn]
        rfl
    rw [Edit.copyFrom, hnone]
    exact h

/-- Writing to another node than an element is refused, so that only what it does to an element matters. -/
theorem preserves_write {α : Type} {x : Edit α} (hrefused : ∀ {I : Tree → Prop}, WritableAt I r → Preserves I x)
    (hwrites : ∀ {t d}, r = some d → t.Regular → t.kind? (some d) = some .element → ∃ a u change,
      x t = (.ok a, u) ∧ t.Alters change u ∧
        ∀ y, Apart (t.attributes (some y)) → Apart (change y (t.attributes (some y)))) :
    Preserves Regular x := by
  refine preserves_at_element (fun {t} s h => ?_) hrefused fun hr h hd => ?_
  · exact h.store (t.symbols.intern_spec s).1 (h.distinct.intern s)
  · obtain ⟨a, u, change, hu, ha, hc⟩ := hwrites hr h hd
    rw [hu]
    exact h.alters ha hc

theorem setAttribute (r : Ref) (written value : String) : Preserves Regular (Edit.setAttribute r written value) := by
  refine preserves_write (fun hw => hw.setAttribute written value) fun hr h hd => ?_
  subst hr
  obtain ⟨u, hu, ha⟩ := h.toIndexed.setAttribute hd written value
  refine ⟨(), u, _, hu, ha, fun y hy => ?_⟩
  split
  · exact hy.setAttribute written value
  · exact hy

theorem removeAttribute (r : Ref) (written : String) : Preserves Regular (Edit.removeAttribute r written) := by
  refine preserves_write (fun hw => hw.removeAttribute written) fun hr h hd => ?_
  subst hr
  obtain ⟨found, u, hu, ha⟩ := h.toIndexed.removeAttribute hd written
  refine ⟨found, u, _, hu, ha, fun y hy => ?_⟩
  split
  · exact hy.sublist List.eraseP_sublist
  · exact hy

theorem setAttributeNS (r : Ref) {space written : String} (hn : (QualifiedName.ofWritten space written).Proper)
    (value : String) : Preserves Regular (Edit.setAttributeNS r space written value) := by
  refine preserves_write (fun hw => hw.setAttributeNS space written value) fun hr h hd => ?_
  subst hr
  have hparts : QualifiedName.ofWritten space written = ⟨space, _, _⟩ := rfl
  obtain ⟨u, hu, ha⟩ := h.toIndexed.setAttributeNS hd hparts value
  refine ⟨(), u, _, hu, ha, fun y hy => ?_⟩
  split
  · exact hy.setAttributeNS hn value
  · exact hy

theorem removeAttributeNS (r : Ref) (space localPart : String) :
    Preserves Regular (Edit.removeAttributeNS r space localPart) := by
  refine preserves_write (fun hw => hw.removeAttributeNS space localPart) fun hr h hd => ?_
  subst hr
  obtain ⟨u, hu, ha⟩ := h.toIndexed.removeAttributeNS hd space localPart
  refine ⟨_, u, _, hu, ha, fun y hy => ?_⟩
  split
  · exact hy.sublist List.eraseP_sublist
  · exact hy

end Regular

/-! ### Trees that are made by calls -/

/-- Calls that write a prefix only together with a namespace, and that name what they add to the tree by strings. -/
def Call.Proper : Call → Prop
  | create _ | copyFrom _ _ => False
  | setAttributeNS _ space written _ => (QualifiedName.ofWritten space written).Proper
  | _ => True

instance (call : Call) : Decidable call.Proper :=
  match call with
  | .create _ | .copyFrom _ _ => inferInstanceAs (Decidable False)
  | .setAttributeNS _ space written _ => inferInstanceAs (Decidable (QualifiedName.ofWritten space written).Proper)
  | .createElement .. | .appendChild .. | .insertBefore .. | .replaceChild .. | .detach _ | .removeChildren _
  | .setAttribute .. | .removeAttribute .. | .removeAttributeNS .. | .setText .. => inferInstanceAs (Decidable True)

theorem Regular.call (h : t.Regular) {call : Call} (hc : call.Proper) : (call.after t).Regular := by
  have hpreserves : Preserves Regular call.edit := by
    cases call with
    | create data => exact hc.elim
    | createElement space written => exact .discard fun _ ht => ht.createElement space written
    | appendChild parent child => exact preserves_ofExcept fun ht hu => movable.insertBefore hu ht
    | insertBefore parent child reference => exact preserves_ofExcept fun ht hu => movable.insertBefore hu ht
    | replaceChild parent new old => exact preserves_ofExcept fun ht hu => movable.replaceChild hu ht
    | detach node => exact preserves_ofExcept fun ht hu => movable.detach hu ht
    | removeChildren node => exact preserves_ofExcept fun ht hu => movable.removeChildren hu ht
    | copyFrom source node => exact hc.elim
    | setAttribute element written value => exact Regular.setAttribute element written value
    | removeAttribute element written => exact (Regular.removeAttribute element written).discard
    | setAttributeNS element space written value => exact Regular.setAttributeNS element hc value
    | removeAttributeNS element space localPart => exact (Regular.removeAttributeNS element space localPart).discard
    | setText node content => exact preserves_ofExcept fun ht hu => ht.setText hu
  exact hpreserves t h

/-- Trees that are made from the empty tree by such calls, by storing strings, by adding nodes without attributes, whose
names are stored, and by copying nodes of other trees that are made so. -/
inductive Made : Tree → Prop
  | empty : Made empty
  | store {t : Tree} (h : Made t) (s : String) : Made { t with symbols := (t.symbols.intern s).2 }
  | create {t : Tree} (h : Made t) {data : NodeData Symbol} (hp : ∀ s ∈ data.parts, s < t.symbols.size)
      (ha : data.attributes = []) : Made (t.push data).2
  | copyFrom {source t : Tree} (hs : Made source) (h : Made t) (r : Ref) : Made (Edit.copyFrom source r t).2
  | call {t : Tree} (h : Made t) {call : Call} (hc : call.Proper) : Made (call.after t)

theorem Made.regular (h : t.Made) : t.Regular := by
  induction h with
  | empty => exact regular_empty
  | @store t _ s ih => exact ih.store (t.symbols.intern_spec s).1 (ih.distinct.intern s)
  | create _ hp ha ih => exact ih.push hp ha
  | copyFrom _ _ r ihs ih => exact ih.copyFrom ihs r
  | call _ hc ih => exact ih.call hc

theorem Made.calls (h : t.Made) {calls : List Call} (hc : ∀ call ∈ calls, call.Proper) :
    (calls.foldl (fun t call => call.after t) t).Made := by
  induction calls generalizing t with
  | nil => exact h
  | cons call rest ih =>
    exact ih (h.call (hc call List.mem_cons_self)) fun c hm => hc c (List.mem_cons_of_mem _ hm)

/-! ### Attributes as a map -/

namespace Regular

/-- What is read for a key is the value of the attribute that has it. -/
theorem attributeNS?_eq_some_iff (h : t.Regular) (hd : t.kind? (some d) = some .element)
    {space localPart value : String} :
    t.attributeNS? (some d) space localPart = some value ↔
      ∃ a ∈ t.attributes (some d), a.name.key = (space, localPart) ∧ a.value = value := by
  rw [h.attributeNS?_eq hd, Option.map_eq_some_iff]
  refine exists_congr fun a => ?_
  rw [find?_eq_some_iff_of_nodup (h.apart d).keys hasKey_iff, and_assoc]

end Regular

/-- From `t` to `u` the attribute of the element `d` with the key of `name` was written, and no other attribute
changed. -/
structure Assigns (t : Tree) (d : Nat) (name : Name) (value : String) (u : Tree) : Prop where
  shape : t.SameShape u
  others : ∀ x ≠ d, u.attributes (some x) = t.attributes (some x)
  /-- An attribute that is present keeps its place, and takes the value and the prefix. -/
  present : ∀ {before a after}, t.attributes (some d) = before ++ a :: after → a.name.key = name.key →
    u.attributes (some d) = before ++ ⟨name, value⟩ :: after
  /-- A new attribute comes after the others. -/
  absent : (∀ a ∈ t.attributes (some d), a.name.key ≠ name.key) →
    u.attributes (some d) = t.attributes (some d) ++ [⟨name, value⟩]
  reads : ∀ space localPart, u.attributeNS? (some d) space localPart =
    if (space, localPart) = name.key then some value else t.attributeNS? (some d) space localPart

/-- From `t` to `u` the attribute of the element `d` with this key was removed if there was one, and no other attribute
changed. -/
structure Drops (t : Tree) (d : Nat) (key : String × String) (u : Tree) : Prop where
  shape : t.SameShape u
  others : ∀ x ≠ d, u.attributes (some x) = t.attributes (some x)
  kept : u.attributes (some d) = (t.attributes (some d)).filter fun a => a.name.key ≠ key
  reads : ∀ space localPart, u.attributeNS? (some d) space localPart =
    if (space, localPart) = key then none else t.attributeNS? (some d) space localPart

namespace Regular

theorem assigns (h : t.Regular) (hd : t.kind? (some d) = some .element) (space written value : String) :
    ∃ u, Edit.setAttributeNS (some d) space written value t = (.ok (), u) ∧
      t.Assigns d (.ofWritten space written) value u := by
  obtain ⟨nsPrefix, localPart, hn⟩ : ∃ p l, QualifiedName.ofWritten space written = ⟨space, p, l⟩ := ⟨_, _, rfl⟩
  obtain ⟨u, hu, ha⟩ := h.toIndexed.setAttributeNS hd hn value
  have hattributes := ha.attributes d
  rw [if_pos rfl] at hattributes
  rw [hn]
  refine ⟨u, hu, ha.shape, fun x hx => ?_, fun {before a after} hb hk => ?_, fun hnone => ?_, fun s l => ?_⟩
  · rw [ha.attributes, if_neg hx]
  · have hnodup := (h.apart d).keys
    rw [hb, List.map_append, List.map_cons] at hnodup
    rw [hattributes, hb]
    refine replaceOrPush_append (fun b hmem => Bool.eq_false_iff.2 fun hp => ?_) (a.hasKey_iff.2 hk)
    have hsame : b.name.key = a.name.key := (b.hasKey_iff.1 hp).trans hk.symm
    exact (List.nodup_append.1 hnodup).2.2 _ (List.mem_map_of_mem hmem) _ List.mem_cons_self hsame
  · rw [hattributes]
    refine replaceOrPush_of_not (fun a hmem => Bool.eq_false_iff.2 fun hp => ?_) _ _
    exact hnone a hmem (a.hasKey_iff.1 hp)
  · rw [ha.indexed.attributeNS?_eq (ha.shape.kind _ ▸ hd), hattributes]
    rw [find?_replaceOrPush hasKey_iff hasKey_iff, h.attributeNS?_eq hd, QualifiedName.key]
    · split
      · cases (t.attributes (some d)).find? _ <;> rfl
      · rfl
    · exact fun _ => rfl
    · rfl

theorem drops (h : t.Regular) (hd : t.kind? (some d) = some .element) (space localPart : String) :
    ∃ u, Edit.removeAttributeNS (some d) space localPart t =
        (.ok (t.attributeNS? (some d) space localPart).isSome, u) ∧ t.Drops d (space, localPart) u := by
  obtain ⟨u, hu, ha⟩ := h.toIndexed.removeAttributeNS hd space localPart
  have hattributes := ha.attributes d
  rw [if_pos rfl, eraseP_eq_filter (h.apart d).keys hasKey_iff] at hattributes
  refine ⟨u, by rw [hu, h.isSome_attributeNS? hd], ha.shape, fun x hx => ?_, hattributes, fun s l => ?_⟩
  · rw [ha.attributes, if_neg hx]
  · rw [ha.indexed.attributeNS?_eq (ha.shape.kind _ ▸ hd), hattributes,
      find?_filter_key hasKey_iff, h.attributeNS?_eq hd]
    split <;> rfl

end Regular

/-- However a tree is made by such calls, no two attributes of a node have the same namespace and local part, and they
are a map from these to values: writing changes what one key has, and where an attribute has it already its value and
prefix, and removing takes out what one key has and answers whether that was anything; all other attributes keep their
values and their order. -/
theorem attributes_keyed (h : t.Made) :
    (∀ x, ((t.attributes (some x)).map fun a => a.name.key).Nodup) ∧
      ∀ d, t.kind? (some d) = some .element →
        (∀ space localPart value, t.attributeNS? (some d) space localPart = some value ↔
          ∃ a ∈ t.attributes (some d), a.name.key = (space, localPart) ∧ a.value = value) ∧
        (∀ space written value, ∃ u, Edit.setAttributeNS (some d) space written value t = (.ok (), u) ∧
          t.Assigns d (.ofWritten space written) value u) ∧
        ∀ space localPart, ∃ u, Edit.removeAttributeNS (some d) space localPart t =
          (.ok (t.attributeNS? (some d) space localPart).isSome, u) ∧ t.Drops d (space, localPart) u :=
  ⟨fun x => (h.regular.apart x).keys, fun _ hd =>
    ⟨fun _ _ _ => h.regular.attributeNS?_eq_some_iff hd, h.regular.assigns hd, h.regular.drops hd⟩⟩

/-- A paragraph with two attributes that are written alike, only one of which has a namespace. -/
def linkedParagraph : List Call :=
  [.createElement "" "p", .setAttribute (some 1) "xlink:href" "a", .setAttributeNS (some 1) Uri.xlink "xlink:href" "b",
    .setAttribute (some 1) "xlink:href" "c", .setAttribute (some 1) "href" "d", .setAttributeNS (some 1) "" "href" "e",
    .removeAttributeNS (some 1) Uri.xlink "title"]

theorem attributes_keyed_linkedParagraph :
    let t := (Edit.copyFrom (linkedParagraph.foldl (fun t call => call.after t) .empty) (some 1) .empty).2
    t.Made ∧ t.kind? (some 1) = some .element ∧ (∀ x, ((t.attributes (some x)).map fun a => a.name.key).Nodup) ∧
      t.attributeNS? (some 1) "" "href" = some "e" ∧
      (∃ u, Edit.setAttributeNS (some 1) Uri.xlink "x:href" "f" t = (.ok (), u) ∧ u.attributes (some 1) =
        [⟨⟨"", "", "xlink:href"⟩, "c"⟩, ⟨⟨Uri.xlink, "x", "href"⟩, "f"⟩, ⟨⟨"", "", "href"⟩, "e"⟩]) ∧
      ∃ u, Edit.removeAttributeNS (some 1) "" "href" t = (.ok true, u) ∧ u.attributes (some 1) =
        [⟨⟨"", "", "xlink:href"⟩, "c"⟩, ⟨⟨Uri.xlink, "xlink", "href"⟩, "b"⟩] := by
  intro t
  have hproper : ∀ call ∈ linkedParagraph, call.Proper := by decide +kernel
  have ht : t.Made := .copyFrom (Made.empty.calls hproper) .empty (some 1)
  have hd : t.kind? (some 1) = some .element := by decide +kernel
  have hattributes : t.attributes (some 1) = [⟨⟨"", "", "xlink:href"⟩, "c"⟩] ++
      ⟨⟨Uri.xlink, "xlink", "href"⟩, "b"⟩ :: [⟨⟨"", "", "href"⟩, "e"⟩] := by decide +kernel
  obtain ⟨hkeys, hmap⟩ := attributes_keyed ht
  obtain ⟨hreads, hsets, hremoves⟩ := hmap 1 hd
  have hplain : t.attributeNS? (some 1) "" "href" = some "e" :=
    (hreads _ _ _).2 ⟨⟨⟨"", "", "href"⟩, "e"⟩, by simp [hattributes], rfl, rfl⟩
  obtain ⟨u, hu, hassigns⟩ := hsets Uri.xlink "x:href" "f"
  obtain ⟨v, hv, hdrops⟩ := hremoves "" "href"
  refine ⟨ht, hd, hkeys, hplain, ⟨u, hu, ?_⟩, v, by rw [hv, hplain]; rfl, ?_⟩
  · exact (hassigns.present hattributes (by decide +kernel)).trans (by decide +kernel)
  · rw [hdrops.kept, hattributes]
    decide +kernel

end Tree

end RichText
