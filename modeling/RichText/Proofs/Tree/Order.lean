import RichText.Proofs.Conversion.Copying
import RichText.Proofs.Tree.Access

/-!
Document order, and the texts of a subtree.

Which of two nodes comes first can be told from the links: a node comes before all that is below it, and what is at or
below a node comes before what is at or below a later sibling of it. In a well-linked tree this order is strict, so that
there is only one way to list some nodes in it, and a forest that is read from the links lists its nodes in it.
-/

namespace RichText

/-- A text node counts for its own content, any other node for the texts below it. -/
theorem Forest.text_node (content : Content) (below rest : Forest Content) :
    (node content below rest).text = content.text?.getD below.text ++ rest.text := by
  cases content <;> rfl

namespace Tree

open Relation (TransGen ReflTransGen)

variable {t : Tree} {a b p x y : Nat} {r : Ref} {f : Forest Nat} {l l' : List Nat}

/-! ### Parent links -/

/-- The parent link of `c` leads to `p`. -/
def Up (t : Tree) (c p : Nat) : Prop := t.parent (some c) = some p

theorem Linked.swap_up (h : t.Linked) : Function.swap t.Up = Child t.kids :=
  funext fun _ => funext fun _ => propext h.parent_iff

theorem Linked.reflTransGen_up (h : t.Linked) : ReflTransGen t.Up x p ↔ ReflTransGen (Child t.kids) p x := by
  rw [← h.swap_up, Relation.reflTransGen_swap]

theorem Linked.transGen_up (h : t.Linked) : TransGen t.Up x p ↔ TransGen (Child t.kids) p x := by
  rw [← h.swap_up, Relation.transGen_swap]

theorem Linked.not_above_self (h : t.Linked) : ¬ TransGen t.Up x x := fun hx => h.acyclic x (h.transGen_up.1 hx)

/-! ### Siblings -/

/-- Sibling links lead from `a` on to `b`. -/
def LeftOf (t : Tree) : Nat → Nat → Prop := TransGen fun a b => t.nextSibling (some a) = some b

/-- Of two siblings in order the second one comes later in the child list that the first one stands in. -/
theorem LeftOf.exists_list (hab : t.LeftOf a b) (h : t.Linked) : ∃ p l r, t.kids p = l ++ a :: r ∧ b ∈ r := by
  induction hab with
  | single hb =>
    obtain ⟨p, l, r, hp⟩ := h.exists_list (.inl hb)
    rw [h.nextSibling hp] at hb
    exact ⟨p, l, r, hp, List.mem_of_head? hb⟩
  | @tail b c _ hc ih =>
    obtain ⟨p, l, r, hp, hb⟩ := ih
    obtain ⟨m, n, rfl⟩ := List.append_of_mem hb
    have hcut : t.kids p = (l ++ a :: m) ++ b :: n := by rw [hp, List.append_assoc, List.cons_append]
    rw [h.nextSibling hcut] at hc
    exact ⟨p, l, _, hp, List.mem_append_right m (List.mem_cons_of_mem b (List.mem_of_head? hc))⟩

theorem LeftOf.exists_parent (hab : t.LeftOf a b) (h : t.Linked) : ∃ p, a ∈ t.kids p ∧ b ∈ t.kids p ∧ a ≠ b := by
  obtain ⟨p, l, r, hp, hb⟩ := hab.exists_list h
  have hn := h.nodup p
  rw [hp] at hn
  refine ⟨p, hp ▸ List.mem_append_right l List.mem_cons_self,
    hp ▸ List.mem_append_right l (List.mem_cons_of_mem a hb), ?_⟩
  rintro rfl
  exact (List.nodup_cons.1 hn.of_append_right).1 hb

/-- Siblings are below the same nodes. -/
theorem LeftOf.transGen_up_iff (hab : t.LeftOf a b) (h : t.Linked) : TransGen t.Up a x ↔ TransGen t.Up b x := by
  obtain ⟨p, ha, hb, -⟩ := hab.exists_parent h
  simp only [Relation.TransGen.head'_iff, Up, h.parent_iff.2 ha, h.parent_iff.2 hb]

/-- Nothing is at or below two siblings of which one comes before the other. -/
theorem LeftOf.disjoint (hab : t.LeftOf a b) (h : t.Linked) (ha : ReflTransGen t.Up x a) :
    ¬ ReflTransGen t.Up x b := by
  intro hb
  obtain ⟨p, hap, hbp, hne⟩ := hab.exists_parent h
  exact hne (h.sibling_unique hap hbp (h.reflTransGen_up.1 ha) (h.reflTransGen_up.1 hb))

/-- A child list is in the order of the sibling links. -/
theorem Linked.pairwise_leftOf (h : t.Linked) (p : Nat) : (t.kids p).Pairwise t.LeftOf := by
  have hsuffix : ∀ {l r}, t.kids p = l ++ r → r.Pairwise t.LeftOf := by
    intro l r hp
    induction r generalizing l with
    | nil => exact .nil
    | cons a r ih =>
      have hr := ih (hp.trans (List.append_cons l a r))
      refine List.pairwise_cons.2 ⟨fun b hb => ?_, hr⟩
      cases r with
      | nil => exact absurd hb List.not_mem_nil
      | cons c r =>
        have hc : t.nextSibling (some a) = some c := h.nextSibling hp
        rcases List.mem_cons.1 hb with rfl | hb
        · exact .single hc
        · exact .head hc ((List.pairwise_cons.1 hr).1 b hb)
  exact hsuffix (List.nil_append _).symm

/-! ### Document order -/

/-- `x` comes before `y` in document order. -/
inductive Precedes (t : Tree) (x y : Nat) : Prop
  /-- `y` is below `x`. -/
  | above (h : TransGen t.Up y x)
  /-- `y` is at or below a later sibling of a node that `x` is at or below. -/
  | beside {a b : Nat} (hab : t.LeftOf a b) (hx : ReflTransGen t.Up x a) (hy : ReflTransGen t.Up y b)

/-- Document order is strict. -/
theorem Precedes.asymm (h : t.Linked) (hxy : t.Precedes x y) : ¬ t.Precedes y x := by
  intro hyx
  cases hxy with
  | above hxy =>
    cases hyx with
    | above hyx => exact h.not_above_self (hxy.trans hyx)
    | beside hab hya hxb => exact hab.disjoint h hya (hxy.to_reflTransGen.trans hxb)
  | @beside a b hab hxa hyb =>
    cases hyx with
    | above hyx => exact hab.disjoint h hxa (hyx.to_reflTransGen.trans hyb)
    | @beside c d hcd hyc hxd =>
      -- `y` is at or below `b` and `c`, so that one of these is at or below the other; if it is further down, so is
      -- its sibling, and `x` is below two siblings
      rcases h.comparable (h.reflTransGen_up.1 hyb) (h.reflTransGen_up.1 hyc) with hbc | hcb
      · rcases Relation.reflTransGen_iff_eq_or_transGen.1 (h.reflTransGen_up.2 hbc) with rfl | hcb
        · exact LeftOf.disjoint (hab.trans hcd) h hxa hxd
        · have hdb : TransGen t.Up d b := (hcd.transGen_up_iff h).1 hcb
          exact hab.disjoint h hxa (hxd.trans hdb.to_reflTransGen)
      · rcases Relation.reflTransGen_iff_eq_or_transGen.1 (h.reflTransGen_up.2 hcb) with rfl | hbc
        · exact LeftOf.disjoint (hab.trans hcd) h hxa hxd
        · have hac : TransGen t.Up a c := (hab.transGen_up_iff h).2 hbc
          exact hcd.disjoint h (hxa.trans hac.to_reflTransGen) hxd

/-- Two lists of the same nodes in document order are the same. -/
theorem Linked.eq_of_pairwise_precedes (h : t.Linked) (hl : l.Pairwise t.Precedes) (hl' : l'.Pairwise t.Precedes)
    (hm : ∀ x, x ∈ l ↔ x ∈ l') : l = l' := by
  have hnodup : ∀ {l : List Nat}, l.Pairwise t.Precedes → l.Nodup := fun hl =>
    hl.imp fun hxy he => (he ▸ hxy).asymm h (he ▸ hxy)
  have hperm := (List.perm_ext_iff_of_nodup (hnodup hl) (hnodup hl')).2 hm
  exact hperm.eq_of_pairwise (fun _ _ _ _ hxy hyx => absurd hyx (hxy.asymm h)) hl hl'

/-- A forest that is rooted at siblings in order lists its nodes in document order. -/
theorem Linked.pairwise_precedes (h : t.Linked) (hf : f.Fits t.kids) (hr : f.roots.Pairwise t.LeftOf) :
    f.toList.Pairwise t.Precedes := by
  induction f with
  | nil => exact .nil
  | node x below rest ihb ihr =>
    obtain ⟨hlist, hb, hrest⟩ := hf
    obtain ⟨hx, hroots⟩ := List.pairwise_cons.1 hr
    -- the first tree and the further ones are in order by themselves, and the whole first tree comes before the others
    have hbelow : ∀ y ∈ below.toList, TransGen t.Up y x := by
      intro y hy
      obtain ⟨c, hc, hcy⟩ := below_of_mem_toList hb hy
      exact .tail' (h.reflTransGen_up.2 hcy) (h.parent_iff.2 (hlist ▸ hc))
    have hbeside : ∀ z ∈ rest.toList, ∃ b, t.LeftOf x b ∧ ReflTransGen t.Up z b := by
      intro z hz
      obtain ⟨b, hb, hbz⟩ := below_of_mem_toList hrest hz
      exact ⟨b, hx b hb, h.reflTransGen_up.2 hbz⟩
    refine List.pairwise_cons.2 ⟨fun y hy => ?_, List.pairwise_append.2 ⟨?_, ihr hrest hroots, fun y hy z hz => ?_⟩⟩
    · rcases List.mem_append.1 hy with hy | hy
      · exact .above (hbelow y hy)
      · obtain ⟨b, hxb, hyb⟩ := hbeside y hy
        exact .beside hxb .refl hyb
    · exact ihb hb (hlist ▸ h.pairwise_leftOf x)
    · obtain ⟨b, hxb, hzb⟩ := hbeside z hz
      exact .beside hxb (hbelow y hy).to_reflTransGen hzb

/-! ### Texts -/

theorem text?_of_lt (hx : x < t.size) : t.text? (some x) = (t.contentOf x).text? := by
  obtain ⟨n, hn⟩ := exists_node? hx
  simp only [text?, contentOf, content?, data?, hn, Option.map_some, Option.bind_some, Option.getD_some]
  cases n.data <;> rfl

/-- `x` is a text node at or below `p`, and no other text node at or below `p` is above it. -/
structure OutermostText (t : Tree) (p x : Nat) : Prop where
  text : t.text? (some x) ≠ none
  below : ReflTransGen t.Up x p
  outermost : ∀ y, TransGen t.Up x y → ReflTransGen t.Up y p → t.text? (some y) = none

/-- `l` lists in document order the text nodes of the subtree of `r`, less those that stand below one of them. -/
structure ListsTexts (t : Tree) (r : Ref) (l : List Nat) : Prop where
  ordered : l.Pairwise t.Precedes
  mem : ∀ x, x ∈ l ↔ ∃ p, r = some p ∧ t.OutermostText p x

theorem ListsTexts.unique (h : t.Linked) (hl : t.ListsTexts r l) (hl' : t.ListsTexts r l') : l = l' :=
  h.eq_of_pairwise_precedes hl.ordered hl'.ordered fun x => (hl.mem x).trans (hl'.mem x).symm

/-- The text nodes of a forest, less those that stand below one of them. -/
def outermostTexts (t : Tree) : Forest Nat → List Nat
  | .nil => []
  | .node x below rest =>
    (if (t.text? (some x)).isSome then [x] else t.outermostTexts below) ++ t.outermostTexts rest

theorem outermostTexts_sublist (t : Tree) (f : Forest Nat) : List.Sublist (t.outermostTexts f) f.toList := by
  induction f with
  | nil => exact .slnil
  | node x below rest ihb ihr =>
    rw [outermostTexts, Forest.toList, ← List.cons_append]
    refine List.Sublist.append ?_ ihr
    split
    · exact (List.nil_sublist _).cons_cons x
    · exact ihb.cons x

/-- Of the subtree of a text node only this node itself counts. -/
theorem Linked.outermostText_of_text (h : t.Linked) (hp : t.text? (some p) ≠ none) :
    t.OutermostText p x ↔ x = p := by
  constructor
  · intro hx
    rcases Relation.reflTransGen_iff_eq_or_transGen.1 hx.below with hxp | hxp
    · exact hxp.symm
    · exact absurd (hx.outermost p hxp .refl) hp
  · rintro rfl
    exact ⟨hp, .refl, fun y hxy hyx => absurd (hxy.trans_left hyx) h.not_above_self⟩

/-- Of the subtree of any other node the same texts count as of the subtrees of its children. -/
theorem Linked.outermostText_of_children (h : t.Linked) (hp : t.text? (some p) = none) :
    t.OutermostText p x ↔ ∃ c ∈ t.kids p, t.OutermostText c x := by
  constructor
  · intro hx
    rcases hx.below.cases_tail with rfl | ⟨c, hxc, hc⟩
    · exact absurd hp hx.text
    · exact ⟨c, h.parent_iff.1 hc, hx.text, hxc, fun y hxy hyc => hx.outermost y hxy (hyc.tail hc)⟩
  · rintro ⟨c, hc, hx⟩
    refine ⟨hx.text, hx.below.tail (h.parent_iff.2 hc), fun y hxy hyp => ?_⟩
    rcases hyp.cases_tail with rfl | ⟨c', hyc, hc'⟩
    · exact hp
    -- the child that `y` is at or below is the one that `x` is at or below
    · obtain rfl : c = c' :=
        h.sibling_unique hc (h.parent_iff.1 hc') (h.reflTransGen_up.1 hx.below)
          (h.reflTransGen_up.1 (hxy.to_reflTransGen.trans hyc))
      exact hx.outermost y hxy hyc

theorem Linked.mem_outermostTexts (h : t.Linked) (hf : f.Fits t.kids) :
    x ∈ t.outermostTexts f ↔ ∃ p ∈ f.roots, t.OutermostText p x := by
  induction f with
  | nil => simp [outermostTexts, Forest.roots]
  | node p below rest ihb ihr =>
    obtain ⟨hlist, hb, hrest⟩ := hf
    have hp : x ∈ (if (t.text? (some p)).isSome then [p] else t.outermostTexts below) ↔ t.OutermostText p x := by
      cases htext : t.text? (some p) with
      | some s =>
        rw [h.outermostText_of_text (by simp [htext])]
        exact List.mem_singleton
      | none =>
        rw [h.outermostText_of_children htext, ← hlist]
        exact ihb hb
    rw [outermostTexts, List.mem_append, hp, ihr hrest, Forest.roots]
    simp only [List.mem_cons, exists_eq_or_imp]

/-- The texts of what is below and beside a node are those of its outermost text nodes. -/
theorem text_map_contentOf (hf : ∀ x ∈ f.toList, x < t.size) :
    (f.map t.contentOf).text = String.join ((t.outermostTexts f).filterMap fun x => t.text? (some x)) := by
  induction f with
  | nil => rfl
  | node x below rest ihb ihr =>
    have hb := ihb fun y hy => hf y (Forest.mem_toList_below hy _ _)
    have hr := ihr fun y hy => hf y (Forest.mem_toList_rest hy _ _)
    rw [Forest.map, Forest.text_node, hb, hr, outermostTexts, List.filterMap_append, String.join_append,
      ← text?_of_lt (hf x List.mem_cons_self)]
    cases htext : t.text? (some x) <;> simp [htext]

theorem textContent_of_unknown (hr : t.node? r = none) : t.textContent r = "" := by
  rw [textContent, branch, content?, data?, hr]
  rfl

/-- Only nodes of the arena have texts at or below them. -/
theorem OutermostText.lt (hx : t.OutermostText p x) (h : t.Linked) : p < t.size := by
  rcases hx.below.cases_tail with rfl | ⟨c, -, hc⟩
  · by_contra hp
    exact hx.text (by rw [text?, data?, node?_eq_none_iff.2 (Nat.le_of_not_lt hp)]; rfl)
  · exact h.parent_lt (h.parent_iff.1 hc)

/-- The text of a node is that of the outermost text nodes in its subtree, one after another in document order. -/
theorem Linked.textContent_eq (h : t.Linked) (r : Ref) :
    ∃ l, t.ListsTexts r l ∧ t.textContent r = String.join (l.filterMap fun x => t.text? (some x)) := by
  cases hn : t.node? r with
  | none =>
    refine ⟨[], ⟨.nil, fun x => ⟨fun hx => absurd hx List.not_mem_nil, ?_⟩⟩, textContent_of_unknown hn⟩
    rintro ⟨p, rfl, hx⟩
    exact absurd (hx.lt h) (Nat.not_lt.2 (node?_eq_none_iff.1 hn))
  | some n =>
    obtain ⟨p, hp, rfl⟩ := has_of_node? hn
    refine ⟨t.outermostTexts (t.subtree p), ⟨?_, fun x => ?_⟩, ?_⟩
    · have hroot : (t.subtree p).roots.Pairwise t.LeftOf := List.pairwise_singleton _ p
      exact (h.pairwise_precedes (h.fits_subtree p) hroot).sublist (t.outermostTexts_sublist _)
    · rw [h.mem_outermostTexts (h.fits_subtree p)]
      simp [subtree, Forest.roots]
    · rw [textContent, branch_eq_map hp, text_map_contentOf fun x hx => h.lt_of_mem_subtree hp hx]

end Tree

end RichText
