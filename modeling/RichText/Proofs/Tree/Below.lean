import RichText.Proofs.Tree.Insertion
import RichText.Tree.Forest

/-!
What is below a node, as a forest that fits the child lists.

A forest of node numbers `Fits` a table if the trees below each of its nodes are rooted at the children of
that node. In a well-linked tree every list of nodes has exactly one such forest above it, `Tree.below` computes
it, and no node is in it twice. A forest fits as long as the child lists of its own nodes stay as they are.
-/

namespace RichText

namespace Forest

variable {α : Type} {k k' : Nat → List Nat}

/-- The labels of the first tree and its further trees. -/
def roots : Forest α → List α
  | nil => []
  | node label _ rest => label :: rest.roots

@[simp] theorem nil_append (f : Forest α) : nil ++ f = f := rfl

@[simp] theorem node_append (label : α) (below rest f : Forest α) :
    node label below rest ++ f = node label below (rest ++ f) := rfl

@[simp] theorem append_nil (f : Forest α) : f ++ nil = f := by
  induction f with
  | nil => rfl
  | node label below rest _ ih => rw [node_append, ih]

theorem append_assoc (f g h : Forest α) : (f ++ g) ++ h = f ++ (g ++ h) := by
  induction f with
  | nil => rfl
  | node label below rest _ ih => rw [node_append, node_append, node_append, ih]

theorem map_append {β : Type} (g : α → β) (f f' : Forest α) : (f ++ f').map g = f.map g ++ f'.map g := by
  induction f with
  | nil => rfl
  | node label below rest _ ih => rw [node_append, map, map, node_append, ih]

@[simp] theorem roots_append (f g : Forest α) : (f ++ g).roots = f.roots ++ g.roots := by
  induction f with
  | nil => rfl
  | node label below rest _ ih => simp [roots, ih]

@[simp] theorem size_append (f g : Forest α) : (f ++ g).size = f.size + g.size := by
  induction f with
  | nil => simp [size]
  | node label below rest _ ih =>
    simp only [node_append, size, ih]
    omega

theorem mem_toList_append {f g : Forest α} {a : α} : a ∈ (f ++ g).toList ↔ a ∈ f.toList ∨ a ∈ g.toList := by
  rw [toList_append, List.mem_append]

theorem mem_toList_below {below : Forest α} {a : α} (h : a ∈ below.toList) (label : α) (rest : Forest α) :
    a ∈ (node label below rest).toList :=
  List.mem_cons_of_mem _ (List.mem_append_left _ h)

theorem mem_toList_rest {rest : Forest α} {a : α} (h : a ∈ rest.toList) (label : α) (below : Forest α) :
    a ∈ (node label below rest).toList :=
  List.mem_cons_of_mem _ (List.mem_append_right _ h)

theorem roots_map {β : Type} (g : α → β) (f : Forest α) : (f.map g).roots = f.roots.map g := by
  induction f with
  | nil => rfl
  | node label below rest _ ih => rw [map, roots, roots, List.map_cons, ih]

theorem map_congr {β : Type} {g g' : α → β} {f : Forest α} (h : ∀ x ∈ f.toList, g x = g' x) :
    f.map g = f.map g' := by
  induction f with
  | nil => rfl
  | node label below rest ihb ihr =>
    have hb : ∀ x ∈ below.toList, g x = g' x := fun x hx => h x (mem_toList_below hx _ _)
    have hr : ∀ x ∈ rest.toList, g x = g' x := fun x hx => h x (mem_toList_rest hx _ _)
    rw [map, map, h label List.mem_cons_self, ihb hb, ihr hr]

theorem mem_toList_of_mem_roots {f : Forest α} {a : α} (h : a ∈ f.roots) : a ∈ f.toList := by
  induction f with
  | nil => exact absurd h List.not_mem_nil
  | node label below rest _ ih =>
    rcases List.mem_cons.1 h with rfl | h
    · exact List.mem_cons_self
    · exact mem_toList_rest (ih h) label below

/-- The trees below each node of the forest are rooted at its children. -/
def Fits (k : Nat → List Nat) : Forest Nat → Prop
  | nil => True
  | node label below rest => below.roots = k label ∧ below.Fits k ∧ rest.Fits k

@[simp] theorem fits_append {f g : Forest Nat} : (f ++ g).Fits k ↔ f.Fits k ∧ g.Fits k := by
  induction f with
  | nil => simp [Fits]
  | node label below rest _ ih => simp [Fits, ih, and_assoc]

theorem Fits.congr {f : Forest Nat} (h : f.Fits k) (hk : ∀ x ∈ f.toList, k' x = k x) : f.Fits k' := by
  induction f with
  | nil => trivial
  | node label below rest ihb ihr =>
    obtain ⟨hl, hb, hr⟩ := h
    refine ⟨hl.trans (hk label List.mem_cons_self).symm, ihb hb fun x hx => hk x ?_, ihr hr fun x hx => hk x ?_⟩
    · exact mem_toList_below hx label rest
    · exact mem_toList_rest hx label below

end Forest

namespace Tree

open Relation (TransGen ReflTransGen)

variable {t : Tree} {p x : Nat} {l : List Nat} {f : Forest Nat}

/-! ### Every list of nodes has a forest -/

open Classical in
/-- How many nodes are below a node. -/
private noncomputable def countBelow (t : Tree) (p : Nat) : Nat :=
  ((Finset.range t.size).filter fun x => TransGen (Child t.kids) p x).card

open Classical in
private theorem Linked.countBelow_lt (h : t.Linked) (hx : x ∈ t.kids p) : t.countBelow x < t.countBelow p := by
  refine Finset.card_lt_card (Finset.ssubset_iff_of_subset ?_ |>.2 ⟨x, ?_, ?_⟩)
  · intro y hy
    rw [Finset.mem_filter] at hy ⊢
    exact ⟨hy.1, .head hx hy.2⟩
  · exact Finset.mem_filter.2 ⟨Finset.mem_range.2 (h.child_lt hx), .single hx⟩
  · exact fun hy => h.acyclic x (Finset.mem_filter.1 hy).2

theorem Linked.exists_below (h : t.Linked) (p : Nat) : ∃ f : Forest Nat, f.roots = t.kids p ∧ f.Fits t.kids := by
  induction hn : t.countBelow p using Nat.strong_induction_on generalizing p with
  | _ n ih =>
    have hlist : ∀ l, l ⊆ t.kids p → ∃ f : Forest Nat, f.roots = l ∧ f.Fits t.kids := by
      intro l
      induction l with
      | nil => exact fun _ => ⟨.nil, rfl, trivial⟩
      | cons c l ihl =>
        intro hl
        have hc := hl List.mem_cons_self
        obtain ⟨b, hb, hbf⟩ := ih _ (hn ▸ h.countBelow_lt hc) c rfl
        obtain ⟨s, hs, hsf⟩ := ihl fun y hy => hl (List.mem_cons_of_mem _ hy)
        exact ⟨.node c b s, by rw [Forest.roots, hs], hb, hbf, hsf⟩
    exact hlist _ (List.Subset.refl _)

/-! ### The nodes of a forest -/

theorem below_of_mem_toList (hf : f.Fits t.kids) (hx : x ∈ f.toList) :
    ∃ r ∈ f.roots, ReflTransGen (Child t.kids) r x := by
  induction f with
  | nil => exact absurd hx List.not_mem_nil
  | node label below rest ihb ihr =>
    obtain ⟨hl, hb, hr⟩ := hf
    rcases List.mem_cons.1 hx with rfl | hx
    · exact ⟨x, List.mem_cons_self, .refl⟩
    rcases List.mem_append.1 hx with hx | hx
    · obtain ⟨c, hc, hcx⟩ := ihb hb hx
      rw [hl] at hc
      exact ⟨label, List.mem_cons_self, .head hc hcx⟩
    · obtain ⟨c, hc, hcx⟩ := ihr hr hx
      exact ⟨c, List.mem_cons_of_mem _ hc, hcx⟩

/-- Children of the nodes of a fitting forest are in the forest. -/
theorem mem_toList_of_child (hf : f.Fits t.kids) (hp : p ∈ f.toList) (hx : x ∈ t.kids p) : x ∈ f.toList := by
  induction f with
  | nil => exact absurd hp List.not_mem_nil
  | node label below rest ihb ihr =>
    obtain ⟨hl, hb, hr⟩ := hf
    refine List.mem_cons_of_mem _ (List.mem_append.2 ?_)
    rcases List.mem_cons.1 hp with rfl | hp
    · exact .inl (Forest.mem_toList_of_mem_roots (hl ▸ hx))
    · exact (List.mem_append.1 hp).imp (ihb hb) (ihr hr)

/-- The nodes of a forest that fits are its roots and all that is below them. -/
theorem mem_toList_iff (hf : f.Fits t.kids) :
    x ∈ f.toList ↔ ∃ r ∈ f.roots, ReflTransGen (Child t.kids) r x := by
  refine ⟨below_of_mem_toList hf, ?_⟩
  rintro ⟨r, hr, hx⟩
  induction hx with
  | refl => exact Forest.mem_toList_of_mem_roots hr
  | tail _ hc ih => exact mem_toList_of_child hf ih hc

/-- Of two nodes above a third one is above the other. -/
theorem Linked.comparable (h : t.Linked) {a b : Nat} (ha : ReflTransGen (Child t.kids) a x)
    (hb : ReflTransGen (Child t.kids) b x) :
    ReflTransGen (Child t.kids) a b ∨ ReflTransGen (Child t.kids) b a := by
  induction ha with
  | refl => exact .inr hb
  | @tail y x hay hyx ih =>
    rcases hb.cases_tail with rfl | ⟨z, hbz, hzx⟩
    · exact .inl (hay.tail hyx)
    · obtain rfl := h.separate.eq_of_mem hyx hzx
      exact ih hbz

/-- Siblings have no node below them in common. -/
theorem Linked.sibling_unique (h : t.Linked) {a b : Nat} (ha : a ∈ t.kids p) (hb : b ∈ t.kids p)
    (hax : ReflTransGen (Child t.kids) a x) (hbx : ReflTransGen (Child t.kids) b x) : a = b := by
  have hne : ∀ {a b}, a ∈ t.kids p → b ∈ t.kids p → ReflTransGen (Child t.kids) a b → a = b := by
    intro a b ha hb hab
    rcases hab.cases_tail with rfl | ⟨z, haz, hzb⟩
    · rfl
    · obtain rfl := h.separate.eq_of_mem hb hzb
      exact absurd (TransGen.head' ha haz) (h.acyclic p)
  rcases h.comparable hax hbx with hab | hba
  · exact hne ha hb hab
  · exact (hne hb ha hba).symm

/-- No node is twice in the forest of some children of one node. -/
theorem Linked.nodup_toList (h : t.Linked) (hf : f.Fits t.kids) (hp : f.roots ⊆ t.kids p)
    (hn : f.roots.Nodup) : f.toList.Nodup := by
  induction f generalizing p with
  | nil => exact List.nodup_nil
  | node label below rest ihb ihr =>
    obtain ⟨hl, hb, hr⟩ := hf
    obtain ⟨hnot, hn⟩ := List.nodup_cons.1 hn
    have hlp : label ∈ t.kids p := hp List.mem_cons_self
    have hrp : rest.roots ⊆ t.kids p := fun y hy => hp (List.mem_cons_of_mem _ hy)
    have hbelow : ∀ y ∈ below.toList, TransGen (Child t.kids) label y := by
      intro y hy
      obtain ⟨c, hc, hcy⟩ := below_of_mem_toList hb hy
      rw [hl] at hc
      exact .head' hc hcy
    -- a node of the other trees is below another sibling
    have hrest : ∀ y ∈ rest.toList, ¬ ReflTransGen (Child t.kids) label y := by
      intro y hy hly
      obtain ⟨c, hc, hcy⟩ := below_of_mem_toList hr hy
      exact hnot (h.sibling_unique hlp (hrp hc) hly hcy ▸ hc)
    refine List.nodup_cons.2 ⟨fun hm => ?_, List.nodup_append.2 ⟨?_, ihr hr hrp hn, ?_⟩⟩
    · rcases List.mem_append.1 hm with hm | hm
      · exact h.acyclic label (hbelow label hm)
      · exact hrest label hm .refl
    · exact ihb hb (fun y hy => hl ▸ hy) (hl ▸ h.nodup label)
    · rintro y hy z hz rfl
      exact hrest y hz (hbelow y hy).to_reflTransGen

theorem Linked.lt_of_mem_toList (h : t.Linked) (hf : f.Fits t.kids) (hp : f.roots ⊆ t.kids p)
    (hx : x ∈ f.toList) : x < t.size := by
  obtain ⟨r, hr, hrx⟩ := below_of_mem_toList hf hx
  rcases hrx.cases_tail with rfl | ⟨z, _, hz⟩
  · exact h.child_lt (hp hr)
  · exact h.child_lt hz

theorem Linked.size_le (h : t.Linked) (hf : f.Fits t.kids) (hp : f.roots ⊆ t.kids p) (hn : f.roots.Nodup) :
    f.size ≤ t.size := by
  have hsub : f.toList ⊆ List.range t.size := fun y hy => List.mem_range.2 (h.lt_of_mem_toList hf hp hy)
  have hle := ((h.nodup_toList hf hp hn).subperm hsub).length_le
  rwa [Forest.length_toList, List.length_range] at hle

/-! ### Computing the forest -/

theorem Linked.forestFrom_eq (h : t.Linked) (hf : f.Fits t.kids) {fuel : Nat} (hp : t.kids p = l ++ f.roots)
    (hs : f.size ≤ fuel) : t.forestFrom fuel f.roots.head? = f := by
  induction f generalizing fuel p l with
  | nil => cases fuel <;> rfl
  | node label below rest ihb ihr =>
    obtain ⟨hl, hb, hr⟩ := hf
    obtain _ | fuel := fuel
    · simp [Forest.size] at hs
    have hs' : below.size + rest.size ≤ fuel := Nat.le_of_succ_le_succ hs
    have hfirst : t.forestFrom fuel below.roots.head? = below :=
      ihb hb (hl.symm.trans (List.nil_append _).symm) (by omega)
    have hnext : t.forestFrom fuel rest.roots.head? = rest :=
      ihr hr (hp.trans (List.append_cons l label rest.roots)) (by omega)
    rw [Forest.roots, List.head?_cons, forestFrom, h.firstChild, ← hl, hfirst, h.nextSibling hp, hnext]

/-- `below` is the forest that fits. -/
theorem Linked.below_eq (h : t.Linked) (hf : f.Fits t.kids) (hp : f.roots = t.kids p) : t.below (some p) = f := by
  rw [below, h.firstChild, ← hp]
  refine h.forestFrom_eq hf (hp.symm.trans (List.nil_append _).symm) (h.size_le hf (fun x hx => hp ▸ hx) ?_)
  exact hp ▸ h.nodup p

theorem below_none (t : Tree) : t.below none = .nil := by
  rw [below]
  cases t.size <;> rfl

theorem Linked.below_spec (h : t.Linked) (p : Nat) :
    (t.below (some p)).roots = t.kids p ∧ (t.below (some p)).Fits t.kids := by
  obtain ⟨f, hr, hf⟩ := h.exists_below p
  rw [h.below_eq hf hr]
  exact ⟨hr, hf⟩

/-- What is below a node stays where the lists of this node and of all nodes below it stay. -/
theorem Linked.below_congr {u : Tree} (h : t.Linked) (hu : u.Linked)
    (hk : ∀ x, ReflTransGen (Child t.kids) p x → u.kids x = t.kids x) : u.below (some p) = t.below (some p) := by
  obtain ⟨hroots, hfits⟩ := h.below_spec p
  refine hu.below_eq (hfits.congr fun x hx => hk x ?_) (hroots.trans (hk p .refl).symm)
  obtain ⟨r, hr, hrx⟩ := below_of_mem_toList hfits hx
  rw [hroots] at hr
  exact .head hr hrx

end Tree

end RichText
