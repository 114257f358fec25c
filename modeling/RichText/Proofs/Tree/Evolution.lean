import RichText.Proofs.Tree.Splice
import RichText.Proofs.Tree.Writes

/-!
How a tree may change while some of its nodes are worked on.

`Evolves S` leaves all child lists outside `S` alone and moves no old node into a list that stood in none.
What is ahead in a child list is given by a forest, and `Turned` says that a forest ahead became another one
and that nothing else changed.
-/

namespace RichText.Tree

open Relation (TransGen ReflTransGen)

variable {t u v : Tree} {S S' : Set Nat} {p c x : Nat} {pre : List Nat} {f g g' : Forest Nat}

/-- From `t` to `u` the child lists of old nodes outside `S` stay, old nodes keep their kinds, all new nodes are
elements, and no old node comes to stand in a list that stood in none. -/
structure Evolves (S : Set Nat) (t u : Tree) : Prop where
  linked : u.Linked
  size : t.size ≤ u.size
  kind : ∀ {x}, x < t.size → u.kind? (some x) = t.kind? (some x)
  fresh : ∀ {x}, t.size ≤ x → x < u.size → u.kind? (some x) = some .element
  kids : ∀ {x}, x < t.size → x ∉ S → u.kids x = t.kids x
  stood : ∀ {q x}, x ∈ u.kids q → (∃ q', x ∈ t.kids q') ∨ t.size ≤ x

namespace Evolves

theorem refl (S : Set Nat) (h : t.Linked) : Evolves S t t :=
  ⟨h, Nat.le_refl _, fun _ => rfl, fun _ _ => by omega, fun _ _ => rfl, fun hx => .inl ⟨_, hx⟩⟩

theorem mono (h : Evolves S t u) (hS : S ⊆ S') : Evolves S' t u :=
  ⟨h.linked, h.size, h.kind, h.fresh, fun hx hn => h.kids hx fun hm => hn (hS hm), h.stood⟩

theorem trans (h : Evolves S t u) (h' : Evolves S' u v) (hS : ∀ x ∈ S', x < t.size → x ∈ S) : Evolves S t v where
  linked := h'.linked
  size := h.size.trans h'.size
  kind hx := (h'.kind (hx.trans_le h.size)).trans (h.kind hx)
  fresh {x} hge hlt := by
    by_cases hx : x < u.size
    · exact (h'.kind hx).trans (h.fresh hge hx)
    · exact h'.fresh (Nat.le_of_not_lt hx) hlt
  kids hx hn := (h'.kids (hx.trans_le h.size) fun hm => hn (hS _ hm hx)).trans (h.kids hx hn)
  stood hx := by
    rcases h'.stood hx with ⟨q, hq⟩ | hle
    · exact h.stood hq
    · exact .inr (h.size.trans hle)

/-- Only new data in nodes of the same kinds. -/
theorem of_sameShape (S : Set Nat) (h : t.Linked) (hs : t.SameShape u) : Evolves S t u := by
  obtain ⟨hu, hk⟩ := h.of_sameLinks hs.toSameLinks
  have hsize := hs.size
  exact ⟨hu, hs.size.ge, fun _ => hs.kind _, fun _ _ => by omega, fun _ _ => by rw [hk],
    fun hx => .inl ⟨_, hk ▸ hx⟩⟩

/-- Only moves of children between lists of `S`. -/
theorem of_sameData (hu : u.Linked) (hs : t.SameData u) (hk : ∀ x ∉ S, u.kids x = t.kids x)
    (hm : ∀ {q x}, x ∈ u.kids q → ∃ q', x ∈ t.kids q') : Evolves S t u := by
  have hsize := hs.size
  exact ⟨hu, hs.size.ge, fun _ => hs.kind _, fun _ _ => by omega, fun _ hx => hk _ hx, fun hx => .inl (hm hx)⟩

/-- A node in no list stays in no list. -/
theorem orphan (h : Evolves S t u) (hc : c < t.size) (hn : ∀ q, c ∉ t.kids q) (q : Nat) : c ∉ u.kids q := by
  intro hm
  rcases h.stood hm with ⟨q', hq⟩ | hle
  · exact hn q' hq
  · omega

end Evolves

/-! ### What is ahead in a child list -/

/-- The forest `f` stands in the child list of `p` after `pre`, up to the end of that list. -/
structure Ahead (t : Tree) (p : Nat) (pre : List Nat) (f : Forest Nat) : Prop where
  linked : t.Linked
  list : t.kids p = pre ++ f.roots
  fits : f.Fits t.kids

namespace Ahead

theorem roots_subset (h : t.Ahead p pre f) : f.roots ⊆ t.kids p := fun x hx => by
  rw [h.list]
  exact List.mem_append_right pre hx

theorem nodup (h : t.Ahead p pre f) : f.toList.Nodup := by
  refine h.linked.nodup_toList h.fits h.roots_subset ?_
  have hn := h.linked.nodup p
  rw [h.list] at hn
  exact hn.of_append_right

theorem lt (h : t.Ahead p pre f) (hx : x ∈ f.toList) : x < t.size :=
  h.linked.lt_of_mem_toList h.fits h.roots_subset hx

theorem lt_front (h : t.Ahead p pre (f ++ g)) (hx : x ∈ f.toList) : x < t.size :=
  h.lt (Forest.mem_toList_append.2 (.inl hx))

theorem lt_rest (h : t.Ahead p pre (f ++ g)) (hx : x ∈ g.toList) : x < t.size :=
  h.lt (Forest.mem_toList_append.2 (.inr hx))

theorem firstChild (h : t.Ahead p [] f) : t.firstChild (some p) = f.roots.head? := by
  rw [h.linked.firstChild, h.list, List.nil_append]

/-- The node in whose list a forest stands is not part of it. -/
theorem not_mem (h : t.Ahead p pre f) : p ∉ f.toList := by
  intro hm
  obtain ⟨r, hr, hrp⟩ := below_of_mem_toList h.fits hm
  exact h.linked.acyclic p (.head' (h.roots_subset hr) hrp)

/-- Every node of a forest ahead stands in some list. -/
theorem stands (h : t.Ahead p pre f) (hx : x ∈ f.toList) : ∃ q, x ∈ t.kids q := by
  obtain ⟨r, hr, hrx⟩ := below_of_mem_toList h.fits hx
  rcases hrx.cases_tail with rfl | ⟨q, _, hq⟩
  · exact ⟨p, h.roots_subset hr⟩
  · exact ⟨q, hq⟩

theorem size_le (h : t.Ahead p pre f) : f.size ≤ t.size := by
  refine h.linked.size_le h.fits h.roots_subset ?_
  have hn := h.linked.nodup p
  rw [h.list] at hn
  exact hn.of_append_right

/-- All that is below a node is ahead in its list. -/
theorem of_below (h : t.Linked) (p : Nat) : t.Ahead p [] (t.below (some p)) := by
  obtain ⟨hr, hf⟩ := h.below_spec p
  exact ⟨h, hr.symm, hf⟩

theorem below_eq (h : t.Ahead p [] f) : t.below (some p) = f := h.linked.below_eq h.fits h.list.symm

/-- A forest in a list that is not changed keeps its place if none of its nodes is. -/
theorem evolve (h : t.Ahead p pre f) (hu : Evolves S t u) (hp : u.kids p = pre ++ f.roots)
    (hf : ∀ x ∈ f.toList, x ∉ S) : u.Ahead p pre f :=
  ⟨hu.linked, hp, h.fits.congr fun x hx => hu.kids (h.lt hx) (hf x hx)⟩

end Ahead

/-- From `t` to `u` the forest `f` in the list of `p` after `pre` became `g`, of nodes of `f` and new ones, and
nothing but `p` and what was in `f` changed its children. -/
structure Turned (t : Tree) (p : Nat) (pre : List Nat) (f : Forest Nat) (u : Tree) (g : Forest Nat) : Prop where
  evolves : Evolves {x | x = p ∨ x ∈ f.toList} t u
  ahead : u.Ahead p pre g
  source : ∀ {x}, x ∈ g.toList → x ∈ f.toList ∨ t.size ≤ x
  size : g.size ≤ f.size

/-- The front of what is ahead stays there while the rest is worked on. -/
theorem Ahead.front_of_turned (h : t.Ahead p pre (f ++ g)) (hu : t.Turned p (pre ++ f.roots) g u g') :
    u.Ahead p pre (f ++ g') := by
  have hn := h.nodup
  rw [Forest.toList_append, List.nodup_append] at hn
  have hf : f.Fits u.kids := by
    refine (Forest.fits_append.1 h.fits).1.congr fun x hx => ?_
    have hmem : x ∈ (f ++ g).toList := Forest.mem_toList_append.2 (.inl hx)
    refine hu.evolves.kids (h.lt hmem) ?_
    rintro (rfl | hg)
    · exact h.not_mem hmem
    · exact hn.2.2 x hx x hg rfl
  refine ⟨hu.ahead.linked, ?_, Forest.fits_append.2 ⟨hf, hu.ahead.fits⟩⟩
  rw [hu.ahead.list, Forest.roots_append, List.append_assoc]

/-- What is ahead after the front of it. -/
theorem Ahead.after (h : t.Ahead p pre (f ++ g)) : t.Ahead p (pre ++ f.roots) g :=
  ⟨h.linked, by rw [h.list, Forest.roots_append, List.append_assoc], (Forest.fits_append.1 h.fits).2⟩

theorem Turned.refl (h : t.Ahead p pre f) : t.Turned p pre f t f :=
  ⟨.refl _ h.linked, h, .inl, Nat.le_refl _⟩

end RichText.Tree
