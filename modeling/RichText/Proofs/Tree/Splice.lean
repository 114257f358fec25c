import RichText.Proofs.Tree.Below
import RichText.Proxy.Element

/-!
What moving whole child lists does: clearing a node, unwrapping it, handing its children to another node and
putting one node in the place of another.

Each of these is a loop over a child list or a pair of moves. None of them fails in a well-linked tree, and
what each leaves is given by the child lists of two or three nodes.
-/

namespace RichText.Tree

open Relation (TransGen ReflTransGen)

variable {t u : Tree} {k : Nat → List Nat} {p q c d : Nat} {l r : List Nat}

/-! ### Tables with a list exchanged -/

theorem setList_setList_self (l l' : List Nat) : setList (setList k p l) p l' = setList k p l' := by
  funext q
  by_cases hq : q = p <;> simp [setList, hq]

/-- Of writes at two nodes in turn the later ones count. -/
theorem setList_setList_of_ne (l l' m m' : List Nat) (h : p ≠ q) :
    setList (setList (setList (setList k p l) q l') p m) q m' = setList (setList k p m) q m' := by
  funext x
  by_cases hp : x = p <;> by_cases hq : x = q <;> simp [setList, hp, hq, h]

theorem setList_eq_self (l : List Nat) (h : k p = l) : setList k p l = k := by
  funext x
  by_cases hx : x = p
  · rw [hx, setList_self, h]
  · rw [setList_of_ne _ hx]

/-- A node that goes from a table goes from the one list it stands in. -/
theorem Separate.without_eq (h : Separate k) (hp : k p = l ++ c :: r) : without k c = setList k p (l ++ r) := by
  funext x
  by_cases hx : x = p
  · subst hx
    rw [without_of_eq (h.nodup x) hp, setList_self]
  · have hc : c ∉ k x := fun hm => hx (h.eq_of_mem hm (hp ▸ by simp))
    rw [without_of_not_mem hc, setList_of_ne _ hx]

theorem without_eq_self (h : ∀ q, c ∉ k q) : without k c = k := funext fun q => without_of_not_mem (h q)

/-! ### Clearing a node -/

theorem Linked.detachAll (h : t.Linked) (hp : t.kids p = l) :
    ∃ u, l.foldlM (fun t child => t.detach (some child)) t = .ok u ∧ u.Linked ∧
      u.kids = setList t.kids p [] ∧ t.SameData u := by
  induction l generalizing t with
  | nil => exact ⟨t, rfl, h, (setList_eq_self _ hp).symm, .refl t⟩
  | cons c l ih =>
    obtain ⟨u, hu, hul, huk, hus⟩ := h.detach (h.child_lt (hp ▸ List.mem_cons_self))
    rw [h.separate.without_eq (hp.trans (List.nil_append _).symm), List.nil_append] at huk
    obtain ⟨v, hv, hvl, hvk, hvs⟩ := ih hul (by rw [huk, setList_self])
    refine ⟨v, ?_, hvl, ?_, hus.trans hvs⟩
    · rw [List.foldlM_cons, hu]
      exact hv
    · rw [hvk, huk, setList_setList_self]

/-- Clearing a node empties its child list and nothing else. -/
theorem Linked.removeChildren (h : t.Linked) (p : Nat) :
    ∃ u, t.removeChildren (some p) = .ok u ∧ u.Linked ∧ u.kids = setList t.kids p [] ∧ t.SameData u :=
  h.detachAll rfl

/-! ### Unwrapping a node -/

/-- The loop of `unwrap`: the children `s` of `d` that are still to come go before it, one by one. -/
theorem Linked.insertAllBefore (h : t.Linked) {s : List Nat} (hp : t.kids p = l ++ d :: r)
    (hd : t.kids d = s) :
    ∃ u, s.foldlM (fun t child => t.insertBefore (some p) (some child) (some (some d))) t = .ok u ∧ u.Linked ∧
      u.kids = setList (setList t.kids d []) p (l ++ s ++ d :: r) ∧ t.SameData u := by
  have hpd : p ≠ d := h.ne_of_child (hp ▸ by simp)
  induction s generalizing t l with
  | nil =>
    refine ⟨t, rfl, h, ?_, .refl t⟩
    rw [setList_eq_self [] hd, List.append_nil, setList_eq_self _ hp]
  | cons c s ih =>
    have hcd : c ∈ t.kids d := hd ▸ List.mem_cons_self
    have hdp : d ∈ t.kids p := hp ▸ by simp
    have hcp : c ∉ t.kids p := fun hc => hpd (h.separate.eq_of_mem hc hcd)
    -- the next child can be inserted, since its grandparent is not below it
    have hup : ¬ ReflTransGen (Child t.kids) c p := fun hcp => h.acyclic c ((TransGen.tail' hcp hdp).tail hcd)
    have hwp : without t.kids c p = l ++ d :: r := (without_of_not_mem hcp).trans hp
    obtain ⟨u, hu, hul, huk, hus⟩ := h.insertBefore (h.child_lt hcd) hup hwp
    rw [h.separate.without_eq (hd.trans (List.nil_append _).symm), List.nil_append] at huk
    have hud : u.kids d = s := by rw [huk, setList_of_ne _ hpd.symm, setList_self]
    have hupp : u.kids p = (l ++ [c]) ++ d :: r := by rw [huk, setList_self, List.append_cons]
    obtain ⟨v, hv, hvl, hvk, hvs⟩ := ih hul hupp hud
    refine ⟨v, ?_, hvl, ?_, hus.trans hvs⟩
    · rw [List.foldlM_cons, hu]
      exact hv
    · rw [hvk, huk, setList_setList_of_ne _ _ _ _ hpd.symm]
      simp

/-- Unwrapping a node puts its children in its place and leaves it alone, without children. -/
theorem Linked.unwrap (h : t.Linked) (hp : t.kids p = l ++ d :: r) :
    ∃ u, t.unwrap (some d) = .ok u ∧ u.Linked ∧
      u.kids = setList (setList t.kids d []) p (l ++ t.kids d ++ r) ∧ t.SameData u := by
  have hdp : d ∈ t.kids p := hp ▸ by simp
  have hpar : t.parent (some d) = some p := h.parent_iff.2 hdp
  obtain ⟨u, hu, hul, huk, hus⟩ := h.insertAllBefore hp rfl
  obtain ⟨v, hv, hvl, hvk, hvs⟩ := hul.detach (hus.size ▸ h.child_lt hdp)
  have hup : u.kids p = (l ++ t.kids d) ++ d :: r := by rw [huk, setList_self]
  refine ⟨v, ?_, hvl, ?_, hus.trans hvs⟩
  · simp only [Tree.unwrap, hpar, Option.isNone_some, Bool.false_eq_true, if_false]
    rw [← Tree.kids, hu]
    exact hv
  · rw [hvk, hul.separate.without_eq hup, huk, setList_setList_self]

theorem unwrap_of_orphan (h : t.parent (some d) = none) : t.unwrap (some d) = .ok t := by
  simp [Tree.unwrap, h]

/-! ### Putting one node in the place of another -/

/-- The loop of `moveChildren`: the children `s` of `d` that are still to come go to the end of the list of
`q`, which stands in no list itself. -/
theorem Linked.appendAll (h : t.Linked) {s : List Nat} (hd : t.kids d = s) (hq : q < t.size)
    (hnot : ∀ x, q ∉ t.kids x) (hne : d ≠ q) :
    ∃ u, s.foldlM (fun t child => t.appendChild (some q) (some child)) t = .ok u ∧ u.Linked ∧
      u.kids = setList (setList t.kids d []) q (t.kids q ++ s) ∧ t.SameData u := by
  induction s generalizing t with
  | nil =>
    refine ⟨t, rfl, h, ?_, .refl t⟩
    rw [setList_eq_self [] hd, List.append_nil, setList_eq_self _ rfl]
  | cons c s ih =>
    have hcd : c ∈ t.kids d := hd ▸ List.mem_cons_self
    -- a node that stands in no list is below no node
    have hcq : ¬ ReflTransGen (Child t.kids) c q := by
      intro hcq
      rcases hcq.cases_tail with rfl | ⟨x, _, hx⟩
      · exact hnot d hcd
      · exact hnot x hx
    obtain ⟨u, hu, hul, huk, hus⟩ := h.appendChild hq (h.child_lt hcd) hcq
    have hunot : ∀ x, q ∉ u.kids x := by
      intro x hx
      rcases mem_setList_without (List.append_nil _).symm (huk ▸ hx) with hx | ⟨_, rfl⟩
      · exact hnot x hx
      · exact hcq .refl
    rw [h.separate.without_eq (hd.trans (List.nil_append _).symm), List.nil_append,
      setList_of_ne _ hne.symm] at huk
    have hud : u.kids d = s := by rw [huk, setList_of_ne _ hne, setList_self]
    have huq : u.kids q = t.kids q ++ [c] := by rw [huk, setList_self]
    obtain ⟨v, hv, hvl, hvk, hvs⟩ := ih hul hud (hus.size ▸ hq) hunot
    refine ⟨v, ?_, hvl, ?_, hus.trans hvs⟩
    · rw [List.foldlM_cons, hu]
      exact hv
    · rw [hvk, huq, huk, setList_setList_of_ne _ _ _ _ hne]
      simp

/-- A node that stands in no list takes over the children of another one. -/
theorem Linked.moveChildren (h : t.Linked) (hq : q < t.size) (hnot : ∀ x, q ∉ t.kids x) (hne : d ≠ q) :
    ∃ u, t.moveChildren (some d) (some q) = .ok u ∧ u.Linked ∧
      u.kids = setList (setList t.kids d []) q (t.kids q ++ t.kids d) ∧ t.SameData u :=
  h.appendAll rfl hq hnot hne

/-- A node takes the place of another one, and goes from where it stood. -/
theorem Linked.replaceChild (h : t.Linked) (hc : c < t.size) (hcp : ¬ ReflTransGen (Child t.kids) c p)
    (hp : without t.kids c p = l ++ d :: r) :
    ∃ u, t.replaceChild (some p) (some c) (some d) = .ok u ∧ u.Linked ∧
      u.kids = setList (without t.kids c) p (l ++ c :: r) ∧ t.SameData u := by
  obtain ⟨hdc, hdp⟩ := h.separate.mem_without_iff.1 (hp ▸ by simp : d ∈ without t.kids c p)
  obtain ⟨u, hu, hul, huk, hus⟩ := h.insertBefore hc hcp hp
  obtain ⟨v, hv, hvl, hvk, hvs⟩ := hul.detach (hus.size ▸ h.child_lt hdp)
  have hup : u.kids p = (l ++ [c]) ++ d :: r := by rw [huk, setList_self, List.append_cons]
  refine ⟨v, ?_, hvl, ?_, hus.trans hvs⟩
  · simp only [Tree.replaceChild, h.parent_iff.2 hdp, Option.isNone_some, ne_eq, not_true_eq_false, decide_false,
      Bool.or_false, Bool.false_eq_true, if_false, Option.some.injEq, Ne.symm hdc]
    rw [hu]
    exact hv
  · rw [hvk, hul.separate.without_eq hup, huk, setList_setList_self]
    simp

end RichText.Tree
