import RichText.Proofs.Tree.Splice
import RichText.Proofs.Tree.Writes

/-!
Renewing an element: a new element takes over its children and its place.

The edit never fails. The old element is left alone, in no list and without children.
-/

namespace RichText.Tree

open Effects
open Relation (TransGen ReflTransGen)

variable {t u : Tree} {p d : Nat} {l r : List Nat}

namespace Edit

theorem ofExcept_ok {f : Tree → Except TreeError Tree} (h : f t = .ok u) : ofExcept f t = (.ok (), u) := by
  rw [ofExcept, h]

/-- Puts `new` in the place of `old`, if that has one. -/
def succeed (old new : Ref) (t : Tree) : Except TreeError Tree :=
  if (t.parent old).isNone then .ok t else t.replaceChild (t.parent old) new old

/-- Puts a new element in the place of `old`, with the given attributes and the children of `old`. -/
def renew (namespaces : NamespaceTable) (old : Ref) (space name : String) (entries : List (String × Option String)) :
    Edit Nat := do
  let new ← createElement space name
  writeAttributes namespaces (some new) entries
  ofExcept (·.moveChildren old (some new))
  ofExcept (succeed old (some new))
  return new

end Edit

/-- The child lists after the new node `c` took over the children of `d`. -/
def handedOver (k : Nat → List Nat) (d c : Nat) : Nat → List Nat := setList (setList k d []) c (k d)

theorem handedOver_of_ne {k : Nat → List Nat} {c x : Nat} (hd : x ≠ d) (hc : x ≠ c) :
    handedOver k d c x = k x := by
  rw [handedOver, setList_of_ne _ hc, setList_of_ne _ hd]

theorem stood_of_handedOver {k : Nat → List Nat} {c q x : Nat} (h : x ∈ handedOver k d c q) :
    ∃ q', x ∈ k q' := by
  by_cases hqc : q = c
  · rw [hqc, handedOver, setList_self] at h
    exact ⟨d, h⟩
  · by_cases hqd : q = d
    · rw [hqd, handedOver, setList_of_ne _ (hqd ▸ hqc), setList_self] at h
      exact absurd h List.not_mem_nil
    · rw [handedOver_of_ne hqd hqc] at h
      exact ⟨q, h⟩

/-- What is below the node that took over the children of `d` was below `d`. -/
theorem below_of_handedOver {k : Nat → List Nat} {c x : Nat} (hc : ∀ q, c ∉ k q)
    (h : ReflTransGen (Child (handedOver k d c)) c x) : x = c ∨ ReflTransGen (Child k) d x := by
  induction h with
  | refl => exact .inl rfl
  | @tail y z hy hz ih =>
    refine .inr ?_
    rcases ih with rfl | ih
    · rw [Child, handedOver, setList_self] at hz
      exact .single hz
    · refine ih.tail ?_
      by_cases hyc : y = c
      · subst hyc
        rcases ih.cases_tail with rfl | ⟨w, _, hw⟩
        · rwa [Child, handedOver, setList_self] at hz
        · exact absurd hw (hc w)
      · by_cases hyd : y = d
        · rw [Child, hyd, handedOver, setList_of_ne _ (hyd ▸ hyc), setList_self] at hz
          exact absurd hz List.not_mem_nil
        · rwa [Child, handedOver_of_ne hyd hyc] at hz

/-- The new element takes over the children before it takes the place. -/
theorem Linked.handOver (h : t.Linked) (hd : d < t.size) (namespaces : NamespaceTable) (space name : String)
    (entries : List (String × Option String)) :
    ∃ u, u.Linked ∧ u.kids = handedOver t.kids d t.size ∧ u.size = t.size + 1 ∧
      (∀ x, u.kind? (some x) = if x = t.size then some .element else t.kind? (some x)) ∧
      Edit.renew namespaces (some d) space name entries t =
        (Edit.ofExcept (Edit.succeed (some d) (some t.size)) >>= fun _ => pure t.size) u := by
  obtain ⟨u, hu, hul, huk, hus, hukind⟩ := h.createElement space name
  have hkind : u.kind? (some t.size) = some .element := by rw [hukind, if_pos rfl]
  obtain ⟨⟨⟩, v, hv, hvs⟩ := Writes.writeAttributes namespaces hkind entries
  obtain ⟨hvl, hvk⟩ := hul.of_sameLinks hvs.toSameLinks
  have hfresh : ∀ q, t.size ∉ v.kids q := fun q hq => by
    rw [hvk, huk] at hq
    exact Nat.lt_irrefl _ (h.child_lt hq)
  have hnil : v.kids t.size = [] := by rw [hvk, huk, h.links.eq_nil_of_le (Nat.le_refl _)]
  have hsize : v.size = t.size + 1 := hvs.size.trans hus
  obtain ⟨w, hw, hwl, hwk, hws⟩ := hvl.moveChildren (q := t.size) (d := d) (by omega) hfresh (by omega)
  refine ⟨w, hwl, ?_, hws.size.trans hsize, fun x => ?_, ?_⟩
  · rw [hwk, hnil, List.nil_append, hvk, huk, handedOver]
  · rw [hws.kind, hvs.kind, hukind]
  · have hcreate : Edit.createElement space name t = (.ok t.size, u) := by
      rw [Edit.createElement, run_modifyGet, hu]
    rw [Edit.renew, bind_ok hcreate, bind_ok hv, bind_ok (Edit.ofExcept_ok hw)]

/-- Renewing an element that stands in no list. -/
theorem Linked.renew_of_orphan (h : t.Linked) (hd : d < t.size) (hnot : ∀ q, d ∉ t.kids q)
    (namespaces : NamespaceTable) (space name : String) (entries : List (String × Option String)) :
    ∃ u, Edit.renew namespaces (some d) space name entries t = (.ok t.size, u) ∧ u.Linked ∧
      u.kids = handedOver t.kids d t.size ∧ u.size = t.size + 1 ∧
      ∀ x, u.kind? (some x) = if x = t.size then some .element else t.kind? (some x) := by
  obtain ⟨u, hul, huk, hus, hukind, hu⟩ := h.handOver hd namespaces space name entries
  refine ⟨u, ?_, hul, huk, hus, hukind⟩
  have horphan : u.parent (some d) = none := hul.orphan_iff.2 fun q hq => by
    obtain ⟨q', hq'⟩ := stood_of_handedOver (huk ▸ hq)
    exact hnot q' hq'
  have hs : Edit.succeed (some d) (some t.size) u = .ok u := by
    rw [Edit.succeed, horphan, Option.isNone_none, if_pos rfl]
  rw [hu, bind_ok (Edit.ofExcept_ok hs), run_pure]

/-- Renewing an element exchanges it for the new one in the list in which it stands. -/
theorem Linked.renew (h : t.Linked) (hp : t.kids p = l ++ d :: r) (namespaces : NamespaceTable)
    (space name : String) (entries : List (String × Option String)) :
    ∃ u, Edit.renew namespaces (some d) space name entries t = (.ok t.size, u) ∧ u.Linked ∧
      u.kids = setList (handedOver t.kids d t.size) p (l ++ t.size :: r) ∧ u.size = t.size + 1 ∧
      ∀ x, u.kind? (some x) = if x = t.size then some .element else t.kind? (some x) := by
  have hdp : d ∈ t.kids p := hp ▸ by simp
  have hpc : p ≠ t.size := (h.parent_lt hdp).ne
  have hpd : p ≠ d := h.ne_of_child hdp
  obtain ⟨u, hul, huk, hus, hukind, hu⟩ := h.handOver (h.child_lt hdp) namespaces space name entries
  have hup : u.kids p = l ++ d :: r := by rw [huk, handedOver_of_ne hpd hpc, hp]
  have hfresh : ∀ q, t.size ∉ t.kids q := fun q hq => Nat.lt_irrefl _ (h.child_lt hq)
  have hcnot : ∀ q, t.size ∉ u.kids q := fun q hq => by
    obtain ⟨q', hq'⟩ := stood_of_handedOver (huk ▸ hq)
    exact hfresh q' hq'
  -- the parent is not below the new element, for it would have been below its own child
  have hcp : ¬ ReflTransGen (Child u.kids) t.size p := fun hcp => by
    rw [huk] at hcp
    rcases below_of_handedOver hfresh hcp with he | hdp'
    · exact hpc he
    · exact h.acyclic d (.tail' hdp' hdp)
  have hwk : without u.kids t.size = u.kids := without_eq_self hcnot
  obtain ⟨v, hv, hvl, hvk, hvs⟩ := hul.replaceChild (by omega) hcp ((congrFun hwk p).trans hup)
  refine ⟨v, ?_, hvl, by rw [hvk, hwk, huk], hvs.size.trans hus, fun x => by rw [hvs.kind, hukind]⟩
  have hpar : u.parent (some d) = some p := hul.parent_iff.2 (hup ▸ by simp)
  have hs : Edit.succeed (some d) (some t.size) u = .ok v := by
    rw [Edit.succeed, hpar, Option.isNone_some, if_neg Bool.false_ne_true, hv]
  rw [hu, bind_ok (Edit.ofExcept_ok hs), run_pure]

/-- Replacing a child of the document that is not the document element leaves the document element. -/
theorem documentElement_replaced {d' : Nat} (hl : t.kids 0 = l ++ d :: r)
    (hl' : u.kids 0 = l ++ d' :: r) (hk : ∀ x ∈ t.kids 0, u.kind? (some x) = t.kind? (some x))
    (he : t.kind? (some d) = some .element) (hd : t.documentElement ≠ some d) :
    u.documentElement = t.documentElement := by
  have hlist : t.children root = l ++ d :: r := hl
  have hlist' : u.children root = l ++ d' :: r := hl'
  rw [documentElement, hlist, List.find?_append] at hd
  rw [documentElement, documentElement, hlist, hlist', List.find?_append, List.find?_append]
  have hbefore : (l.find? fun x => u.kind? (some x) == some .element) =
      l.find? fun x => t.kind? (some x) == some .element :=
    List.find?_congr fun x hx => by rw [hk x (hl ▸ List.mem_append_left _ hx)]
  rw [hbefore]
  cases hf : l.find? fun x => t.kind? (some x) == some .element with
  | some y => rfl
  | none =>
    -- no element comes before the child, which is one itself
    exact absurd (by rw [hf, List.find?_cons_of_pos (by simp [he])]; rfl) hd

end RichText.Tree
