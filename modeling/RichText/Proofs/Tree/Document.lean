import RichText.Proofs.Pass.Reachable
import RichText.Proofs.Tree.Placing
import RichText.Proofs.Tree.Planted

/-!
The document as a node of its own tree.

Nothing but the check for ancestors keeps the document from being inserted, and that check only sees parents which
stand in the document. Below a node that was never inserted, or that was detached, the document can be put: it then has
a parent, and all that it holds stands below a node that is no document. As long as no call asks for this, the document
stands nowhere, and every call that asks for another place of it is refused.
-/

namespace RichText.Tree

open Effects
open Relation (ReflTransGen)

variable {t u : Tree} {x : Nat} {r parent child : Ref} {reference : Option Ref}

/-! ### Nodes without a parent -/

/-- Detaching gives no node a parent. -/
theorem orphan_of_detach (hu : t.detach r = .ok u) (hx : t.parent (some x) = none) : u.parent (some x) = none := by
  unfold Tree.detach at hu
  split at hu
  · cases hu
  rename_i n hn
  split at hu
  · cases hu
    exact hx
  · cases hu
    obtain ⟨c, rfl⟩ : ∃ c, r = some c := Option.ne_none_iff_exists'.1 (by rintro rfl; cases hn)
    obtain ⟨m, hm⟩ := exists_node? (t := t.join n.parent n.prev n.next) (by simpa using lt_of_node? hn)
    rw [parent_update hm, parent_join]
    split
    · rfl
    · exact hx

/-- Inserting gives a parent to the child alone. -/
theorem orphan_of_insertBefore (hu : t.insertBefore parent child reference = .ok u) (hc : child ≠ some x)
    (hx : t.parent (some x) = none) : u.parent (some x) = none := by
  obtain ⟨p, c, rfl, rfl, -, hlt, -⟩ := insertBefore_ok hu
  rcases insertBefore_cases hu with rfl | ⟨v, left, right, hv, rfl⟩
  · exact hx
  · rw [parent_link ((sameData_of_detach hv).size ▸ hlt), if_neg fun he => hc (congrArg some he)]
    exact orphan_of_detach hv hx

/-! ### Edits of other nodes -/

/-- The document is a node of the tree, and stands below none. -/
structure Rooted (t : Tree) : Prop where
  known : 0 < t.size
  parent : t.parent root = none

theorem rooted_empty : Tree.empty.Rooted := ⟨by decide, rfl⟩

namespace Rooted

theorem of_sameShape (h : t.Rooted) (hs : t.SameShape u) : u.Rooted :=
  ⟨hs.size.symm ▸ h.known, (hs.parent root).trans h.parent⟩

theorem writable : Writable Rooted where
  store {t} s h := h.of_sameShape (.symbols t (t.symbols.intern s).2)
  attributes {t} r new h := h.of_sameShape (.putAttributes t r new)

theorem push (h : t.Rooted) (data : NodeData Symbol) : (t.push data).2.Rooted :=
  ⟨size_push data ▸ Nat.succ_pos _, ((SameLinks.push t data).parent root).trans h.parent⟩

theorem detach (h : t.Rooted) (hu : t.detach r = .ok u) : u.Rooted :=
  ⟨(sameData_of_detach hu).size ▸ h.known, orphan_of_detach hu h.parent⟩

theorem removeChildren (h : t.Rooted) (hu : t.removeChildren r = .ok u) : u.Rooted :=
  invariant_foldlM (fun hu h => h.detach hu) hu h

theorem insertBefore (h : t.Rooted) (hu : t.insertBefore parent child reference = .ok u) (hc : child ≠ root) :
    u.Rooted :=
  ⟨(sameData_of_insertBefore hu).size ▸ h.known, orphan_of_insertBefore hu hc h.parent⟩

theorem replaceChild (h : t.Rooted) {new old : Ref} (hu : t.replaceChild parent new old = .ok u) (hn : new ≠ root) :
    u.Rooted := by
  unfold Tree.replaceChild at hu
  split_ifs at hu
  · cases hu
    exact h
  · obtain ⟨v, hv, hu⟩ := bind_eq_ok hu
    exact (h.insertBefore hv hn).detach hu

/-- The nodes of a copy are new ones, so that the document is not among them. -/
theorem copy (h : t.Rooted) (content : Content) : ∃ u, Edit.copy content t = (.ok t.size, u) ∧ u.Rooted := by
  obtain ⟨data, symbols, hu, -⟩ := Edit.copy_eq content t
  exact ⟨_, hu, (h.of_sameShape (.symbols t symbols)).push data⟩

theorem plant (parent : Ref) (forest : Forest Content) : Preserves Rooted (Edit.plant Edit.copy parent forest) := by
  induction forest generalizing parent with
  | nil => exact .pure ()
  | node content below rest ihb ihr =>
    intro t h
    obtain ⟨u, hu, hr⟩ := h.copy content
    have hne : some t.size ≠ root := fun he => h.known.ne' (Option.some.inj he)
    rw [Edit.plant, bind_ok hu]
    refine ((ihb (some t.size)).bind fun _ => ?_) u hr
    exact (preserves_ofExcept fun ht hv => ht.insertBefore hv hne).bind fun _ => ihr parent

theorem copyFrom (source : Tree) (r : Ref) : Preserves Rooted (Edit.copyFrom source r) := by
  unfold Edit.copyFrom
  split
  · exact .throw _
  · intro t h
    obtain ⟨u, hu, hr⟩ := h.copy _
    rw [bind_ok hu]
    exact ((plant _ _).bind fun _ => .pure _) u hr

end Rooted

/-! ### Calls that ask for a place of the document -/

/-- A node that does not stand in the document: it was never inserted there, or it or a node above it was detached. -/
def Loose (t : Tree) (r : Ref) : Prop := (t.node? r).isSome ∧ t.isAncestorOrSelf root r = false

instance (t : Tree) (r : Ref) : Decidable (t.Loose r) := inferInstanceAs (Decidable (_ ∧ _))

namespace Call

/-- The node below which a call asks for the document. -/
def seat? : Call → Option Ref
  | appendChild parent child => if child = root then some parent else none
  | insertBefore parent child _ => if child = root then some parent else none
  | replaceChild parent new _ => if new = root then some parent else none
  | _ => none

/-- The node before which a call asks for a child, or in whose place, is a child of the parent that the call names. -/
def Refers (t : Tree) : Call → Prop
  | insertBefore parent _ (some r) => t.parent r = parent
  | replaceChild parent _ old => t.parent old = parent
  | _ => True

end Call

/-- The document goes below loose nodes only. -/
theorem Rooted.insertBefore_root (h : t.Rooted)
    (hn : ¬ (t.Loose parent ∧ ∀ r, reference = some r → t.parent r = parent)) :
    ∃ e, t.insertBefore parent root reference = .error e := by
  obtain ⟨n, hroot⟩ := exists_node? h.known
  by_cases hp : (t.node? parent).isNone = true
  · exact ⟨.notFound parent, if_pos hp⟩
  by_cases ha : t.isAncestorOrSelf root parent = true
  · refine ⟨.hierarchy parent root, ?_⟩
    unfold Tree.insertBefore
    rw [if_neg hp, if_neg (by simp [root, hroot]), if_pos ha]
  obtain ⟨r, rfl, hr⟩ : ∃ r, reference = some r ∧ t.parent r ≠ parent := by
    by_contra hall
    refine hn ⟨⟨?_, Bool.eq_false_iff.2 ha⟩, fun r hr => ?_⟩
    · simpa [Option.isSome_iff_ne_none] using hp
    · by_contra hne
      exact hall ⟨r, hr, hne⟩
  refine ⟨.notAChild parent r, ?_⟩
  rw [Tree.insertBefore, if_neg hp, if_neg (by simp [root, hroot]), if_neg ha]
  exact if_pos hr

/-- A call that asks for the document below a node that is not loose, or that names a node which is no child of that
one, is refused. -/
theorem Rooted.refused (h : t.Rooted) {call : Call} (hs : call.seat? = some parent)
    (hn : ¬ (t.Loose parent ∧ call.Refers t)) : ∃ e, call.edit t = (.error e, t) := by
  have hinsert : ∀ {reference}, ¬ (t.Loose parent ∧ ∀ r, reference = some r → t.parent r = parent) →
      ∃ e, Edit.ofExcept (·.insertBefore parent root reference) t = (.error e, t) := fun hn => by
    obtain ⟨e, he⟩ := h.insertBefore_root hn
    exact ⟨e, Edit.ofExcept_error he⟩
  cases call with
  | appendChild p c =>
    obtain ⟨rfl, hp⟩ := Option.ite_none_right_eq_some.1 hs
    obtain rfl := Option.some.inj hp
    exact hinsert fun hl => hn ⟨hl.1, trivial⟩
  | insertBefore p c reference =>
    obtain ⟨rfl, hp⟩ := Option.ite_none_right_eq_some.1 hs
    obtain rfl := Option.some.inj hp
    refine hinsert fun hl => hn ⟨hl.1, ?_⟩
    cases reference with
    | none => trivial
    | some r => exact hl.2 r rfl
  | replaceChild p c old =>
    obtain ⟨rfl, hp⟩ := Option.ite_none_right_eq_some.1 hs
    obtain rfl := Option.some.inj hp
    have hreplace : ∀ {e}, t.replaceChild p root old = .error e →
        (Call.replaceChild p root old).edit t = (.error e, t) :=
      Edit.ofExcept_error (f := fun t => t.replaceChild p root old)
    by_cases hcheck : (p.isNone || t.parent old ≠ p) = true
    · exact ⟨.notAChild p old, hreplace (by rw [Tree.replaceChild, if_pos hcheck])⟩
    simp only [Bool.or_eq_true, decide_eq_true_eq, not_or, not_not] at hcheck
    -- the document is no child, so that it is not the old one
    have hne : root ≠ old := by
      rintro rfl
      exact hcheck.1 (by rw [← hcheck.2, h.parent]; rfl)
    obtain ⟨e, he⟩ : ∃ e, t.insertBefore p root (some old) = .error e :=
      h.insertBefore_root fun hl => hn ⟨hl.1, hcheck.2⟩
    refine ⟨e, hreplace ?_⟩
    rw [Tree.replaceChild, if_neg (by simpa using hcheck), if_neg hne, he]
    rfl
  | _ => cases hs

theorem mem_placeBefore (c : Nat) (y : Option Nat) (l : List Nat) : c ∈ placeBefore c y l := by
  induction l with
  | nil => exact List.mem_cons_self
  | cons z l ih =>
    rw [placeBefore]
    split
    · exact List.mem_cons_self
    · exact List.mem_cons_of_mem _ ih

/-- All other calls that ask for a place of the document give it the parent that they name. -/
theorem Rooted.accepted (h : t.Rooted) (hl : t.Linked) {call : Call} (hs : call.seat? = some parent)
    (hloose : t.Loose parent) (hr : call.Refers t) :
    ∃ u, call.edit t = (.ok (), u) ∧ u.parent root = parent := by
  obtain ⟨p, rfl⟩ : ∃ p, parent = some p := Option.ne_none_iff_exists'.1 (by rintro rfl; cases hloose.1)
  obtain ⟨n, hnode⟩ := Option.isSome_iff_exists.1 hloose.1
  have hp := lt_of_node? hnode
  have ha : ¬ ReflTransGen (Child t.kids) 0 p := fun ha =>
    Bool.eq_false_iff.1 hloose.2 ((hl.isAncestorOrSelf_iff hp).2 ha)
  have hchild : ∀ {r : Ref}, t.parent r = some p → ∃ y, r = some y ∧ y ≠ 0 ∧ y ∈ t.kids p := by
    intro r hr
    cases r with
    | none => cases hr
    | some y =>
      refine ⟨y, rfl, ?_, hl.parent_iff.1 hr⟩
      rintro rfl
      cases hr.symm.trans h.parent
  have hinsert : ∀ {m : Option Nat}, (∀ y, m = some y → y ≠ 0 ∧ y ∈ t.kids p) →
      ∃ u, Edit.ofExcept (·.insertBefore (some p) root (m.map some)) t = (.ok (), u) ∧ u.parent root = some p := by
    intro m hm
    obtain ⟨u, hu, hplaces⟩ := hl.places_of_insertBefore hp h.known ha hm
    exact ⟨u, Edit.ofExcept_ok hu, hplaces.linked.parent_iff.2 (hplaces.list ▸ mem_placeBefore _ _ _)⟩
  cases call with
  | appendChild q c =>
    obtain ⟨rfl, hq⟩ := Option.ite_none_right_eq_some.1 hs
    obtain rfl := Option.some.inj hq
    exact hinsert (m := none) fun y hy => nomatch hy
  | insertBefore q c reference =>
    obtain ⟨rfl, hq⟩ := Option.ite_none_right_eq_some.1 hs
    obtain rfl := Option.some.inj hq
    cases reference with
    | none => exact hinsert (m := none) fun y hy => nomatch hy
    | some r =>
      obtain ⟨y, rfl, hy⟩ := hchild hr
      exact hinsert (m := some y) fun z hz => Option.some.inj hz ▸ hy
  | replaceChild q c old =>
    obtain ⟨rfl, hq⟩ := Option.ite_none_right_eq_some.1 hs
    obtain rfl := Option.some.inj hq
    obtain ⟨y, rfl, hy0, hy⟩ := hchild hr
    obtain ⟨u, hu, hreplaces⟩ := hl.replaces_of_replaceChild hy h.known hy0.symm ha
    have hedit : (Call.replaceChild (some p) root (some y)).edit t = (.ok (), u) :=
      Edit.ofExcept_ok (f := fun t => t.replaceChild (some p) root (some y)) hu
    refine ⟨u, hedit, hreplaces.linked.parent_iff.2 ?_⟩
    rw [hreplaces.list]
    exact List.mem_map.2 ⟨y, (List.mem_erase_of_ne hy0).2 hy, exchange_self y 0⟩
  | _ => cases hs

/-! ### Trees in which the document stays where it is -/

/-- What calls make of an empty tree when none of them asks for the document below a loose node. -/
inductive Upright : Tree → Prop
  | empty : Upright empty
  | call {t : Tree} (h : Upright t) {call : Call} (hc : ∀ parent, call.seat? = some parent → ¬ t.Loose parent) :
    Upright (call.after t)

/-- A call either asks for a place of the document, and is then refused, or works on other nodes. -/
theorem Rooted.call (h : t.Rooted) {call : Call} (hc : ∀ parent, call.seat? = some parent → ¬ t.Loose parent) :
    (call.after t).Rooted := by
  cases hs : call.seat? with
  | some parent =>
    obtain ⟨e, he⟩ := h.refused hs fun hl => hc parent hs hl.1
    rw [Call.after, he]
    exact h
  | none =>
    have hne : ∀ {c p : Ref}, (if c = root then some p else none) = none → c ≠ root := fun hs hcr => by
      rw [if_pos hcr] at hs
      cases hs
    have hw := Rooted.writable.assignable
    cases call with
    | create data => exact h.push data
    | createElement space written =>
      exact ((Rooted.writable.at none).internName (.ofWritten space written) t h).push _
    | appendChild p c => exact preserves_ofExcept (fun ht hu => ht.insertBefore hu (hne hs)) t h
    | insertBefore p c reference => exact preserves_ofExcept (fun ht hu => ht.insertBefore hu (hne hs)) t h
    | replaceChild p new old => exact preserves_ofExcept (fun ht hu => ht.replaceChild hu (hne hs)) t h
    | detach node => exact preserves_ofExcept (fun ht hu => ht.detach hu) t h
    | removeChildren node => exact preserves_ofExcept (fun ht hu => ht.removeChildren hu) t h
    | copyFrom source node => exact (Rooted.copyFrom source node).discard t h
    | setAttribute element written value => exact (hw element).setAttribute written value t h
    | removeAttribute element written => exact ((hw element).removeAttribute written).discard t h
    | setAttributeNS element space written value => exact (hw element).setAttributeNS space written value t h
    | removeAttributeNS element space localPart => exact ((hw element).removeAttributeNS space localPart).discard t h
    | setText node content => exact preserves_ofExcept (fun ht hu => ht.of_sameShape (sameShape_of_setText hu)) t h

theorem Upright.rooted (h : t.Upright) : t.Rooted ∧ t.Linked := by
  induction h with
  | empty => exact ⟨rooted_empty, linked_empty⟩
  | call _ hc ih => exact ⟨ih.1.call hc, ih.2.call _⟩

/-- Where no call asked for the document below a loose node, the document has neither a parent nor siblings. A call that
asks for a place of it is then refused and leaves the tree as it is, unless the parent that it names is loose, and the
reference, if it names one, a child of that; in this one case the call gives the document a parent. -/
theorem document_stands_nowhere (h : t.Upright) :
    (t.parent root = none ∧ t.prevSibling root = none ∧ t.nextSibling root = none) ∧
      ∀ call parent, Call.seat? call = some parent →
        (¬ (t.Loose parent ∧ call.Refers t) → ∃ e, call.edit t = (.error e, t)) ∧
        (t.Loose parent → call.Refers t → ∃ u, call.edit t = (.ok (), u) ∧ u.parent root = parent) := by
  obtain ⟨hr, hl⟩ := h.rooted
  obtain ⟨hprev, hnext⟩ := hl.links.orphan hr.parent
  exact ⟨⟨hr.parent, hprev, hnext⟩, fun call parent hs => ⟨hr.refused hs, hr.accepted hl hs⟩⟩

/-- A paragraph in the document, and an element beside it that was not inserted. -/
def placedParagraph : List Call :=
  [.createElement "" "p", .createElement "" "b", .appendChild root (some 1), .appendChild (some 1) root]

theorem document_stands_nowhere_placedParagraph :
    let t := placedParagraph.foldl (fun t call => call.after t) .empty
    t.Upright ∧ t.parent root = none ∧ (∃ e, (Call.appendChild (some 1) root).edit t = (.error e, t)) ∧
      ∃ u, (Call.appendChild (some 2) root).edit t = (.ok (), u) ∧ u.parent root = some 2 := by
  intro t
  have ht : t.Upright := by
    refine .call (.call (.call (.call .empty ?_) ?_) ?_) ?_
    · exact fun parent hs => nomatch hs
    · exact fun parent hs => nomatch hs
    · exact fun parent hs => nomatch hs
    · rintro parent ⟨⟩
      decide +kernel
  obtain ⟨⟨hparent, -⟩, hcalls⟩ := document_stands_nowhere ht
  refine ⟨ht, hparent, (hcalls (.appendChild (some 1) root) (some 1) rfl).1 fun hl => ?_,
    (hcalls (.appendChild (some 2) root) (some 2) rfl).2 ?_ trivial⟩
  · exact absurd hl.1 (by decide +kernel)
  · decide +kernel

/-- An element that was just created is loose, so that the document goes below it. -/
theorem document_below_element :
    let t := (Call.createElement "" "a").after .empty
    let request := Call.appendChild (some 1) root
    (request.edit t).1 = .ok () ∧ (request.after t).parent root = some 1 := ⟨rfl, by decide +kernel⟩

end RichText.Tree
