import RichText.Proofs.Tree.Access
import RichText.Proofs.Tree.Check
import RichText.Proofs.Tree.Exchanged

/-!
Inserting and replacing children as operations on child lists.

`insertBefore` and `replaceChild` write links, and read some of them again after a node was detached. On child lists
each is one equation for the list of the parent and one for the other lists. Which calls are refused can be told from
the child lists, and a refused call has written nothing, even where it is made of two edits: a program that writes to
one tree step by step ends with the same tree.
-/

namespace RichText.Tree

open Effects
open Relation (ReflTransGen)

variable {t u v : Tree} {p c x : Nat} {l r : List Nat} {parent child new old : Ref} {reference : Option Ref}
  {e : TreeError}

/-! ### Lists with one more node -/

/-- The list with `c` right before `x`, or at its end where there is no `x`. -/
def placeBefore (c : Nat) (x : Option Nat) : List Nat → List Nat
  | [] => [c]
  | y :: l => if x = some y then c :: y :: l else y :: placeBefore c x l

theorem placeBefore_none (c : Nat) (l : List Nat) : placeBefore c none l = l ++ [c] := by
  induction l with
  | nil => rfl
  | cons y l ih => rw [placeBefore, if_neg (Option.some_ne_none y).symm, ih, List.cons_append]

theorem placeBefore_cut (h : x ∉ l) (c : Nat) (r : List Nat) :
    placeBefore c (some x) (l ++ x :: r) = l ++ c :: x :: r := by
  induction l with
  | nil => exact if_pos rfl
  | cons y l ih =>
    have hxy : some x ≠ some y := fun he => List.ne_of_not_mem_cons h (Option.some.inj he)
    rw [List.cons_append, placeBefore, if_neg hxy, ih (List.not_mem_of_not_mem_cons h), List.cons_append]

/-! ### Edits step by step -/

/-- A node of the arena can be detached. -/
theorem Has.detach (h : t.Has child) : ∃ u, t.detach child = .ok u := by
  obtain ⟨n, hn⟩ := h.exists_node?
  unfold Tree.detach
  rw [hn]
  dsimp only
  split_ifs
  · exact ⟨_, rfl⟩
  · exact ⟨_, rfl⟩

namespace Edit

/-- `insertBefore` as it is made by a program that has one tree and writes to it: what was written before a step
that is refused stays. -/
def insertInPlace (parent child : Ref) (reference : Option Ref) : Edit Unit := do
  let t ← get
  if (t.node? parent).isNone then throw (.notFound parent)
  else if (t.node? child).isNone then throw (.notFound child)
  else if t.isAncestorOrSelf child parent then throw (.hierarchy parent child)
  else
    match reference with
    | none => do
      ofExcept (·.detach child)
      modify fun t => t.link parent child (t.lastChild parent) none
    | some r =>
      if t.parent r ≠ parent then throw (.notAChild parent r)
      else if r = child then pure ()
      else do
        ofExcept (·.detach child)
        modify fun t => t.link parent child (t.prevSibling r) r

/-- `replaceChild` as it is made by such a program. -/
def replaceInPlace (parent new old : Ref) : Edit Unit := do
  let t ← get
  if parent.isNone || t.parent old ≠ parent then throw (.notAChild parent old)
  else if new = old then pure ()
  else do
    insertInPlace parent new (some old)
    ofExcept (·.detach old)

theorem ofExcept_error {f : Tree → Except TreeError Tree} (h : f t = .error e) : ofExcept f t = (.error e, t) := by
  rw [ofExcept, h]

/-- Where the second of two edits is not refused, both are refused together. -/
theorem ofExcept_bind {f g : Tree → Except TreeError Tree} (hg : ∀ u, f t = .ok u → ∃ v, g u = .ok v) :
    (ofExcept f >>= fun _ => ofExcept g) t = ofExcept (fun t => f t >>= g) t := by
  cases hf : f t with
  | error e =>
    have hfg : f t >>= g = .error e := by rw [hf]; rfl
    rw [bind_error (ofExcept_error hf), ofExcept_error hfg]
  | ok u =>
    obtain ⟨v, hv⟩ := hg u hf
    have hfg : f t >>= g = .ok v := by rw [hf]; exact hv
    rw [bind_ok (ofExcept_ok hf), ofExcept_ok hv, ofExcept_ok hfg]

theorem modify_eq_ofExcept (g : Tree → Tree) : (modify g : Edit Unit) = ofExcept fun t => .ok (g t) := rfl

/-- Whatever the tree is like, all checks of an insertion come before its first write. -/
theorem insertInPlace_eq (parent child : Ref) (reference : Option Ref) :
    insertInPlace parent child reference = ofExcept (·.insertBefore parent child reference) := by
  funext t
  rw [insertInPlace, bind_ok (run_get t), ofExcept]
  unfold insertBefore
  split_ifs
  · rfl
  · rfl
  · rfl
  · cases reference with
    | none =>
      dsimp only
      rw [modify_eq_ofExcept, ofExcept_bind fun u _ => ⟨_, rfl⟩]
      rfl
    | some r =>
      dsimp only
      split_ifs
      · rfl
      · rfl
      · rw [modify_eq_ofExcept, ofExcept_bind fun u _ => ⟨_, rfl⟩]
        rfl

/-- After an insertion before a node this node is still in the arena, so that detaching it is not refused. -/
theorem replaceInPlace_eq (parent new old : Ref) :
    replaceInPlace parent new old = ofExcept (·.replaceChild parent new old) := by
  funext t
  rw [replaceInPlace, bind_ok (run_get t), ofExcept]
  unfold replaceChild
  split_ifs with hparent
  · rfl
  · rfl
  · have hold : t.Has old := by
      simp only [Bool.or_eq_true, decide_eq_true_eq, not_or, not_not] at hparent
      exact has_of_parent fun he => hparent.1 (Option.isNone_iff_eq_none.2 (hparent.2.symm.trans he))
    rw [insertInPlace_eq, ofExcept_bind fun v hv => (hold.of_size (sameData_of_insertBefore hv).size).detach]
    rfl

end Edit

/-! ### Refusals -/

/-- The first node is the second one or one of its ancestors. -/
def AtOrAbove (t : Tree) (upper lower : Ref) : Prop :=
  ∃ a b, upper = some a ∧ lower = some b ∧ ReflTransGen (Child t.kids) a b

/-- The second node is in the child list of the first one. -/
def HasChild (t : Tree) (parent child : Ref) : Prop := ∃ p c, parent = some p ∧ child = some c ∧ c ∈ t.kids p

theorem Linked.isAncestorOrSelf_eq (h : t.Linked) (hc : t.Has child) (hp : t.Has parent) :
    t.isAncestorOrSelf child parent = true ↔ t.AtOrAbove child parent := by
  obtain ⟨c, -, rfl⟩ := hc
  obtain ⟨p, hp, rfl⟩ := hp
  rw [h.isAncestorOrSelf_iff hp]
  exact ⟨fun ha => ⟨c, p, rfl, rfl, ha⟩, by rintro ⟨_, _, ⟨⟩, ⟨⟩, ha⟩; exact ha⟩

theorem Linked.parent_eq_iff (h : t.Linked) : parent.isSome ∧ t.parent child = parent ↔ t.HasChild parent child := by
  constructor
  · rintro ⟨hp, hc⟩
    obtain ⟨p, rfl⟩ := Option.isSome_iff_exists.1 hp
    cases child with
    | none => cases hc
    | some c => exact ⟨p, c, rfl, rfl, h.parent_iff.1 hc⟩
  · rintro ⟨p, c, rfl, rfl, hc⟩
    exact ⟨rfl, h.parent_iff.2 hc⟩

theorem Linked.has_of_hasChild (h : t.Linked) (hc : t.HasChild parent child) : t.Has parent ∧ t.Has child := by
  obtain ⟨p, c, rfl, rfl, hc⟩ := hc
  exact ⟨⟨p, h.parent_lt hc, rfl⟩, ⟨c, h.child_lt hc, rfl⟩⟩

theorem node?_of_not_has (h : ¬ t.Has parent) : t.node? parent = none := by
  by_contra hn
  obtain ⟨n, hn⟩ := Option.ne_none_iff_exists'.1 hn
  exact h (has_of_node? hn)

/-- If an edit is refused for given reasons, and otherwise has a result, then it is refused for no other reason. -/
theorem error_iff_of_refused {α : Type} {result : Except TreeError α} {Refused : TreeError → Prop}
    (hr : ∀ e, Refused e → result = .error e) (hok : (∀ e, ¬ Refused e) → ∃ a, result = .ok a) (e : TreeError) :
    result = .error e ↔ Refused e := by
  refine ⟨fun he => ?_, hr e⟩
  by_contra hnot
  by_cases hex : ∃ e', Refused e'
  · obtain ⟨e', he'⟩ := hex
    obtain rfl := Except.error.inj (he.symm.trans (hr e' he'))
    exact hnot he'
  · obtain ⟨a, ha⟩ := hok fun e' he' => hex ⟨e', he'⟩
    exact nomatch he.symm.trans ha

/-- Why an insertion is refused: each reason counts where none of those before it holds. -/
inductive InsertionRefused (t : Tree) (parent child : Ref) : Option Ref → TreeError → Prop
  | parent {reference : Option Ref} (hp : ¬ t.Has parent) : InsertionRefused t parent child reference (.notFound parent)
  | child {reference : Option Ref} (hp : t.Has parent) (hc : ¬ t.Has child) :
    InsertionRefused t parent child reference (.notFound child)
  | hierarchy {reference : Option Ref} (hp : t.Has parent) (hc : t.Has child) (ha : t.AtOrAbove child parent) :
    InsertionRefused t parent child reference (.hierarchy parent child)
  | notAChild {r : Ref} (hp : t.Has parent) (hc : t.Has child) (ha : ¬ t.AtOrAbove child parent)
    (hr : ¬ t.HasChild parent r) : InsertionRefused t parent child (some r) (.notAChild parent r)

theorem Linked.insertBefore_of_refused (h : t.Linked) (he : t.InsertionRefused parent child reference e) :
    t.insertBefore parent child reference = .error e := by
  cases he with
  | parent hp => simp [Tree.insertBefore, node?_of_not_has hp]
  | child hp hc =>
    obtain ⟨m, hm⟩ := hp.exists_node?
    simp [Tree.insertBefore, hm, node?_of_not_has hc]
  | hierarchy hp hc ha =>
    obtain ⟨m, hm⟩ := hp.exists_node?
    obtain ⟨n, hn⟩ := hc.exists_node?
    simp [Tree.insertBefore, hm, hn, (h.isAncestorOrSelf_eq hc hp).2 ha]
  | @notAChild r hp hc ha hr =>
    obtain ⟨m, hm⟩ := hp.exists_node?
    obtain ⟨n, hn⟩ := hc.exists_node?
    have ha : t.isAncestorOrSelf child parent = false := by
      rwa [← Bool.not_eq_true, h.isAncestorOrSelf_eq hc hp]
    have hr : t.parent r ≠ parent := by
      obtain ⟨p, -, rfl⟩ := hp
      exact fun he => hr (h.parent_eq_iff.1 ⟨rfl, he⟩)
    simp [Tree.insertBefore, hm, hn, ha, hr]

/-! ### What an insertion does -/

/-- From `t` to `u` the node `c` came into the list of `p`, right before `x` or at its end. -/
structure Places (t : Tree) (p c : Nat) (x : Option Nat) (u : Tree) : Prop where
  linked : u.Linked
  data : t.SameData u
  list : u.kids p = placeBefore c x ((t.kids p).erase c)
  /-- From another list in which the node stood it goes. -/
  former : ∀ q, q ≠ p → c ∈ t.kids q → u.kids q = (t.kids q).erase c
  others : ∀ q, q ≠ p → c ∉ t.kids q → u.kids q = t.kids q

theorem Places.of_kids {m : Option Nat} (hl : u.Linked) (hd : t.SameData u)
    (hk : u.kids = setList (without t.kids c) p (placeBefore c m (without t.kids c p))) : t.Places p c m u where
  linked := hl
  data := hd
  list := by rw [hk, setList_self, without]
  former q hq _ := by rw [hk, setList_of_ne _ hq, without]
  others q hq hc := by rw [hk, setList_of_ne _ hq, without_of_not_mem hc]

/-- An insertion without a reference, or before another child of the parent. -/
theorem Linked.places_of_insertBefore (h : t.Linked) (hp : p < t.size) (hc : c < t.size)
    (ha : ¬ ReflTransGen (Child t.kids) c p) {m : Option Nat} (hm : ∀ y, m = some y → y ≠ c ∧ y ∈ t.kids p) :
    ∃ u, t.insertBefore (some p) (some c) (m.map some) = .ok u ∧ t.Places p c m u := by
  cases m with
  | none =>
    obtain ⟨u, hu, hul, huk, hus⟩ := h.appendChild hp hc ha
    exact ⟨u, hu, .of_kids hul hus (by rw [huk, placeBefore_none])⟩
  | some y =>
    obtain ⟨l, r, hl⟩ := List.append_of_mem (h.separate.mem_without_iff.2 (hm y rfl))
    have hy : y ∉ l := by
      have hn := (h.separate.erase c).nodup p
      rw [hl] at hn
      grind
    obtain ⟨u, hu, hul, huk, hus⟩ := h.insertBefore hc ha hl
    exact ⟨u, hu, .of_kids hul hus (by rw [huk, hl, placeBefore_cut hy])⟩

/-- Inserting before the child itself writes nothing. -/
theorem insertBefore_self (h : t.Linked) (hc : c ∈ t.kids p) :
    t.insertBefore (some p) (some c) (some (some c)) = .ok t := by
  obtain ⟨m, hm⟩ := exists_node? (h.parent_lt hc)
  obtain ⟨n, hn⟩ := exists_node? (h.child_lt hc)
  have ha : ¬ ReflTransGen (Child t.kids) c p := fun ha => h.acyclic p (.head' hc ha)
  simp [insertBefore, hm, hn, h.isAncestorOrSelf_eq_false ha, h.parent_iff.2 hc]

/-- Inserting is refused for the first reason that holds, and has then written nothing. Otherwise the child stands
right before the reference or at the end, and has gone from where it stood. -/
theorem insertBefore_lists (h : t.Linked) (parent child : Ref) (reference : Option Ref) :
    (∀ e, t.insertBefore parent child reference = .error e ↔ t.InsertionRefused parent child reference e) ∧
    (∀ e, t.InsertionRefused parent child reference e →
      Edit.insertInPlace parent child reference t = (.error e, t)) ∧
    ((∀ e, ¬ t.InsertionRefused parent child reference e) → ∃ p c u, parent = some p ∧ child = some c ∧
      t.insertBefore parent child reference = .ok u ∧ Edit.insertInPlace parent child reference t = (.ok (), u) ∧
      if reference = some child then u = t else t.Places p c reference.join u) ∧
    t.appendChild parent child = t.insertBefore parent child none := by
  have hok : (∀ e, ¬ t.InsertionRefused parent child reference e) → ∃ p c u, parent = some p ∧ child = some c ∧
      t.insertBefore parent child reference = .ok u ∧
      if reference = some child then u = t else t.Places p c reference.join u := by
    intro hnot
    have hparent : t.Has parent := by_contra fun hp => hnot _ (.parent hp)
    have hchild : t.Has child := by_contra fun hc => hnot _ (.child hparent hc)
    have habove : ¬ t.AtOrAbove child parent := fun ha => hnot _ (.hierarchy hparent hchild ha)
    obtain ⟨p, hp, rfl⟩ := hparent
    obtain ⟨c, hc, rfl⟩ := hchild
    have ha : ¬ ReflTransGen (Child t.kids) c p := fun ha => habove ⟨c, p, rfl, rfl, ha⟩
    obtain rfl | ⟨y, rfl, hy⟩ : reference = none ∨ ∃ y, reference = some (some y) ∧ y ∈ t.kids p := by
      cases reference with
      | none => exact .inl rfl
      | some r =>
        obtain ⟨_, y, ⟨⟩, rfl, hy⟩ : t.HasChild (some p) r :=
          by_contra fun hr => hnot _ (.notAChild ⟨p, hp, rfl⟩ ⟨c, hc, rfl⟩ habove hr)
        exact .inr ⟨y, rfl, hy⟩
    · obtain ⟨u, hu, hup⟩ := h.places_of_insertBefore hp hc ha (m := none) fun y hy => nomatch hy
      exact ⟨p, c, u, rfl, rfl, hu, hup⟩
    · by_cases hyc : y = c
      · subst hyc
        exact ⟨p, y, t, rfl, rfl, insertBefore_self h hy, by rw [if_pos rfl]⟩
      · obtain ⟨u, hu, hup⟩ := h.places_of_insertBefore hp hc ha (m := some y) fun z hz =>
          Option.some.inj hz ▸ ⟨hyc, hy⟩
        refine ⟨p, c, u, rfl, rfl, hu, ?_⟩
        rw [if_neg fun he => hyc (Option.some.inj (Option.some.inj he))]
        exact hup
  refine ⟨error_iff_of_refused (fun e => h.insertBefore_of_refused) fun hnot => ?_, fun e he => ?_, fun hnot => ?_, rfl⟩
  · obtain ⟨p, c, u, -, -, hu, -⟩ := hok hnot
    exact ⟨u, hu⟩
  · rw [Edit.insertInPlace_eq, Edit.ofExcept, h.insertBefore_of_refused he]
  · obtain ⟨p, c, u, hp, hc, hu, hul⟩ := hok hnot
    refine ⟨p, c, u, hp, hc, hu, ?_, hul⟩
    rw [Edit.insertInPlace_eq, Edit.ofExcept, hu]

/-- The comment of the sample goes before the element that it follows. -/
theorem insertBefore_lists_sample : sample.Linked ∧ ∃ u,
    sample.insertBefore (some 1) (some 4) (some (some 2)) = .ok u ∧ u.kids 1 = [4, 2] := by
  obtain ⟨-, -, hok, -⟩ := insertBefore_lists linked_sample (some 1) (some 4) (some (some 2))
  have hrun : ∃ u, sample.insertBefore (some 1) (some 4) (some (some 2)) = .ok u := ⟨_, rfl⟩
  have hnot : ∀ e, ¬ sample.InsertionRefused (some 1) (some 4) (some (some 2)) e := by
    intro e he
    obtain ⟨u, hu⟩ := hrun
    exact nomatch hu.symm.trans (linked_sample.insertBefore_of_refused he)
  obtain ⟨_, _, u, ⟨⟩, ⟨⟩, hu, -, hplaces⟩ := hok hnot
  rw [if_neg (by decide)] at hplaces
  have hkids : sample.kids 1 = [2, 4] := by decide
  refine ⟨linked_sample, u, hu, ?_⟩
  rw [hplaces.list, hkids]
  rfl

/-! ### What a replacement does -/

/-- Why a replacement is refused. -/
inductive ReplacementRefused (t : Tree) (parent new old : Ref) : TreeError → Prop
  | notAChild (ho : ¬ t.HasChild parent old) : ReplacementRefused t parent new old (.notAChild parent old)
  | unknown (ho : t.HasChild parent old) (hne : new ≠ old) (hn : ¬ t.Has new) :
    ReplacementRefused t parent new old (.notFound new)
  | hierarchy (ho : t.HasChild parent old) (hne : new ≠ old) (hn : t.Has new) (ha : t.AtOrAbove new parent) :
    ReplacementRefused t parent new old (.hierarchy parent new)

/-- From `t` to `u` the node `c` came in the place of `x` in the list of `p`. -/
structure Replaces (t : Tree) (p c x : Nat) (u : Tree) : Prop where
  linked : u.Linked
  data : t.SameData u
  list : u.kids p = ((t.kids p).erase c).map (exchange x c)
  detached : u.parent (some x) = none
  /-- The node that left keeps its children, without the new one if that was among them. -/
  own : u.kids x = (t.kids x).erase c
  others : ∀ q, q ≠ p → q ≠ x → u.kids q = (t.kids q).erase c

theorem replaceChild_of_ne {y : Nat} (hp : t.parent old = some y) (hne : new ≠ old) :
    t.replaceChild (some y) new old = t.insertBefore (some y) new (some old) >>= fun u => u.detach old := by
  simp [replaceChild, hp, hne]

theorem Linked.replaceChild_of_refused (h : t.Linked) (he : t.ReplacementRefused parent new old e) :
    t.replaceChild parent new old = .error e := by
  cases he with
  | notAChild ho =>
    rw [← h.parent_eq_iff] at ho
    have hcheck : (parent.isNone || t.parent old ≠ parent) = true := by
      simpa [or_iff_not_imp_left, Option.isSome_iff_ne_none] using ho
    rw [Tree.replaceChild, if_pos hcheck]
  | unknown ho hne hn =>
    have hparent := (h.has_of_hasChild ho).1
    have hins := h.insertBefore_of_refused (show t.InsertionRefused parent new (some old) _ from .child hparent hn)
    obtain ⟨p, x, rfl, rfl, hx⟩ := ho
    rw [replaceChild_of_ne (h.parent_iff.2 hx) hne, hins]
    rfl
  | hierarchy ho hne hn ha =>
    have hparent := (h.has_of_hasChild ho).1
    have hins := h.insertBefore_of_refused (show t.InsertionRefused parent new (some old) _ from .hierarchy hparent hn ha)
    obtain ⟨p, x, rfl, rfl, hx⟩ := ho
    rw [replaceChild_of_ne (h.parent_iff.2 hx) hne, hins]
    rfl

/-- Another node comes in the place of a child, wherever it stood. -/
theorem Linked.replaces_of_replaceChild (h : t.Linked) (hx : x ∈ t.kids p) (hc : c < t.size) (hcx : c ≠ x)
    (ha : ¬ ReflTransGen (Child t.kids) c p) :
    ∃ u, t.replaceChild (some p) (some c) (some x) = .ok u ∧ t.Replaces p c x u := by
  obtain ⟨l, r, hl⟩ := List.append_of_mem (h.separate.mem_without_iff.2 ⟨hcx.symm, hx⟩ : x ∈ without t.kids c p)
  obtain ⟨u, hu, hul, huk, hus⟩ := h.replaceChild hc ha hl
  have hxp : x ≠ p := fun he => h.not_child_self (he ▸ hx)
  refine ⟨u, hu, hul, hus, ?_, ?_, ?_, fun q hqp _ => ?_⟩
  · have hn := (h.separate.erase c).nodup p
    rw [hl] at hn
    rw [huk, setList_self, ← map_exchange_cut hn c, ← hl, without]
  · refine hul.orphan_iff.2 fun q hq => ?_
    rw [huk] at hq
    by_cases hqp : q = p
    · -- the list of the parent has no second place with the old node
      have hn := (h.separate.erase c).nodup p
      rw [hl] at hn
      rw [hqp, setList_self] at hq
      grind
    · rw [setList_of_ne _ hqp] at hq
      exact hqp (h.separate.eq_of_mem (mem_of_mem_without hq) hx)
  · rw [huk, setList_of_ne _ hxp, without]
  · rw [huk, setList_of_ne _ hqp, without]

/-- Replacing is refused where the old node is no child of the parent, or the new one cannot become one, and has then
written nothing. Otherwise the new node stands where the old one stood, which is detached. -/
theorem replaceChild_lists (h : t.Linked) (parent new old : Ref) :
    (∀ e, t.replaceChild parent new old = .error e ↔ t.ReplacementRefused parent new old e) ∧
    (∀ e, t.ReplacementRefused parent new old e → Edit.replaceInPlace parent new old t = (.error e, t)) ∧
    ((∀ e, ¬ t.ReplacementRefused parent new old e) → ∃ p c x u, parent = some p ∧ new = some c ∧ old = some x ∧
      t.replaceChild parent new old = .ok u ∧ Edit.replaceInPlace parent new old t = (.ok (), u) ∧
      if new = old then u = t else t.Replaces p c x u) := by
  have hok : (∀ e, ¬ t.ReplacementRefused parent new old e) → ∃ p c x u, parent = some p ∧ new = some c ∧
      old = some x ∧ t.replaceChild parent new old = .ok u ∧ if new = old then u = t else t.Replaces p c x u := by
    intro hnot
    have hold : t.HasChild parent old := by_contra fun ho => hnot _ (.notAChild ho)
    obtain ⟨p, x, rfl, rfl, hx⟩ := id hold
    by_cases hne : new = some x
    · subst hne
      refine ⟨p, x, x, t, rfl, rfl, rfl, ?_, by rw [if_pos rfl]⟩
      simp [Tree.replaceChild, h.parent_iff.2 hx]
    · have hnew : t.Has new := by_contra fun hn => hnot _ (.unknown hold hne hn)
      have habove : ¬ t.AtOrAbove new (some p) := fun ha => hnot _ (.hierarchy hold hne hnew ha)
      obtain ⟨c, hc, rfl⟩ := hnew
      have hcx : c ≠ x := fun he => hne (congrArg some he)
      obtain ⟨u, hu, hur⟩ := h.replaces_of_replaceChild hx hc hcx fun ha => habove ⟨c, p, rfl, rfl, ha⟩
      exact ⟨p, c, x, u, rfl, rfl, rfl, hu, by rwa [if_neg hne]⟩
  refine ⟨error_iff_of_refused (fun e => h.replaceChild_of_refused) fun hnot => ?_, fun e he => ?_, fun hnot => ?_⟩
  · obtain ⟨p, c, x, u, -, -, -, hu, -⟩ := hok hnot
    exact ⟨u, hu⟩
  · rw [Edit.replaceInPlace_eq, Edit.ofExcept, h.replaceChild_of_refused he]
  · obtain ⟨p, c, x, u, hp, hc, hx, hu, hul⟩ := hok hnot
    refine ⟨p, c, x, u, hp, hc, hx, hu, ?_, hul⟩
    rw [Edit.replaceInPlace_eq, Edit.ofExcept, hu]

/-- In the sample the text that is below the first element takes its place. -/
theorem replaceChild_lists_sample : sample.Linked ∧ ∃ u,
    sample.replaceChild (some 1) (some 3) (some 2) = .ok u ∧ u.kids 1 = [3, 4] ∧ u.kids 2 = [] := by
  obtain ⟨-, -, hok⟩ := replaceChild_lists linked_sample (some 1) (some 3) (some 2)
  have hrun : ∃ u, sample.replaceChild (some 1) (some 3) (some 2) = .ok u := ⟨_, rfl⟩
  have hnot : ∀ e, ¬ sample.ReplacementRefused (some 1) (some 3) (some 2) e := by
    intro e he
    obtain ⟨u, hu⟩ := hrun
    exact nomatch hu.symm.trans (linked_sample.replaceChild_of_refused he)
  obtain ⟨_, _, _, u, ⟨⟩, ⟨⟩, ⟨⟩, hu, -, hreplaces⟩ := hok hnot
  rw [if_neg (by decide)] at hreplaces
  have hkids : sample.kids 1 = [2, 4] ∧ sample.kids 2 = [3] := by decide
  refine ⟨linked_sample, u, hu, ?_, ?_⟩
  · rw [hreplaces.list, hkids.1]
    rfl
  · rw [hreplaces.own, hkids.2]
    rfl

end RichText.Tree
