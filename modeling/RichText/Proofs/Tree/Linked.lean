import Mathlib
import RichText.Tree.Links

/-!
Links of a tree and the child lists they stand for.

A *table* `k` gives every node its child list. `LinkedAs t k` says that the five links of each node are those
of `k`: wherever a list is cut in two, the last node before the cut and the first one after it point to each
other, and the two ends of the list are what the parent points to. Detaching a node takes it out of its list,
and linking one puts it between its two neighbours.
-/

namespace RichText.Tree

variable {t u : Tree}

/-! ### Reading after a write -/

theorem node?_eq_none_iff {x : Nat} : t.node? (some x) = none ↔ t.size ≤ x := by
  simp [node?, size]

theorem exists_node? {x : Nat} (hx : x < t.size) : ∃ n, t.node? (some x) = some n := by
  rw [← Option.ne_none_iff_exists', ne_eq, node?_eq_none_iff]
  omega

@[simp] theorem size_update (r : Ref) (f : Node → Node) : (t.update r f).size = t.size := by
  cases r <;> simp [update, size]

@[simp] theorem symbols_update (r : Ref) (f : Node → Node) : (t.update r f).symbols = t.symbols := by
  cases r <;> simp [update]

theorem node?_update (r : Ref) (f : Node → Node) (x : Nat) :
    (t.update r f).node? (some x) = if r = some x then (t.node? (some x)).map f else t.node? (some x) := by
  cases r <;> simp [update, node?, Array.getElem?_modify]

@[simp] theorem size_join (p left right : Ref) : (t.join p left right).size = t.size := by
  cases left <;> cases right <;> simp [join]

@[simp] theorem symbols_join (p left right : Ref) : (t.join p left right).symbols = t.symbols := by
  cases left <;> cases right <;> simp [join]

theorem node?_join (p left right : Ref) (x : Nat) :
    (t.join p left right).node? (some x) = (t.node? (some x)).map fun n =>
      { n with
        next := if left = some x then right else n.next
        first := if left = none ∧ p = some x then right else n.first
        prev := if right = some x then left else n.prev
        last := if right = none ∧ p = some x then left else n.last } := by
  rcases hn : t.node? (some x) with _ | n <;>
    cases left <;> cases right <;> simp [join, node?_update, hn] <;> split_ifs <;> simp_all

theorem parent_join (p left right : Ref) (x : Nat) :
    (t.join p left right).parent (some x) = t.parent (some x) := by
  rw [parent, parent, node?_join]
  cases t.node? (some x) <;> rfl

theorem parent_update {c : Nat} {f : Node → Node} {n : Node} (hn : t.node? (some c) = some n) (x : Nat) :
    (t.update (some c) f).parent (some x) = if c = x then (f n).parent else t.parent (some x) := by
  rw [parent, parent, node?_update]
  by_cases hx : c = x
  · subst hx
    simp [hn]
  · simp [hx]

theorem siblings_join {p left right : Ref} {x : Nat} (hl : left ≠ some x) (hr : right ≠ some x) :
    (t.join p left right).prevSibling (some x) = t.prevSibling (some x) ∧
      (t.join p left right).nextSibling (some x) = t.nextSibling (some x) := by
  cases hn : t.node? (some x) <;> simp [prevSibling, nextSibling, node?_join, hn, hl, hr]

theorem siblings_update {c x : Nat} {f : Node → Node} (hx : c ≠ x) :
    (t.update (some c) f).prevSibling (some x) = t.prevSibling (some x) ∧
      (t.update (some c) f).nextSibling (some x) = t.nextSibling (some x) := by
  simp [prevSibling, nextSibling, node?_update, hx]

/-! ### Trees that differ in links alone -/

/-- `u` holds the same nodes as `t`; only their links may differ. -/
structure SameData (t u : Tree) : Prop where
  size : u.size = t.size
  data : ∀ r, u.data? r = t.data? r
  symbols : u.symbols = t.symbols

theorem SameData.refl (t : Tree) : t.SameData t := ⟨rfl, fun _ => rfl, rfl⟩

theorem SameData.trans {v : Tree} (h : t.SameData u) (h' : u.SameData v) : t.SameData v :=
  ⟨h'.size.trans h.size, fun r => (h'.data r).trans (h.data r), h'.symbols.trans h.symbols⟩

theorem SameData.kind (h : t.SameData u) (r : Ref) : u.kind? r = t.kind? r := by
  rw [kind?, kind?, h.data]

theorem SameData.update (r : Ref) {f : Node → Node} (hf : ∀ n, (f n).data = n.data) :
    t.SameData (t.update r f) := by
  refine ⟨size_update r f, fun r' => ?_, symbols_update r f⟩
  cases r' with
  | none => rfl
  | some x =>
    rw [data?, data?, node?_update]
    split
    · cases t.node? (some x) <;> simp [hf]
    · rfl

theorem SameData.join (p left right : Ref) : t.SameData (t.join p left right) := by
  refine ⟨size_join p left right, fun r => ?_, symbols_join p left right⟩
  cases r with
  | none => rfl
  | some x =>
    rw [data?, data?, node?_join]
    cases t.node? (some x) <;> simp

/-! ### Tables of child lists -/

/-- No node is in two places of a table. -/
structure Separate (k : Nat → List Nat) : Prop where
  nodup : ∀ p, (k p).Nodup
  eq_of_mem : ∀ {p q c : Nat}, c ∈ k p → c ∈ k q → p = q

variable {k : Nat → List Nat}

/-- Cuts of a list without repetitions that have the same last node before them are the same. -/
theorem cut_eq_of_getLast? {l r l' r' : List Nat} (hn : (l ++ r).Nodup) (h : l ++ r = l' ++ r')
    (he : l.getLast? = l'.getLast?) : l = l' := by
  rcases List.append_eq_append_iff.1 h with ⟨m, rfl, rfl⟩ | ⟨m, rfl, rfl⟩ <;>
    rcases m.eq_nil_or_concat with rfl | ⟨m, x, rfl⟩ <;> simp_all <;> grind [List.mem_of_getLast?]

/-- Cuts of a list without repetitions that have the same first node after them are the same. -/
theorem cut_eq_of_head? {l r l' r' : List Nat} (hn : (l ++ r).Nodup) (h : l ++ r = l' ++ r')
    (he : r.head? = r'.head?) : l = l' := by
  rcases List.append_eq_append_iff.1 h with ⟨m, rfl, rfl⟩ | ⟨m, rfl, rfl⟩ <;>
    cases m <;> simp_all <;> grind [List.mem_of_head?]

/-- Cuts anywhere in a table that share their left end are the same, unless that is the end of two lists. -/
theorem Separate.cut_of_left (h : Separate k) {p q : Nat} {l r l' r' : List Nat} (hp : k p = l ++ r)
    (hq : k q = l' ++ r') (he : l.getLast? = l'.getLast?) :
    (l.getLast? = none ∧ p ≠ q) ∨ (p = q ∧ l = l') := by
  by_cases hpq : p = q
  · subst hpq
    exact .inr ⟨rfl, cut_eq_of_getLast? (hp ▸ h.nodup p) (hp.symm.trans hq) he⟩
  · refine .inl ⟨?_, hpq⟩
    by_contra hx
    obtain ⟨x, hx⟩ := Option.ne_none_iff_exists'.1 hx
    have hxp : x ∈ k p := hp ▸ List.mem_append_left r (List.mem_of_getLast? hx)
    have hxq : x ∈ k q := hq ▸ List.mem_append_left r' (List.mem_of_getLast? (he ▸ hx))
    exact hpq (h.eq_of_mem hxp hxq)

theorem Separate.cut_of_right (h : Separate k) {p q : Nat} {l r l' r' : List Nat} (hp : k p = l ++ r)
    (hq : k q = l' ++ r') (he : r.head? = r'.head?) :
    (r.head? = none ∧ p ≠ q) ∨ (p = q ∧ l = l') := by
  by_cases hpq : p = q
  · subst hpq
    exact .inr ⟨rfl, cut_eq_of_head? (hp ▸ h.nodup p) (hp.symm.trans hq) he⟩
  · refine .inl ⟨?_, hpq⟩
    by_contra hx
    obtain ⟨x, hx⟩ := Option.ne_none_iff_exists'.1 hx
    have hxp : x ∈ k p := hp ▸ List.mem_append_right l (List.mem_of_head? hx)
    have hxq : x ∈ k q := hq ▸ List.mem_append_right l' (List.mem_of_head? (he ▸ hx))
    exact hpq (h.eq_of_mem hxp hxq)

/-- The table without a node. -/
def without (k : Nat → List Nat) (c : Nat) : Nat → List Nat := fun p => (k p).erase c

theorem without_of_not_mem {c p : Nat} (h : c ∉ k p) : without k c p = k p := List.erase_of_not_mem h

theorem without_of_eq {c p : Nat} {l r : List Nat} (hn : (k p).Nodup) (h : k p = l ++ c :: r) :
    without k c p = l ++ r := by
  have hc : c ∉ l := by
    rw [h] at hn
    grind
  rw [without, h, List.erase_append_right _ hc, List.erase_cons_head]

theorem mem_of_mem_without {c p x : Nat} (h : x ∈ without k c p) : x ∈ k p := List.mem_of_mem_erase h

theorem Separate.erase (h : Separate k) (c : Nat) : Separate (without k c) :=
  ⟨fun p => (h.nodup p).erase c,
    fun hp hq => h.eq_of_mem (mem_of_mem_without hp) (mem_of_mem_without hq)⟩

theorem Separate.mem_without_iff (h : Separate k) {c p x : Nat} : x ∈ without k c p ↔ x ≠ c ∧ x ∈ k p :=
  (h.nodup p).mem_erase_iff

theorem Separate.not_mem_without (h : Separate k) (c p : Nat) : c ∉ without k c p :=
  (h.nodup p).not_mem_erase

/-- The table with the child list `l` at `p`. -/
def setList (k : Nat → List Nat) (p : Nat) (l : List Nat) : Nat → List Nat := fun q => if q = p then l else k q

@[simp] theorem setList_self (p : Nat) (l : List Nat) : setList k p l p = l := by simp [setList]

theorem setList_of_ne {p q : Nat} (l : List Nat) (h : q ≠ p) : setList k p l q = k q := by simp [setList, h]

theorem Separate.insert (h : Separate k) {p c : Nat} {l r : List Nat} (hp : k p = l ++ r)
    (hc : ∀ q, c ∉ k q) : Separate (setList k p (l ++ c :: r)) := by
  have hmem : ∀ {q x}, x ∈ setList k p (l ++ c :: r) q → (x = c ∧ q = p) ∨ x ∈ k q := by
    intro q x hx
    by_cases hq : q = p
    · subst hq
      rw [setList_self] at hx
      rw [hp]
      grind
    · rw [setList_of_ne _ hq] at hx
      exact .inr hx
  constructor
  · intro q
    by_cases hq : q = p
    · subst hq
      have hn := h.nodup q
      have hcq := hc q
      rw [hp] at hn hcq
      rw [setList_self]
      grind
    · rw [setList_of_ne _ hq]
      exact h.nodup q
  · intro q q' x hx hx'
    rcases hmem hx with ⟨rfl, rfl⟩ | hq <;> rcases hmem hx' with ⟨hxc, rfl⟩ | hq'
    · rfl
    · exact absurd hq' (hc q')
    · exact absurd (hxc ▸ hq) (hc q)
    · exact h.eq_of_mem hq hq'

/-! ### Links that stand for a table -/

/-- `left` and `right` are neighbours among the children of `p`, where `none` is an end of the list. -/
def Joined (t : Tree) (p : Nat) (left right : Ref) : Prop :=
  (match left with | some x => t.nextSibling (some x) | none => t.firstChild (some p)) = right ∧
  (match right with | some y => t.prevSibling (some y) | none => t.lastChild (some p)) = left

/-- The links of `t` are those of the child lists `k`. -/
structure LinkedAs (t : Tree) (k : Nat → List Nat) : Prop where
  joined : ∀ {p : Nat} {l r : List Nat}, k p = l ++ r → t.Joined p l.getLast? r.head?
  parent : ∀ {p c : Nat}, t.parent (some c) = some p ↔ c ∈ k p
  orphan : ∀ {c : Nat}, t.parent (some c) = none →
    t.prevSibling (some c) = none ∧ t.nextSibling (some c) = none
  nodup : ∀ p, (k p).Nodup

namespace LinkedAs

variable {p c : Nat} {l r : List Nat}

theorem separate (h : t.LinkedAs k) : Separate k := by
  refine ⟨h.nodup, fun hp hq => ?_⟩
  have he := (h.parent.2 hp).symm.trans (h.parent.2 hq)
  exact Option.some.inj he

theorem firstChild (h : t.LinkedAs k) (p : Nat) : t.firstChild (some p) = (k p).head? :=
  (h.joined (List.nil_append (k p)).symm).1

theorem lastChild (h : t.LinkedAs k) (p : Nat) : t.lastChild (some p) = (k p).getLast? :=
  (h.joined (List.append_nil (k p)).symm).2

theorem nextSibling (h : t.LinkedAs k) (hp : k p = l ++ c :: r) : t.nextSibling (some c) = r.head? := by
  have hj := (h.joined (hp.trans (List.append_cons l c r))).1
  simpa using hj

theorem prevSibling (h : t.LinkedAs k) (hp : k p = l ++ c :: r) : t.prevSibling (some c) = l.getLast? :=
  (h.joined hp).2

theorem child_lt (h : t.LinkedAs k) (hc : c ∈ k p) : c < t.size := by
  by_contra hn
  have hp := h.parent.2 hc
  simp [Tree.parent, node?_eq_none_iff.2 (Nat.le_of_not_lt hn)] at hp

theorem parent_lt (h : t.LinkedAs k) (hc : c ∈ k p) : p < t.size := by
  by_contra hn
  have hf := h.firstChild p
  simp only [Tree.firstChild, node?_eq_none_iff.2 (Nat.le_of_not_lt hn), Option.bind_none] at hf
  rw [List.head?_eq_none_iff.1 hf.symm] at hc
  exact absurd hc List.not_mem_nil

theorem eq_nil_of_le (h : t.LinkedAs k) (hp : t.size ≤ p) : k p = [] := by
  refine List.eq_nil_iff_forall_not_mem.2 fun c hc => ?_
  have := h.parent_lt hc
  omega

end LinkedAs

/-- Links that are read alike are joined alike. -/
theorem Joined.congr {p : Nat} {left right : Ref} (h : t.Joined p left right)
    (hnext : ∀ x, left = some x → u.nextSibling (some x) = t.nextSibling (some x))
    (hfirst : left = none → u.firstChild (some p) = t.firstChild (some p))
    (hprev : ∀ x, right = some x → u.prevSibling (some x) = t.prevSibling (some x))
    (hlast : right = none → u.lastChild (some p) = t.lastChild (some p)) : u.Joined p left right := by
  cases left <;> cases right <;> simp_all [Joined]

theorem Joined.update_of_ne {p c : Nat} {left right : Ref} {f : Node → Node} (h : t.Joined p left right)
    (hl : left ≠ some c) (hr : right ≠ some c) (hf : ∀ n, (f n).first = n.first ∧ (f n).last = n.last) :
    (t.update (some c) f).Joined p left right := by
  refine h.congr ?_ ?_ ?_ ?_
  · rintro x rfl
    have hx : c ≠ x := fun e => hl (by rw [e])
    simp [nextSibling, node?_update, hx]
  · rintro rfl
    by_cases hx : c = p <;> cases hn : t.node? (some p) <;> simp [firstChild, node?_update, hx, hn, hf]
  · rintro x rfl
    have hx : c ≠ x := fun e => hr (by rw [e])
    simp [prevSibling, node?_update, hx]
  · rintro rfl
    by_cases hx : c = p <;> cases hn : t.node? (some p) <;> simp [lastChild, node?_update, hx, hn, hf]

theorem Joined.join_of_ne {p q : Nat} {left right l r : Ref} (h : t.Joined p left right)
    (hl : l = left → l = none ∧ q ≠ p) (hr : r = right → r = none ∧ q ≠ p) :
    (t.join (some q) l r).Joined p left right := by
  refine h.congr ?_ ?_ ?_ ?_
  · rintro x rfl
    have hx : l ≠ some x := fun e => by simpa [e] using hl e
    cases hn : t.node? (some x) <;> simp [nextSibling, node?_join, hn, hx]
  · rintro rfl
    have hx : ¬ (l = none ∧ q = p) := fun ⟨e, e'⟩ => (hl e).2 e'
    cases hn : t.node? (some p) <;> simp [firstChild, node?_join, hn, hx]
  · rintro x rfl
    have hx : r ≠ some x := fun e => by simpa [e] using hr e
    cases hn : t.node? (some x) <;> simp [prevSibling, node?_join, hn, hx]
  · rintro rfl
    have hx : ¬ (r = none ∧ q = p) := fun ⟨e, e'⟩ => (hr e).2 e'
    cases hn : t.node? (some p) <;> simp [lastChild, node?_join, hn, hx]

theorem joined_join {p : Nat} {left right : Ref} (hp : p < t.size) (hl : ∀ x, left = some x → x < t.size)
    (hr : ∀ x, right = some x → x < t.size) : (t.join (some p) left right).Joined p left right := by
  obtain ⟨n, hn⟩ := exists_node? hp
  constructor
  · cases left with
    | none => simp [firstChild, node?_join, hn]
    | some x =>
      obtain ⟨m, hm⟩ := exists_node? (hl x rfl)
      simp [nextSibling, node?_join, hm]
  · cases right with
    | none => simp [lastChild, node?_join, hn]
    | some x =>
      obtain ⟨m, hm⟩ := exists_node? (hr x rfl)
      simp [prevSibling, node?_join, hm]

/-- Joining one cut of a table leaves every other cut as it was. -/
theorem Separate.joined_join (h : Separate k) {p q : Nat} {l r l' r' : List Nat} (hp : k p = l ++ r)
    (hb : ∀ x ∈ k p, x < t.size) (hps : p < t.size) (hq : k q = l' ++ r')
    (hj : ¬ (p = q ∧ l = l') → t.Joined q l'.getLast? r'.head?) :
    (t.join (some p) l.getLast? r.head?).Joined q l'.getLast? r'.head? := by
  by_cases he : p = q ∧ l = l'
  · obtain ⟨rfl, rfl⟩ := he
    obtain rfl := List.append_cancel_left (hp.symm.trans hq)
    refine Tree.joined_join hps (fun x hx => hb x ?_) (fun x hx => hb x ?_)
    · exact hp ▸ List.mem_append_left r (List.mem_of_getLast? hx)
    · exact hp ▸ List.mem_append_right l (List.mem_of_head? hx)
  · exact (hj he).join_of_ne (fun hl => (h.cut_of_left hp hq hl).resolve_right he)
      (fun hr => (h.cut_of_right hp hq hr).resolve_right he)

end RichText.Tree
