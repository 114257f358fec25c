import RichText.Proofs.Tree.Linked

/-!
What moving one node does to the child lists.

`detach` takes a node out of the list it stands in, `link` puts one into a list, and `insertBefore` does both.
Nothing but links changes.
-/

namespace RichText.Tree

variable {t : Tree} {k : Nat → List Nat} {p c : Nat} {l r : List Nat}

/-- The links of a node are those of its place. -/
theorem LinkedAs.links (h : t.LinkedAs k) (hc : k p = l ++ c :: r) :
    ∃ n, t.node? (some c) = some n ∧ n.parent = some p ∧ n.prev = l.getLast? ∧ n.next = r.head? := by
  have hmem : c ∈ k p := by simp [hc]
  obtain ⟨n, hn⟩ := exists_node? (h.child_lt hmem)
  refine ⟨n, hn, ?_, ?_, ?_⟩
  · simpa [Tree.parent, hn] using h.parent.2 hmem
  · simpa [Tree.prevSibling, hn] using h.prevSibling hc
  · simpa [Tree.nextSibling, hn] using h.nextSibling hc

/-! ### Detaching -/

/-- A cut of a list without a node was a cut of that list, unless the node stood there. -/
theorem Separate.cut_of_without (h : Separate k) (hc : k p = l ++ c :: r) {q : Nat} {l' r' : List Nat}
    (hq : without k c q = l' ++ r') (hne : ¬ (p = q ∧ l = l')) :
    ∃ l₁ r₁, k q = l₁ ++ r₁ ∧ l₁.getLast? = l'.getLast? ∧ r₁.head? = r'.head? := by
  by_cases hqp : q = p
  · subst hqp
    rw [without_of_eq (h.nodup q) hc] at hq
    rcases List.append_eq_append_iff.1 hq with ⟨m, rfl, rfl⟩ | ⟨m, rfl, rfl⟩
    · rcases m.eq_nil_or_concat with rfl | ⟨m, x, rfl⟩
      · simp at hne
      · exact ⟨l ++ c :: (m ++ [x]), r', by simp [hc], by simp [List.getLast?_cons], rfl⟩
    · cases m with
      | nil => simp at hne
      | cons x m => exact ⟨l', x :: m ++ c :: r, by simp [hc], rfl, by simp⟩
  · have hcq : c ∉ k q := fun hm => hqp (h.eq_of_mem hm (hc ▸ by simp))
    exact ⟨l', r', by rw [← hq, without_of_not_mem hcq], rfl, rfl⟩

/-- The tree that `detach` leaves when it takes the node `c` out of a list. -/
def detached (t : Tree) (p c : Nat) (left right : Ref) : Tree :=
  (t.join (some p) left right).update (some c) fun n => { n with parent := none, prev := none, next := none }

theorem LinkedAs.detach_eq (h : t.LinkedAs k) (hc : k p = l ++ c :: r) :
    t.detach (some c) = .ok (t.detached p c l.getLast? r.head?) := by
  obtain ⟨n, hn, hparent, hprev, hnext⟩ := h.links hc
  simp [Tree.detach, hn, hparent, hprev, hnext, detached]

theorem parent_detached (hc : c < t.size) (left right : Ref) (x : Nat) :
    (t.detached p c left right).parent (some x) = if c = x then none else t.parent (some x) := by
  obtain ⟨n, hn⟩ := exists_node? (t := t.join (some p) left right) (by simpa using hc)
  rw [detached, parent_update hn, parent_join]

theorem SameData.detached (left right : Ref) : t.SameData (t.detached p c left right) :=
  (SameData.join _ _ _).trans (.update _ fun _ => rfl)

theorem LinkedAs.detached (h : t.LinkedAs k) (hc : k p = l ++ c :: r) :
    (t.detached p c l.getLast? r.head?).LinkedAs (without k c) := by
  have hs := h.separate.erase c
  have hnot := h.separate.not_mem_without c
  have hmem : c ∈ k p := by simp [hc]
  constructor
  · intro q l' r' hq
    have hl : l'.getLast? ≠ some c := fun e => hnot q (hq ▸ by simp [List.mem_of_getLast? e])
    have hr : r'.head? ≠ some c := fun e => hnot q (hq ▸ by simp [List.mem_of_head? e])
    refine Joined.update_of_ne ?_ hl hr (fun _ => ⟨rfl, rfl⟩)
    refine hs.joined_join (without_of_eq (h.nodup p) hc) ?_ (h.parent_lt hmem) hq fun hne => ?_
    · exact fun x hx => h.child_lt (mem_of_mem_without hx)
    · obtain ⟨l₁, r₁, hk, hl₁, hr₁⟩ := h.separate.cut_of_without hc hq hne
      exact hl₁ ▸ hr₁ ▸ h.joined hk
  · intro q x
    rw [parent_detached (h.child_lt hmem), h.separate.mem_without_iff, ← h.parent]
    by_cases hx : c = x
    · simp [hx]
    · simp [hx, Ne.symm hx]
  · intro x hx
    rw [parent_detached (h.child_lt hmem)] at hx
    by_cases hxc : c = x
    · subst hxc
      cases hm : (t.join (some p) l.getLast? r.head?).node? (some c) <;>
        simp [Tree.detached, Tree.prevSibling, Tree.nextSibling, node?_update, hm]
    · rw [if_neg hxc] at hx
      obtain ⟨hprev, hnext⟩ := h.orphan hx
      -- a node without a parent is no end of the cut that is joined
      have hxk : x ∉ k p := fun hm => by simp [h.parent.2 hm] at hx
      have hl : l.getLast? ≠ some x := fun e => hxk (hc ▸ by simp [List.mem_of_getLast? e])
      have hr : r.head? ≠ some x := fun e => hxk (hc ▸ by simp [List.mem_of_head? e])
      have hj := siblings_join (t := t) (p := some p) hl hr
      exact ⟨((siblings_update hxc).1.trans hj.1).trans hprev, ((siblings_update hxc).2.trans hj.2).trans hnext⟩
  · exact hs.nodup

/-- Detaching takes a node out of the child list it stands in. -/
theorem LinkedAs.detach (h : t.LinkedAs k) (hc : c < t.size) :
    ∃ u, t.detach (some c) = .ok u ∧ u.LinkedAs (without k c) ∧ t.SameData u := by
  cases hp : t.parent (some c) with
  | none =>
    have hnot : ∀ q, c ∉ k q := fun q hq => by simp [h.parent.2 hq] at hp
    obtain ⟨n, hn⟩ := exists_node? hc
    have hnp : n.parent = none := by simpa [Tree.parent, hn] using hp
    have hk : without k c = k := funext fun q => without_of_not_mem (hnot q)
    exact ⟨t, by simp [Tree.detach, hn, hnp], hk.symm ▸ h, .refl t⟩
  | some p =>
    obtain ⟨l, r, hl⟩ := List.append_of_mem (h.parent.1 hp)
    exact ⟨_, h.detach_eq hl, h.detached hl, .detached _ _⟩

/-! ### Linking -/

/-- A cut of a list with a new node is one of the two beside the node or was a cut before. -/
theorem cut_of_setList (hp : k p = l ++ r) {q : Nat} {l' r' : List Nat}
    (hq : setList k p (l ++ c :: r) q = l' ++ r') :
    (p = q ∧ l = l') ∨ (p = q ∧ l ++ [c] = l') ∨
      ∃ l₁ r₁, k q = l₁ ++ r₁ ∧ l₁.getLast? = l'.getLast? ∧ r₁.head? = r'.head? := by
  by_cases hqp : q = p
  · subst hqp
    rw [setList_self] at hq
    rcases List.append_eq_append_iff.1 hq with ⟨m, rfl, hm⟩ | ⟨m, rfl, rfl⟩
    · cases m with
      | nil => simp
      | cons x m =>
        obtain ⟨rfl, rfl⟩ := List.cons_eq_cons.1 hm
        rcases m.eq_nil_or_concat with rfl | ⟨m, x, rfl⟩
        · simp
        · exact .inr (.inr ⟨l ++ (m ++ [x]), r', by simp [hp], by simp [List.getLast?_cons], rfl⟩)
    · cases m with
      | nil => simp
      | cons x m => exact .inr (.inr ⟨l', x :: m ++ r, by simp [hp], rfl, by simp⟩)
  · exact .inr (.inr ⟨l', r', by rw [← hq, setList_of_ne _ hqp], rfl, rfl⟩)

theorem parent_link (hc : c < t.size) (left right : Ref) (x : Nat) :
    (t.link (some p) (some c) left right).parent (some x) = if c = x then some p else t.parent (some x) := by
  obtain ⟨n, hn⟩ := exists_node? hc
  rw [link, parent_join, parent_join, parent_update hn]

theorem SameData.link {parent child : Ref} (left right : Ref) : t.SameData (t.link parent child left right) := by
  rw [Tree.link]
  refine SameData.trans ?_ (SameData.join _ _ _)
  refine SameData.trans ?_ (SameData.join _ _ _)
  exact SameData.update _ fun _ => rfl

/-- The two cuts beside a new node are joined one after the other; every other cut was one before. -/
theorem LinkedAs.joined_link (h : t.LinkedAs k) (hp : k p = l ++ r) (hnot : ∀ q, c ∉ k q) (hc : c < t.size)
    (hps : p < t.size) {q : Nat} {l' r' : List Nat} (hq : setList k p (l ++ c :: r) q = l' ++ r') :
    (t.link (some p) (some c) l.getLast? r.head?).Joined q l'.getLast? r'.head? := by
  have hs := h.separate.insert hp hnot
  have hlt : ∀ x ∈ setList k p (l ++ c :: r) p, x < t.size := by
    intro x hx
    rw [setList_self, List.mem_append, List.mem_cons, or_left_comm, ← List.mem_append, ← hp] at hx
    rcases hx with rfl | hx
    · exact hc
    · exact h.child_lt hx
  let t₁ := t.update (some c) fun n => { n with parent := some p, prev := l.getLast?, next := r.head? }
  have hleft := hs.joined_join (t := t₁) (l := l) (r := c :: r) (setList_self p _) (by simpa [t₁] using hlt)
    (by simpa [t₁] using hps) hq
  have hright := hs.joined_join (t := t₁.join (some p) l.getLast? (some c)) (l := l ++ [c]) (r := r) (p := p) (by simp)
    (by simpa [t₁] using hlt) (by simpa [t₁] using hps) hq
  rw [List.head?_cons] at hleft
  rw [List.getLast?_concat] at hright
  refine hright fun hne => hleft fun hne' => ?_
  -- any other cut was one before, and none of its ends is the new node
  rcases cut_of_setList hp hq with he | he | ⟨l₁, r₁, hk, hl₁, hr₁⟩
  · exact absurd he hne'
  · exact absurd he hne
  · have hl : l₁.getLast? ≠ some c := fun e => hnot q (hk ▸ by simp [List.mem_of_getLast? e])
    have hr : r₁.head? ≠ some c := fun e => hnot q (hk ▸ by simp [List.mem_of_head? e])
    rw [← hl₁, ← hr₁]
    exact (h.joined hk).update_of_ne hl hr fun _ => ⟨rfl, rfl⟩

/-- Linking puts a node that stands in no list between two neighbours. -/
theorem LinkedAs.link (h : t.LinkedAs k) (hp : k p = l ++ r) (hnot : ∀ q, c ∉ k q) (hc : c < t.size)
    (hps : p < t.size) :
    (t.link (some p) (some c) l.getLast? r.head?).LinkedAs (setList k p (l ++ c :: r)) := by
  constructor
  · exact fun hq => h.joined_link hp hnot hc hps hq
  · intro q x
    rw [parent_link hc]
    by_cases hq : q = p <;> by_cases hx : c = x
    · simp [hq, hx]
    · subst hq
      rw [if_neg hx, h.parent, hp, setList_self]
      grind
    · subst hx
      simp [setList_of_ne _ hq, hnot q, Ne.symm hq]
    · rw [if_neg hx, h.parent, setList_of_ne _ hq]
  · intro x hx
    rw [parent_link hc] at hx
    have hxc : c ≠ x := fun e => by simp [e] at hx
    rw [if_neg hxc] at hx
    obtain ⟨hprev, hnext⟩ := h.orphan hx
    -- an orphan is none of the two neighbours
    have hxk : x ∉ k p := fun hm => by simp [h.parent.2 hm] at hx
    have hl : l.getLast? ≠ some x := fun e => hxk (hp ▸ by simp [List.mem_of_getLast? e])
    have hr : r.head? ≠ some x := fun e => hxk (hp ▸ by simp [List.mem_of_head? e])
    have hcx : some c ≠ some x := fun e => hxc (Option.some.inj e)
    exact ⟨((siblings_join hcx hr).1.trans ((siblings_join hl hcx).1.trans (siblings_update hxc).1)).trans hprev,
      ((siblings_join hcx hr).2.trans ((siblings_join hl hcx).2.trans (siblings_update hxc).2)).trans hnext⟩
  · exact (h.separate.insert hp hnot).nodup

end RichText.Tree
