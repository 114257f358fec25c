import RichText.Proofs.Tree.Renewal

/-!
A new element in the place of an old one.

When an element is renewed every link that led to it leads to the new one, and no other link of any node changes. The
new element has the links of the old one, which is left with none.
-/

namespace RichText.Tree

variable {t u : Tree} {parent old new x q : Nat} {l r : List Nat}

/-- A node, or `new` in the place of `old`. -/
def exchange (old new x : Nat) : Nat := if x = old then new else x

theorem exchange_self (old new : Nat) : exchange old new old = new := if_pos rfl

theorem exchange_of_ne (h : x ≠ old) : exchange old new x = x := if_neg h

theorem map_exchange_of_not_mem (h : old ∉ l) (new : Nat) : l.map (exchange old new) = l := by
  induction l with
  | nil => rfl
  | cons y l ih =>
    simp only [List.mem_cons, not_or] at h
    rw [List.map_cons, exchange_of_ne (Ne.symm h.1), ih h.2]

/-- In a list without repetitions the new node comes where the old one was. -/
theorem map_exchange_cut (h : (l ++ old :: r).Nodup) (new : Nat) :
    (l ++ old :: r).map (exchange old new) = l ++ new :: r := by
  have hl : old ∉ l := fun hm => (List.nodup_append.1 h).2.2 old hm old List.mem_cons_self rfl
  have hr : old ∉ r := (List.nodup_cons.1 (List.nodup_append.1 h).2.1).1
  rw [List.map_append, List.map_cons, exchange_self, map_exchange_of_not_mem hl, map_exchange_of_not_mem hr]

/-- The five links of a node: its parent, the siblings before and after it, its first and its last child. -/
def linksOf (t : Tree) (x : Nat) : List Ref :=
  [t.parent (some x), t.prevSibling (some x), t.nextSibling (some x), t.firstChild (some x), t.lastChild (some x)]

/-- From `t` to `u` the node `new` came in the place of `old`, with all that was linked to it. -/
structure Exchanges (t : Tree) (parent old new : Nat) (u : Tree) : Prop where
  /-- In the list of the parent the new node is where the old one was. -/
  place : ∃ l r, t.kids parent = l ++ old :: r ∧ u.kids parent = l ++ new :: r
  /-- The new node has the children of the old one. -/
  handed : u.kids new = t.kids old
  emptied : u.kids old = []
  /-- All other lists are as they were. -/
  lists : ∀ q, q ≠ parent → q ≠ old → q ≠ new → u.kids q = t.kids q
  /-- The new node has the links of the old one, -/
  taken : u.linksOf new = t.linksOf old
  /-- which has none. -/
  left : u.linksOf old = [none, none, none, none, none]
  /-- All other nodes have their links, but to the new node where they were linked to the old one. -/
  others : ∀ x, x ≠ old → x ≠ new → u.linksOf x = (t.linksOf x).map (Option.map (exchange old new))

/-- The lists after the exchange are those before it with the new node for the old one. -/
theorem exchanged_list (ht : t.Linked) (hp : t.kids parent = l ++ old :: r) (hq : q ≠ t.size) :
    setList (handedOver t.kids old t.size) parent (l ++ t.size :: r) (exchange old t.size q) =
      (t.kids q).map (exchange old t.size) := by
  have hold : old ∈ t.kids parent := by simp [hp]
  have hpold : parent ≠ old := ht.ne_of_child hold
  have hpnew : parent ≠ t.size := (ht.parent_lt hold).ne
  by_cases hqo : q = old
  · subst hqo
    have hnot : q ∉ t.kids q := fun hm => ht.ne_of_child hm rfl
    rw [exchange_self, setList_of_ne _ hpnew.symm, handedOver, setList_self, map_exchange_of_not_mem hnot]
  · rw [exchange_of_ne hqo]
    by_cases hqp : q = parent
    · rw [hqp, setList_self, hp, map_exchange_cut (hp ▸ ht.links.nodup parent)]
    · have hnot : old ∉ t.kids q := fun hm => hqp (ht.links.separate.eq_of_mem hm hold)
      rw [setList_of_ne _ hqp, handedOver_of_ne hqo hq, map_exchange_of_not_mem hnot]

/-- Where the children of a node are exchanged so are its first and its last child. -/
theorem ends_of_exchanged (ht : t.Linked) (hu : u.Linked)
    (hx : u.kids x = (t.kids x).map (exchange old new)) :
    u.firstChild (some x) = (t.firstChild (some x)).map (exchange old new) ∧
      u.lastChild (some x) = (t.lastChild (some x)).map (exchange old new) := by
  rw [hu.links.firstChild, hu.links.lastChild, ht.links.firstChild, ht.links.lastChild, hx, List.head?_map,
    List.getLast?_map]
  exact ⟨rfl, rfl⟩

section

variable (hne : old ≠ new) (hempty : u.kids old = [])
  (hlist : ∀ {q}, q ≠ new → u.kids (exchange old new q) = (t.kids q).map (exchange old new))

include hne hempty hlist

/-- Whatever is in a list afterwards was in one, or came for the old node. -/
theorem exists_of_exchanged (hx : x ∈ u.kids q) : ∃ y q', y ∈ t.kids q' ∧ exchange old new y = x := by
  by_cases hqo : q = old
  · rw [hqo, hempty] at hx
    exact absurd hx List.not_mem_nil
  · by_cases hqn : q = new
    · rw [hqn, ← exchange_self old new, hlist hne] at hx
      obtain ⟨y, hy, he⟩ := List.mem_map.1 hx
      exact ⟨y, old, hy, he⟩
    · have hsame : exchange old new q = q := exchange_of_ne hqo
      rw [← hsame, hlist hqn] at hx
      obtain ⟨y, hy, he⟩ := List.mem_map.1 hx
      exact ⟨y, q, hy, he⟩

/-- The old node is in no list any more. -/
theorem not_mem_of_exchanged (q : Nat) : old ∉ u.kids q := by
  intro hm
  obtain ⟨y, q', -, he⟩ := exists_of_exchanged hne hempty hlist hm
  by_cases hy : y = old
  · rw [hy, exchange_self] at he
    exact hne he.symm
  · rw [exchange_of_ne hy] at he
    exact hy he

/-- The parent and the siblings of another node are exchanged. -/
theorem around_of_exchanged (ht : t.Linked) (hu : u.Linked) (hfresh : t.kids new = []) (hxo : x ≠ old)
    (hxn : x ≠ new) :
    u.parent (some x) = (t.parent (some x)).map (exchange old new) ∧
      u.prevSibling (some x) = (t.prevSibling (some x)).map (exchange old new) ∧
      u.nextSibling (some x) = (t.nextSibling (some x)).map (exchange old new) := by
  cases hpx : t.parent (some x) with
  | none =>
    have hparent : u.parent (some x) = none := by
      refine hu.orphan_iff.2 fun q hm => ?_
      obtain ⟨y, q', hy, he⟩ := exists_of_exchanged hne hempty hlist hm
      by_cases hyo : y = old
      · rw [hyo, exchange_self] at he
        exact hxn he.symm
      · rw [exchange_of_ne hyo] at he
        exact ht.orphan_iff.1 hpx q' (he ▸ hy)
    obtain ⟨hprev, hnext⟩ := ht.links.orphan hpx
    obtain ⟨hprev', hnext'⟩ := hu.links.orphan hparent
    rw [hparent, hprev, hnext, hprev', hnext']
    exact ⟨rfl, rfl, rfl⟩
  | some q =>
    have hxq : x ∈ t.kids q := ht.parent_iff.1 hpx
    have hqn : q ≠ new := by
      rintro rfl
      rw [hfresh] at hxq
      exact absurd hxq List.not_mem_nil
    obtain ⟨before, after, hcut⟩ := List.append_of_mem hxq
    have hcut' : u.kids (exchange old new q) =
        before.map (exchange old new) ++ x :: after.map (exchange old new) := by
      rw [hlist hqn, hcut, List.map_append, List.map_cons, exchange_of_ne hxo]
    have hmem : x ∈ u.kids (exchange old new q) := by simp [hcut']
    rw [hu.parent_iff.2 hmem, hu.links.prevSibling hcut', ht.links.prevSibling hcut, hu.links.nextSibling hcut',
      ht.links.nextSibling hcut, List.getLast?_map, List.head?_map]
    exact ⟨rfl, rfl, rfl⟩

end

/-- A renewed element is exchanged for the new one. -/
theorem Linked.exchanges (ht : t.Linked) (hu : u.Linked) (hp : t.kids parent = l ++ old :: r)
    (hk : u.kids = setList (handedOver t.kids old t.size) parent (l ++ t.size :: r)) :
    t.Exchanges parent old t.size u := by
  have hold : old ∈ t.kids parent := by simp [hp]
  have hpold : parent ≠ old := ht.ne_of_child hold
  have hpnew : parent ≠ t.size := (ht.parent_lt hold).ne
  have hne : old ≠ t.size := (ht.child_lt hold).ne
  have hlist : ∀ {q}, q ≠ t.size → u.kids (exchange old t.size q) = (t.kids q).map (exchange old t.size) :=
    fun hq => hk ▸ exchanged_list ht hp hq
  have hplace : u.kids parent = l ++ t.size :: r := by rw [hk, setList_self]
  have hhanded : u.kids t.size = t.kids old := by
    rw [hk, setList_of_ne _ hpnew.symm, handedOver, setList_self]
  have hempty : u.kids old = [] := by
    rw [hk, setList_of_ne _ hpold.symm, handedOver, setList_of_ne _ hne, setList_self]
  refine ⟨⟨l, r, hp, hplace⟩, hhanded, hempty, ?_, ?_, ?_, ?_⟩
  · intro q hqp hqo hqn
    rw [hk, setList_of_ne _ hqp, handedOver_of_ne hqo hqn]
  · have hnew : t.size ∈ u.kids parent := by simp [hplace]
    rw [linksOf, linksOf, hu.parent_iff.2 hnew, ht.parent_iff.2 hold, hu.links.prevSibling hplace,
      ht.links.prevSibling hp, hu.links.nextSibling hplace, ht.links.nextSibling hp, hu.links.firstChild,
      ht.links.firstChild, hu.links.lastChild, ht.links.lastChild, hhanded]
  · have hparent : u.parent (some old) = none := hu.orphan_iff.2 (not_mem_of_exchanged hne hempty hlist)
    obtain ⟨hprev, hnext⟩ := hu.links.orphan hparent
    rw [linksOf, hparent, hprev, hnext, hu.links.firstChild, hu.links.lastChild, hempty]
    rfl
  · intro x hxo hxn
    have hfresh : t.kids t.size = [] := List.eq_nil_iff_forall_not_mem.2 fun y hy => (ht.parent_lt hy).ne rfl
    have hown : u.kids x = (t.kids x).map (exchange old t.size) := by
      have hx := hlist hxn
      rwa [exchange_of_ne hxo] at hx
    obtain ⟨hfirst, hlast⟩ := ends_of_exchanged ht hu hown
    obtain ⟨hparent, hprev, hnext⟩ := around_of_exchanged hne hempty hlist ht hu hfresh hxo hxn
    simp only [linksOf, List.map_cons, List.map_nil, hparent, hprev, hnext, hfirst, hlast]

/-- A list that is not that of one of the two nodes has the new one for the old one. -/
theorem Exchanges.list_eq (h : t.Exchanges parent old new u) (ht : t.Linked) (hqo : q ≠ old) (hqn : q ≠ new) :
    u.kids q = (t.kids q).map (exchange old new) := by
  obtain ⟨l, r, hl, hr⟩ := h.place
  have hold : old ∈ t.kids parent := by simp [hl]
  by_cases hqp : q = parent
  · rw [hqp, hr, hl, map_exchange_cut (hl ▸ ht.links.nodup parent)]
  · have hnot : old ∉ t.kids q := fun hm => hqp (ht.links.separate.eq_of_mem hm hold)
    rw [h.lists q hqp hqo hqn, map_exchange_of_not_mem hnot]

/-- The document element is exchanged where it is the old element, and otherwise stays. -/
theorem Exchanges.documentElement (h : t.Exchanges parent old t.size u) (ht : t.Linked)
    (hkind : ∀ x, u.kind? (some x) = if x = t.size then some .element else t.kind? (some x))
    (hroot : t.kind? root = some .document) (hold : t.kind? (some old) = some .element) :
    u.documentElement = t.documentElement.map (exchange old t.size) := by
  have hne : 0 ≠ old := by
    rintro rfl
    exact nomatch hroot.symm.trans hold
  have hlist : u.children root = (t.children root).map (exchange old t.size) :=
    h.list_eq ht hne (lt_of_kind hroot).ne
  rw [Tree.documentElement, Tree.documentElement, hlist, List.find?_map]
  refine congrArg _ (List.find?_congr fun x hx => ?_)
  have hx : x ≠ t.size := (ht.child_lt hx).ne
  rw [Function.comp_apply, hkind]
  by_cases hxo : x = old
  · rw [hxo, exchange_self, if_pos rfl, hold]
  · rw [exchange_of_ne hxo, if_neg hx]

end RichText.Tree
