import RichText.Proofs.Pass.Delegate

/-!
The nodes that are no elements, and keeping them.

A pass makes new elements, but never a node of another kind. What it may do to the others is told by the list
of them in document order, of which some nodes may go if rules are free to drop nodes.
-/

namespace RichText

open RichText.Tree

variable {t u : Tree} {S : Set Nat} {drops : Prop} {l l' m m' : List Nat}

/-- Whether a node is there and is no element. -/
def Tree.isOther (t : Tree) (x : Nat) : Bool :=
  match t.kind? (some x) with
  | some .element | none => false
  | some _ => true

/-- The nodes of a forest that are no elements, in document order. -/
def Tree.others (t : Tree) (f : Forest Nat) : List Nat := f.toList.filter t.isOther

theorem Tree.others_append (t : Tree) (f g : Forest Nat) : t.others (f ++ g) = t.others f ++ t.others g := by
  rw [others, Forest.toList_append, List.filter_append]
  rfl

theorem Tree.others_node (t : Tree) (x : Nat) (f g : Forest Nat) :
    t.others (.node x f g) = (if t.isOther x then [x] else []) ++ (t.others f ++ t.others g) := by
  simp only [others, Forest.toList, List.filter_cons, List.filter_append]
  split <;> rfl

theorem Tree.isOther_of_le {x : Nat} (h : t.size ≤ x) : t.isOther x = false := by
  rw [isOther, kind?, data?, node?_eq_none_iff.2 h]
  rfl

theorem Tree.isOther_of_element {x : Nat} (h : t.kind? (some x) = some .element) : t.isOther x = false := by
  rw [isOther, h]

/-- Which nodes are no elements does not change while a tree is worked on. -/
theorem Tree.Evolves.isOther (h : Evolves S t u) : u.isOther = t.isOther := by
  funext x
  by_cases hx : x < t.size
  · rw [Tree.isOther, Tree.isOther, h.kind hx]
  · rw [isOther_of_le (Nat.le_of_not_lt hx)]
    by_cases hu : x < u.size
    · exact isOther_of_element (h.fresh (Nat.le_of_not_lt hx) hu)
    · exact isOther_of_le (Nat.le_of_not_lt hu)

theorem Tree.Evolves.others (h : Evolves S t u) : u.others = t.others := by
  funext f
  rw [Tree.others, Tree.others, h.isOther]

/-! ### Lists that may lose entries -/

/-- Of `l` there is `l'` left, in the same order; all of it unless nodes may be dropped. -/
def Kept (drops : Prop) (l l' : List Nat) : Prop := List.Sublist l' l ∧ (¬ drops → l' = l)

namespace Kept

theorem refl (l : List Nat) : Kept drops l l := ⟨.refl l, fun _ => rfl⟩

theorem trans {k : List Nat} (h : Kept drops l m) (h' : Kept drops m k) : Kept drops l k :=
  ⟨h'.1.trans h.1, fun hd => (h'.2 hd).trans (h.2 hd)⟩

theorem append (h : Kept drops l l') (h' : Kept drops m m') : Kept drops (l ++ m) (l' ++ m') :=
  ⟨h.1.append h'.1, fun hd => by rw [h.2 hd, h'.2 hd]⟩

end Kept

/-! ### What a visit keeps -/

variable {o : Cursor} {d d' : Nat} {below below' : Forest Nat} {place : Place}

/-- Of the others among the visited node and what was below it, those in its place are kept. -/
def Cursor.Keeps (drops : Prop) (o : Cursor) (seat : Forest Nat) : Prop :=
  Kept drops (o.tree.others (.node o.node o.below .nil)) (o.tree.others seat)

/-- What stands in the place of an element, the delegate itself left out. -/
def Place.content (below : Forest Nat) : Place → Forest Nat
  | attached => below
  | vacated present => present

theorem Visiting.others_seat (h : Visiting o t d below place)
    (he : o.tree.kind? (some o.node) = some .element) :
    o.tree.others (place.seat d below) = o.tree.others (place.content below) := by
  cases place with
  | vacated present => rfl
  | attached =>
    have hd : o.tree.isOther d = false := by
      rcases h.own with rfl | hge
      · exact isOther_of_element he
      · exact isOther_of_le hge
    simp [Place.seat, Place.content, hd, Tree.others, Forest.toList]

/-- Carrying out a fate brings no node into the place. -/
theorem Fate.seat_sublist (fate : Fate) (d : Nat) (below : Forest Nat) (place : Place) :
    List.Sublist ((fate.vacate below place).seat d (fate.remaining below place)).toList
      (place.seat d below).toList := by
  cases place with
  | vacated present => cases fate <;> exact .refl _
  | attached =>
    cases fate with
    | keep => exact .refl _
    | remove => exact List.nil_sublist _
    | clear => exact .cons_cons _ (List.nil_sublist _)
    | unwrap =>
      rw [Fate.vacate, Place.leave, Place.seat, Place.seat, Forest.toList, Forest.toList, List.append_nil]
      exact List.sublist_cons_self d _

/-- Fates that keep the content of an element. -/
theorem Fate.content_eq {fate : Fate} (h : fate = .keep ∨ fate = .unwrap) (below : Forest Nat) (place : Place) :
    (fate.vacate below place).content (fate.remaining below place) = place.content below := by
  rcases h with rfl | rfl <;> cases place <;> rfl

theorem Cursor.Keeps.sublist {seat seat' : Forest Nat} (h : o.Keeps drops seat)
    (hs : List.Sublist seat'.toList seat.toList) (he : ¬ drops → o.tree.others seat' = o.tree.others seat) :
    o.Keeps drops seat' :=
  h.trans ⟨hs.filter _, he⟩

end RichText
