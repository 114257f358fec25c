import RichText.Proofs.Pass.Reachable
import RichText.Proofs.Tree.Order

/-!
The loops that follow links.

The ancestor check, the iteration over children and the collection of texts go from link to link until one of them leads
nowhere, and nothing in them bounds how far they go. `Climbs`, `Iterates` and `Collects` are the runs of these loops, as
finite trees of their rounds. What a run answers is the same on every tree; that there is one is due to the links, as no
node is above itself and sibling links come to the end of their list.
-/

namespace RichText.Tree

open Relation (ReflTransGen)

variable {t : Tree} {p : Nat} {a r : Ref} {l l' : List Nat} {f : Forest Nat} {s s' : String}

/-! ### The ancestor check -/

/-- The check for `a` that has come to `r` on its way up ends after so many rounds with this answer. -/
inductive Climbs (t : Tree) (a : Ref) : Ref → Nat → Bool → Prop
  | top : Climbs t a none 0 false
  | found {x : Nat} (ha : some x = a) : Climbs t a (some x) 1 true
  | up {x rounds : Nat} {answer : Bool} (ha : some x ≠ a) (h : Climbs t a (t.parent (some x)) rounds answer) :
    Climbs t a (some x) (rounds + 1) answer

namespace Climbs

variable {rounds rounds' : Nat} {answer answer' : Bool}

theorem unique (h : t.Climbs a r rounds answer) (h' : t.Climbs a r rounds' answer') :
    rounds' = rounds ∧ answer' = answer := by
  induction h generalizing rounds' answer' with
  | top =>
    cases h'
    exact ⟨rfl, rfl⟩
  | found ha =>
    cases h' with
    | found => exact ⟨rfl, rfl⟩
    | up hne => exact absurd ha hne
  | up hne _ ih =>
    cases h' with
    | found ha => exact absurd ha hne
    | up _ h' =>
      obtain ⟨rfl, rfl⟩ := ih h'
      exact ⟨rfl, rfl⟩

/-- A check that ends finds the nodes that parent links lead to. -/
theorem answer_iff (h : t.Climbs a r rounds answer) :
    answer = true ↔ ∃ x y, r = some x ∧ a = some y ∧ ReflTransGen t.Up x y := by
  induction h with
  | top => simp
  | @found x ha => exact iff_of_true rfl ⟨x, x, rfl, ha.symm, .refl⟩
  | @up x _ _ hne _ ih =>
    rw [ih]
    constructor
    · rintro ⟨p, y, hp, rfl, hy⟩
      exact ⟨x, y, rfl, rfl, .head hp hy⟩
    · rintro ⟨_, y, ⟨⟩, rfl, hy⟩
      rcases hy.cases_head with rfl | ⟨p, hp, hy⟩
      · exact absurd rfl hne
      · exact ⟨p, y, hp, rfl, hy⟩

end Climbs

/-- A path upwards that is shorter than its bound has come to the top, and a check goes along it. -/
theorem climbs_of_length_lt {fuel : Nat} (hl : (t.pathFrom fuel r).length < fuel) (a : Ref) :
    ∃ rounds ≤ (t.pathFrom fuel r).length,
      t.Climbs a r rounds ((t.pathFrom fuel r).any fun id => some id == a) := by
  induction fuel generalizing r with
  | zero => exact absurd hl (Nat.not_lt_zero _)
  | succ fuel ih =>
    cases r with
    | none => exact ⟨0, Nat.zero_le _, .top⟩
    | some x =>
      rw [pathFrom, List.length_cons] at hl
      rw [pathFrom, List.length_cons, List.any_cons]
      by_cases ha : some x = a
      · refine ⟨1, Nat.le_add_left 1 _, ?_⟩
        rw [beq_iff_eq.2 ha, Bool.true_or]
        exact .found ha
      · obtain ⟨rounds, hle, h⟩ := ih (Nat.lt_of_succ_lt_succ hl)
        refine ⟨rounds + 1, Nat.succ_le_succ hle, ?_⟩
        rw [beq_eq_false_iff_ne.2 ha, Bool.false_or]
        exact .up ha h

/-- The check ends, with no more rounds than there are nodes. -/
theorem Linked.climbs (h : t.Linked) (hs : 0 < t.size) (a r : Ref) :
    ∃ rounds ≤ t.size, t.Climbs a r rounds (t.isAncestorOrSelf a r) := by
  -- with one node more than there can be on it, the path is known to be complete
  have hle := h.length_pathFrom_le hs (t.size + 1) r
  obtain ⟨rounds, hrounds, hclimbs⟩ := climbs_of_length_lt (Nat.lt_succ_of_le hle) a
  rw [h.pathFrom_eq hs (Nat.le_succ t.size)] at hclimbs
  exact ⟨rounds, hrounds.trans hle, hclimbs⟩

/-! ### Iterating over children -/

/-- An iterator that has come to `r` goes on to yield the nodes `l`, and is then at an end. -/
inductive Iterates (t : Tree) : Ref → List Nat → Prop
  | done {r : Ref} (hr : t.node? r = none) : Iterates t r []
  | item {x : Nat} {l : List Nat} (hx : t.node? (some x) ≠ none) (h : Iterates t (t.nextSibling (some x)) l) :
    Iterates t (some x) (x :: l)

theorem Iterates.unique (h : t.Iterates r l) (h' : t.Iterates r l') : l' = l := by
  induction h generalizing l' with
  | done hr =>
    cases h' with
    | done => rfl
    | item hx => exact absurd hr hx
  | item hx _ ih =>
    cases h' with
    | done hr => exact absurd hr hx
    | item _ h' => rw [ih h']

theorem Linked.node?_ne_none (h : t.Linked) {c : Nat} (hc : c ∈ t.kids p) : t.node? (some c) ≠ none := fun hn =>
  Nat.not_lt.2 (node?_eq_none_iff.1 hn) (h.child_lt hc)

theorem Linked.iterates_suffix (h : t.Linked) {rest : List Nat} (hp : t.kids p = l ++ rest) :
    t.Iterates rest.head? rest := by
  induction rest generalizing l with
  | nil => exact .done rfl
  | cons c rest ih =>
    refine .item (h.node?_ne_none (hp ▸ List.mem_append_right l List.mem_cons_self)) ?_
    rw [h.nextSibling hp]
    exact ih (hp.trans (List.append_cons l c rest))

theorem children_none (t : Tree) : t.children none = [] := by
  rw [children]
  cases t.size <;> rfl

/-- The iteration over the children of a node ends. -/
theorem Linked.iterates (h : t.Linked) (r : Ref) : t.Iterates (t.firstChild r) (t.children r) := by
  cases r with
  | none =>
    rw [children_none]
    exact .done rfl
  | some p =>
    rw [h.firstChild]
    exact h.iterates_suffix (List.nil_append _).symm

theorem Linked.nodup_children (h : t.Linked) (r : Ref) : (t.children r).Nodup := by
  cases r with
  | none => exact t.children_none ▸ List.nodup_nil
  | some p => exact h.nodup p

theorem Linked.mem_children_iff (h : t.Linked) (r : Ref) (c : Nat) :
    c ∈ t.children r ↔ r ≠ none ∧ t.parent (some c) = r := by
  cases r with
  | none => simp [children_none]
  | some p => exact h.parent_iff.symm.trans (iff_and_self.2 fun _ => Option.some_ne_none p)

/-! ### Collecting texts -/

mutual

/-- Collecting the texts of a node ends with the text `s`. -/
inductive Collects (t : Tree) : Ref → String → Prop
  | text {r : Ref} {s : String} (hr : t.text? r = some s) : Collects t r s
  | children {r : Ref} {s : String} (hr : t.text? r = none) (h : CollectsFrom t (t.firstChild r) s) : Collects t r s

/-- The iteration over children that has come to `r` collects the text `s` from there on. -/
inductive CollectsFrom (t : Tree) : Ref → String → Prop
  | done {r : Ref} (hr : t.node? r = none) : CollectsFrom t r ""
  | item {x : Nat} {s s' : String} (hx : t.node? (some x) ≠ none) (h : Collects t (some x) s)
    (h' : CollectsFrom t (t.nextSibling (some x)) s') : CollectsFrom t (some x) (s ++ s')

end

theorem Collects.unique (h : t.Collects r s) (h' : t.Collects r s') : s' = s := by
  -- the two kinds of runs are parts of each other, so that the iterations need a claim of their own
  induction h using Collects.rec (motive_2 := fun r s _ => ∀ s', t.CollectsFrom r s' → s' = s)
    generalizing s' with
  | text hr =>
    cases h' with
    | text hr' => exact Option.some.inj (hr'.symm.trans hr)
    | children hr' => exact absurd (hr'.symm.trans hr) (Option.some_ne_none _).symm
  | children hr _ ih =>
    cases h' with
    | text hr' => exact absurd (hr.symm.trans hr') (Option.some_ne_none _).symm
    | children _ h' => exact ih _ h'
  | done hr _ h' =>
    cases h' with
    | done => rfl
    | item hx => exact absurd hr hx
  | item hx _ _ ih ih' _ h' =>
    cases h' with
    | done hr => exact absurd hr hx
    | item _ h h' => rw [ih h, ih' _ h']

/-- Whatever is below it, a text node gives its own content. -/
theorem Collects.of_below (h : t.CollectsFrom (t.firstChild r) s) : t.Collects r ((t.text? r).getD s) := by
  cases hr : t.text? r with
  | none => exact .children hr h
  | some content => exact .text hr

/-- The rounds of the collection follow the forest of what is still to come. -/
theorem Linked.collectsFrom (h : t.Linked) (hf : f.Fits t.kids) (hp : t.kids p = l ++ f.roots) :
    t.CollectsFrom f.roots.head? (f.map t.contentOf).text := by
  induction f generalizing p l with
  | nil => exact .done rfl
  | node x below rest ihb ihr =>
    obtain ⟨hlist, hb, hrest⟩ := hf
    have hx : x ∈ t.kids p := hp ▸ List.mem_append_right l List.mem_cons_self
    have hbelow : t.CollectsFrom (t.firstChild (some x)) (below.map t.contentOf).text := by
      rw [h.firstChild, ← hlist]
      exact ihb hb (hlist.symm.trans (List.nil_append _).symm)
    have hnext : t.CollectsFrom (t.nextSibling (some x)) (rest.map t.contentOf).text := by
      rw [h.nextSibling hp]
      exact ihr hrest (hp.trans (List.append_cons l x rest.roots))
    rw [Forest.map, Forest.text_node, ← text?_of_lt (h.child_lt hx)]
    exact .item (h.node?_ne_none hx) (.of_below hbelow) hnext

/-- Collecting the texts of a node ends. -/
theorem Linked.collects (h : t.Linked) (r : Ref) : t.Collects r (t.textContent r) := by
  cases hn : t.node? r with
  | none =>
    rw [textContent_of_unknown hn]
    refine .children (by rw [text?, data?, hn]; rfl) (.done ?_)
    rw [Tree.firstChild, hn]
    rfl
  | some n =>
    obtain ⟨p, hp, rfl⟩ := has_of_node? hn
    obtain ⟨hroots, hfits⟩ := h.below_spec p
    have hbelow := h.collectsFrom hfits (hroots.symm.trans (List.nil_append _).symm)
    rw [hroots, ← h.firstChild] at hbelow
    have htext : t.textContent (some p) = (t.text? (some p)).getD ((t.below (some p)).map t.contentOf).text := by
      rw [textContent, branch_eq_map hp, subtree, Forest.map, Forest.text_node, ← text?_of_lt hp]
      exact String.append_empty
    exact htext ▸ .of_below hbelow

/-! ### All loops -/

/-- What holds of the loops that follow links. -/
structure LoopsExact (t : Tree) : Prop where
  /-- The ancestor check has one run, of no more rounds than there are nodes. -/
  check : ∀ a r, ∃ n ≤ t.size, ∀ rounds answer,
    t.Climbs a r rounds answer ↔ rounds = n ∧ answer = t.isAncestorOrSelf a r
  /-- It finds a node in itself and in all that parent links lead to from there. -/
  check_iff : ∀ a r, t.isAncestorOrSelf a r = true ↔ ∃ x y, r = some x ∧ a = some y ∧ ReflTransGen t.Up x y
  /-- The iteration over children has one run. -/
  children : ∀ r l, t.Iterates (t.firstChild r) l ↔ l = t.children r
  /-- It yields no node twice. -/
  children_nodup : ∀ r, (t.children r).Nodup
  /-- It yields the nodes whose parent link leads to the node that it was started for. -/
  mem_children : ∀ r c, c ∈ t.children r ↔ r ≠ none ∧ t.parent (some c) = r
  /-- The collection of texts has one run. -/
  text : ∀ r s, t.Collects r s ↔ s = t.textContent r
  /-- It collects the text nodes at or below the node, less those that stand below one of them, and in document order,
  which leaves one way to list them. -/
  text_eq : ∀ r, (∃! l, t.ListsTexts r l) ∧
    ∀ l, t.ListsTexts r l → t.textContent r = String.join (l.filterMap fun x => t.text? (some x))

/-- In every tree that calls and passes lead to, the loops that follow links end and meet what they should. -/
theorem loopsExact_of_reachable (h : t.Reachable) : t.LoopsExact where
  check a r := by
    obtain ⟨n, hle, hclimbs⟩ := h.linked.climbs h.size_pos a r
    refine ⟨n, hle, fun rounds answer => ⟨hclimbs.unique, ?_⟩⟩
    rintro ⟨rfl, rfl⟩
    exact hclimbs
  check_iff a r := by
    obtain ⟨_, -, hclimbs⟩ := h.linked.climbs h.size_pos a r
    exact hclimbs.answer_iff
  children r l := by
    refine ⟨(h.linked.iterates r).unique, ?_⟩
    rintro rfl
    exact h.linked.iterates r
  children_nodup := h.linked.nodup_children
  mem_children := h.linked.mem_children_iff
  text r s := by
    refine ⟨(h.linked.collects r).unique, ?_⟩
    rintro rfl
    exact h.linked.collects r
  text_eq r := by
    obtain ⟨l, hl, htext⟩ := h.linked.textContent_eq r
    refine ⟨⟨l, hl, fun l' hl' => hl'.unique h.linked hl⟩, fun l' hl' => ?_⟩
    rw [hl'.unique h.linked hl]
    exact htext

/-- A paragraph with two texts, the first of which stands above a third one, and a refused call. -/
def stackedTexts : List Call :=
  [.createElement "" "p", .create (.text "a"), .create (.text "b"), .create (.text "c"), .appendChild root (some 1),
    .appendChild (some 1) (some 2), .appendChild (some 1) (some 4), .appendChild (some 2) (some 3),
    .appendChild (some 3) (some 1)]

theorem loopsExact_of_stackedTexts :
    let t := stackedTexts.foldl (fun t call => call.after t) .empty
    t.Reachable ∧ t.LoopsExact ∧ t.isAncestorOrSelf (some 1) (some 3) = true ∧
      t.isAncestorOrSelf (some 7) (some 7) = true ∧ t.isAncestorOrSelf none (some 3) = false ∧
      t.children (some 1) = [2, 4] ∧ t.textContent root = "ac" := by
  intro t
  have ht : t.Reachable := Reachable.empty.calls stackedTexts
  exact ⟨ht, loopsExact_of_reachable ht, by decide +kernel, by decide +kernel, by decide +kernel, by decide +kernel,
    by decide +kernel⟩

end RichText.Tree
