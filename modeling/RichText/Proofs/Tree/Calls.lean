import RichText.Proofs.Tree.Ancestors
import RichText.Proofs.Tree.Preserved

/-!
Calls on a tree, in any order and with any arguments.

`LinkInvariant` says of the five links of every node what a reader of them relies on, and every well-linked tree
has it. A call may be refused or succeed: in both cases the tree that it leaves is well linked if it was so before.
-/

namespace RichText.Tree

open Effects
open Relation (TransGen)

variable {t u : Tree} {α β : Type}

/-! ### The link invariant -/

/-- Following sibling links from `r` to the end meets the nodes `l`. -/
inductive SiblingChain (t : Tree) : Ref → List Nat → Prop
  | nil : SiblingChain t none []
  | cons {x : Nat} {l : List Nat} (h : SiblingChain t (t.nextSibling (some x)) l) : SiblingChain t (some x) (x :: l)

/-- What holds of the links of all nodes. -/
structure LinkInvariant (t : Tree) : Prop where
  /-- The sibling links from the first child on lead once through all nodes with this parent, to the last child. -/
  children : ∀ p, ∃ l, t.SiblingChain (t.firstChild (some p)) l ∧ l.Nodup ∧
    (∀ c, c ∈ l ↔ t.parent (some c) = some p) ∧ t.lastChild (some p) = l.getLast?
  /-- The two sibling links of neighbours point to each other. -/
  inverse : ∀ x y, t.nextSibling (some x) = some y ↔ t.prevSibling (some y) = some x
  /-- A node without a parent has no siblings. -/
  orphan : ∀ x, t.parent (some x) = none → t.prevSibling (some x) = none ∧ t.nextSibling (some x) = none
  /-- Every stored link leads to a node of the arena. -/
  inside : ∀ n ∈ t.nodes, ∀ x, some x ∈ [n.parent, n.prev, n.next, n.first, n.last] → x < t.size
  /-- No node is among its own ancestors. -/
  acyclic : ∀ x, ¬ TransGen (fun c p => t.parent (some c) = some p) x x

theorem Linked.siblingChain (h : t.Linked) {p : Nat} {l r : List Nat} (hp : t.kids p = l ++ r) :
    t.SiblingChain r.head? r := by
  induction r generalizing l with
  | nil => exact .nil
  | cons c r ih =>
    refine .cons ?_
    rw [h.nextSibling hp]
    exact ih (hp.trans (List.append_cons l c r))

/-- A node with a sibling stands in a child list. -/
theorem Linked.exists_list (h : t.Linked) {x y : Nat}
    (hx : t.nextSibling (some x) = some y ∨ t.prevSibling (some x) = some y) :
    ∃ p l r, t.kids p = l ++ x :: r := by
  cases hp : t.parent (some x) with
  | none =>
    obtain ⟨hprev, hnext⟩ := h.links.orphan hp
    rcases hx with hx | hx
    · rw [hnext] at hx
      cases hx
    · rw [hprev] at hx
      cases hx
  | some p =>
    obtain ⟨l, r, hl⟩ := List.append_of_mem (h.parent_iff.1 hp)
    exact ⟨p, l, r, hl⟩

theorem Linked.nextSibling_iff (h : t.Linked) (x y : Nat) :
    t.nextSibling (some x) = some y ↔ t.prevSibling (some y) = some x := by
  constructor
  · intro hx
    obtain ⟨p, l, r, hp⟩ := h.exists_list (.inl hx)
    rw [h.nextSibling hp, List.head?_eq_some_iff] at hx
    obtain ⟨r', rfl⟩ := hx
    rw [h.links.prevSibling (hp.trans (List.append_cons l x _)), List.getLast?_concat]
  · intro hy
    obtain ⟨p, l, r, hp⟩ := h.exists_list (.inr hy)
    rw [h.links.prevSibling hp, List.getLast?_eq_some_iff] at hy
    obtain ⟨l', rfl⟩ := hy
    rw [List.append_assoc, List.singleton_append] at hp
    rw [h.nextSibling hp, List.head?_cons]

/-- The links that are read of a node lead to nodes of the arena. -/
theorem Linked.link_lt (h : t.Linked) {p x : Nat}
    (hx : some x ∈ [t.parent (some p), t.prevSibling (some p), t.nextSibling (some p), t.firstChild (some p),
      t.lastChild (some p)]) : x < t.size := by
  simp only [List.mem_cons, List.not_mem_nil, or_false] at hx
  rcases hx with hx | hx | hx | hx | hx
  · exact h.parent_lt (h.parent_iff.1 hx.symm)
  · obtain ⟨q, l, r, hq⟩ := h.exists_list (.inl ((h.nextSibling_iff x p).2 hx.symm))
    exact h.child_lt (p := q) (hq ▸ by simp)
  · obtain ⟨q, l, r, hq⟩ := h.exists_list (.inr ((h.nextSibling_iff p x).1 hx.symm))
    exact h.child_lt (p := q) (hq ▸ by simp)
  · rw [h.firstChild] at hx
    exact h.child_lt (List.mem_of_head? hx.symm)
  · rw [h.links.lastChild] at hx
    exact h.child_lt (List.mem_of_getLast? hx.symm)

/-- A well-linked tree has the link invariant. -/
theorem Linked.linkInvariant (h : t.Linked) : t.LinkInvariant where
  children p := by
    refine ⟨t.kids p, ?_, h.nodup p, fun c => h.parent_iff.symm, h.links.lastChild p⟩
    rw [h.firstChild]
    exact h.siblingChain (List.nil_append _).symm
  inverse := h.nextSibling_iff
  orphan _ hx := h.links.orphan hx
  inside n hn x hx := by
    obtain ⟨p, hp⟩ := Array.getElem?_of_mem hn
    have hnode : t.node? (some p) = some n := hp
    refine h.link_lt (p := p) ?_
    simpa [Tree.parent, Tree.prevSibling, Tree.nextSibling, Tree.firstChild, Tree.lastChild, hnode] using hx
  acyclic x hx := by
    have hswap : TransGen (Function.swap (Child t.kids)) x x :=
      TransGen.mono (fun _ _ hc => h.parent_iff.1 hc) x x hx
    exact h.acyclic x (Relation.transGen_swap.1 hswap)

/-! ### Edits that keep a tree well linked -/

/-- A copy is made by storing names and adding one node. -/
theorem preserves_copy {I : Tree → Prop} (hw : WritableAt I none)
    (hp : ∀ {t : Tree} (data : NodeData Symbol), I t → I (t.push data).2) (content : Content) :
    Preserves I (Edit.copy content) := by
  have hpush : ∀ data, Preserves I (modifyGet (·.push data) : Edit Nat) := fun data _ ht => hp data ht
  cases content with
  | element name attributes =>
    refine .bind (hw.internName name) fun name => ?_
    refine .bind (.mapM (fun a => ?_) attributes) fun attributes => ?_
    · exact .bind (hw.internName a.name) fun _ => .pure _
    · exact hpush (.element name attributes)
  | document => exact hpush .document
  | doctype name publicId systemId => exact hpush (.doctype name publicId systemId)
  | text content => exact hpush (.text content)
  | comment content => exact hpush (.comment content)
  | instruction target content => exact hpush (.instruction target content)

section

variable {I : Tree → Prop} (hc : ∀ content, Preserves I (Edit.copy content))
  (hi : ∀ {t u : Tree} {parent child : Ref} {reference : Option Ref},
    t.insertBefore parent child reference = .ok u → I t → I u)
include hc hi

/-- Adding copies of a forest appends nodes one by one. -/
theorem preserves_plant (parent : Ref) (forest : Forest Content) :
    Preserves I (Edit.plant Edit.copy parent forest) := by
  induction forest generalizing parent with
  | nil => exact .pure ()
  | node content below rest ihb ihr =>
    refine (hc content).bind fun id => (ihb (some id)).bind fun _ => ?_
    exact (preserves_ofExcept fun ht hu => hi hu ht).bind fun _ => ihr parent

theorem preserves_copyFrom (source : Tree) (r : Ref) : Preserves I (Edit.copyFrom source r) := by
  unfold Edit.copyFrom
  split
  · exact .throw _
  · exact (hc _).bind fun id => (preserves_plant hc hi (some id) _).bind fun _ => .pure id

end

theorem Linked.of_setText (h : t.Linked) {r : Ref} {content : String} (hu : t.setText r content = .ok u) :
    u.Linked :=
  (h.of_sameLinks (sameShape_of_setText hu).toSameLinks).1

theorem Linked.push (h : t.Linked) (data : NodeData Symbol) : (t.push data).2.Linked :=
  (h.of_sameLinks (.push t data)).1

/-- Every edit that is not refused leaves a well-linked tree well linked. -/
theorem invariant_linked : Invariant Linked where
  store {t} s h := (h.of_sameLinks (SameShape.symbols t (t.symbols.intern s).2).toSameLinks).1
  attributes {t} r new h := (h.of_sameLinks (SameShape.putAttributes t r new).toSameLinks).1
  detach hu h := h.of_detach hu
  insertBefore hu h := h.of_insertBefore hu
  push data h := h.push data
  setText hu h := h.of_setText hu

/-! ### Calls -/

/-- A call that makes, moves or writes nodes of a tree. -/
inductive Call where
  | create (data : NodeData Symbol)
  | createElement (space written : String)
  | appendChild (parent child : Ref)
  | insertBefore (parent child : Ref) (reference : Option Ref)
  | replaceChild (parent new old : Ref)
  | detach (node : Ref)
  | removeChildren (node : Ref)
  | copyFrom (source : Tree) (node : Ref)
  | setAttribute (element : Ref) (written value : String)
  | removeAttribute (element : Ref) (written : String)
  | setAttributeNS (element : Ref) (space written value : String)
  | removeAttributeNS (element : Ref) (space localPart : String)
  | setText (node : Ref) (content : String)

namespace Call

/-- What a call does, its answer left out. -/
def edit : Call → Edit Unit
  | create data => discard (modifyGet (·.push data))
  | createElement space written => discard (Edit.createElement space written)
  | appendChild parent child => Edit.ofExcept (·.appendChild parent child)
  | insertBefore parent child reference => Edit.ofExcept (·.insertBefore parent child reference)
  | replaceChild parent new old => Edit.ofExcept (·.replaceChild parent new old)
  | detach node => Edit.ofExcept (·.detach node)
  | removeChildren node => Edit.ofExcept (·.removeChildren node)
  | copyFrom source node => discard (Edit.copyFrom source node)
  | setAttribute element written value => Edit.setAttribute element written value
  | removeAttribute element written => discard (Edit.removeAttribute element written)
  | setAttributeNS element space written value => Edit.setAttributeNS element space written value
  | removeAttributeNS element space localPart => discard (Edit.removeAttributeNS element space localPart)
  | setText node content => Edit.ofExcept (·.setText node content)

/-- The tree that a call leaves, whether it is refused or not. -/
def after (call : Call) (t : Tree) : Tree := (call.edit t).2

end Call

theorem Invariant.copyFrom {I : Tree → Prop} (h : Invariant I) (source : Tree) (r : Ref) :
    Preserves I (Edit.copyFrom source r) :=
  preserves_copyFrom (preserves_copy (h.toWritable.at none) h.push) h.insertBefore source r

/-- A call preserves what the single edits preserve, whatever its arguments are. -/
theorem Invariant.call {I : Tree → Prop} (h : Invariant I) (call : Call) : Preserves I call.edit := by
  have hw := h.toWritable.at
  cases call with
  | create data => exact .discard fun _ ht => h.push data ht
  | createElement space written => exact .discard fun _ ht => h.steady.createElement space written ht
  | appendChild parent child => exact preserves_ofExcept fun ht hu => h.insertBefore hu ht
  | insertBefore parent child reference => exact preserves_ofExcept fun ht hu => h.insertBefore hu ht
  | replaceChild parent new old => exact preserves_ofExcept fun ht hu => h.toMovable.replaceChild hu ht
  | detach node => exact preserves_ofExcept fun ht hu => h.detach hu ht
  | removeChildren node => exact preserves_ofExcept fun ht hu => h.toMovable.removeChildren hu ht
  | copyFrom source node => exact (h.copyFrom source node).discard
  | setAttribute element written value => exact (hw element).setAttribute written value
  | removeAttribute element written => exact ((hw element).removeAttribute written).discard
  | setAttributeNS element space written value => exact (hw element).setAttributeNS space written value
  | removeAttributeNS element space localPart => exact ((hw element).removeAttributeNS space localPart).discard
  | setText node content => exact preserves_ofExcept fun ht hu => h.setText hu ht

/-- A call leaves a well-linked tree well linked, whatever its arguments are. -/
theorem Linked.call (h : t.Linked) (call : Call) : (call.after t).Linked := invariant_linked.call call t h

end RichText.Tree
