import RichText.Proofs.Tree.Calls
import RichText.Proofs.Tree.Contents

/-!
Access to the arena by number.

Moving nodes writes to them by their numbers, and takes the numbers from links. `detach?` and `insertBefore?` are
the moves with every such access checked: they have no answer where a number is missing or beyond the arena. On a
well-linked tree they always have one, and it is that of the move. `Accepts` is one accepted call whose accesses are
all inside the arena.
-/

namespace RichText.Tree

open Effects
open Relation (ReflTransGen)

variable {t u : Tree} {c p : Nat} {r parent child left right : Ref}

/-! ### Checked moves -/

/-- Changes a node by its number. There is no answer without a number, or with one that is beyond the arena. -/
def update? (t : Tree) (r : Ref) (f : Node → Node) : Option Tree :=
  match t.node? r with
  | some _ => some (t.update r f)
  | none => none

/-- `join` with checked accesses. -/
def join? (t : Tree) (parent left right : Ref) : Option Tree := do
  let t ←
    match left with
    | some _ => t.update? left fun n => { n with next := right }
    | none => t.update? parent fun n => { n with first := right }
  match right with
  | some _ => t.update? right fun n => { n with prev := left }
  | none => t.update? parent fun n => { n with last := left }

/-- `detach` with checked accesses. -/
def detach? (t : Tree) (child : Ref) : Option (Except TreeError Tree) :=
  match t.node? child with
  | none => some (.error (.notFound child))
  | some n =>
    if n.parent.isNone then some (.ok t)
    else do
      let t ← t.join? n.parent n.prev n.next
      let t ← t.update? child fun n => { n with parent := none, prev := none, next := none }
      return .ok t

/-- `link` with checked accesses. -/
def link? (t : Tree) (parent child left right : Ref) : Option Tree := do
  let t ← t.update? child fun n => { n with parent, prev := left, next := right }
  let t ← t.join? parent left child
  t.join? parent child right

/-- Detaches a node and links it to a neighbour that is read once it is detached, with checked accesses. -/
def move? (t : Tree) (parent child : Ref) (anchor right : Ref) (left : Node → Ref) :
    Option (Except TreeError Tree) := do
  match ← t.detach? child with
  | .error e => return .error e
  | .ok t => do
    let n ← t.node? anchor
    return .ok (← t.link? parent child (left n) right)

/-- `insertBefore` with checked accesses. -/
def insertBefore? (t : Tree) (parent child : Ref) (reference : Option Ref) : Option (Except TreeError Tree) :=
  if (t.node? parent).isNone then some (.error (.notFound parent))
  else if (t.node? child).isNone then some (.error (.notFound child))
  else if t.isAncestorOrSelf child parent then some (.error (.hierarchy parent child))
  else
    match reference with
    | none => t.move? parent child parent none Node.last
    | some r =>
      if t.parent r ≠ parent then some (.error (.notAChild parent r))
      else if r = child then some (.ok t)
      else t.move? parent child r r Node.prev

/-! ### Accesses inside the arena -/

/-- The number of a node of the arena. -/
def Has (t : Tree) (r : Ref) : Prop := ∃ x < t.size, r = some x

theorem Has.of_size (h : t.Has r) (hu : u.size = t.size) : u.Has r := by
  obtain ⟨x, hx, rfl⟩ := h
  exact ⟨x, hu ▸ hx, rfl⟩

theorem has_of_node? {n : Node} (h : t.node? r = some n) : t.Has r := by
  cases r with
  | none => cases h
  | some x => exact ⟨x, lt_of_node? h, rfl⟩

theorem has_of_parent (h : t.parent r ≠ none) : t.Has r := by
  obtain ⟨p, hp⟩ := Option.ne_none_iff_exists'.1 h
  obtain ⟨n, hn, -⟩ := Option.bind_eq_some_iff.1 hp
  exact has_of_node? hn

theorem Has.exists_node? (h : t.Has r) : ∃ n, t.node? r = some n := by
  obtain ⟨x, hx, rfl⟩ := h
  exact Tree.exists_node? hx

theorem Has.update? (h : t.Has r) (f : Node → Node) : t.update? r f = some (t.update r f) := by
  obtain ⟨n, hn⟩ := h.exists_node?
  rw [Tree.update?, hn]

theorem Has.join? (hp : t.Has parent) (hl : ∀ x, left = some x → t.Has left)
    (hr : ∀ x, right = some x → t.Has right) : t.join? parent left right = some (t.join parent left right) := by
  have hsize : ∀ (r : Ref) (f : Node → Node), (t.update r f).size = t.size := fun r f => size_update r f
  cases left with
  | some x =>
    rw [Tree.join?, (hl x rfl).update?]
    cases right with
    | some y => exact ((hr y rfl).of_size (hsize _ _)).update? _
    | none => exact (hp.of_size (hsize _ _)).update? _
  | none =>
    rw [Tree.join?, hp.update?]
    cases right with
    | some y => exact ((hr y rfl).of_size (hsize _ _)).update? _
    | none => exact (hp.of_size (hsize _ _)).update? _

theorem Has.link? (hp : t.Has parent) (hc : t.Has child) (hl : ∀ x, left = some x → t.Has left)
    (hr : ∀ x, right = some x → t.Has right) :
    t.link? parent child left right = some (t.link parent child left right) := by
  rw [Tree.link?, hc.update?, Tree.link]
  let v := t.update child fun n => { n with parent, prev := left, next := right }
  have hv : v.size = t.size := size_update child _
  have hjoin := (hp.of_size hv).join? (fun x hx => (hl x hx).of_size hv) fun _ _ => hc.of_size hv
  have hw : (v.join parent left child).size = t.size := (size_join parent left child).trans hv
  have hjoin' := (hp.of_size hw).join? (fun _ _ => hc.of_size hw) fun x hx => (hr x hx).of_size hw
  show (v.join? parent left child).bind _ = _
  rw [hjoin]
  exact hjoin'

namespace Linked

/-- The links of a node lead into the arena. -/
theorem has_link (h : t.Linked) {n : Node} (hn : t.node? r = some n) {l : Ref}
    (hl : l ∈ [n.parent, n.prev, n.next, n.first, n.last]) : ∀ x, l = some x → t.Has l := by
  obtain ⟨p, -, rfl⟩ := has_of_node? hn
  rintro x rfl
  refine ⟨x, h.link_lt (p := p) ?_, rfl⟩
  simpa only [Tree.parent, Tree.prevSibling, Tree.nextSibling, Tree.firstChild, Tree.lastChild, hn,
    Option.bind_some] using hl

/-- On a well-linked tree detaching accesses nothing beyond the arena. -/
theorem detach?_eq (h : t.Linked) (child : Ref) : t.detach? child = some (t.detach child) := by
  rw [Tree.detach?, Tree.detach]
  cases hn : t.node? child with
  | none => rfl
  | some n =>
    dsimp only
    split
    · rfl
    · rename_i hp
      obtain ⟨p, hp⟩ := Option.ne_none_iff_exists'.1 fun he => hp (Option.isNone_iff_eq_none.2 he)
      have hparent : t.Has n.parent := h.has_link hn (by simp) p hp
      have hjoin := hparent.join? (h.has_link hn (l := n.prev) (by simp)) (h.has_link hn (l := n.next) (by simp))
      have hsize := size_join (t := t) n.parent n.prev n.next
      simp only [hjoin, Option.bind_eq_bind, Option.bind_some, ((has_of_node? hn).of_size hsize).update?]
      rfl

/-- Detaching keeps the arena and leaves a well-linked tree, so that the links that are read next lead into it. -/
theorem move?_eq (h : t.Linked) {anchor : Ref} {side : Node → Ref} {read : Tree → Ref} (hp : t.Has parent)
    (hc : t.Has child) (ha : t.Has anchor) (hr : ∀ x, right = some x → t.Has right)
    (hs : ∀ n : Node, side n ∈ [n.parent, n.prev, n.next, n.first, n.last])
    (hread : ∀ {u : Tree} {n : Node}, u.node? anchor = some n → read u = side n) :
    t.move? parent child anchor right side =
      some (t.detach child >>= fun u => .ok (u.link parent child (read u) right)) := by
  rw [move?, h.detach?_eq]
  cases hu : t.detach child with
  | error e => rfl
  | ok u =>
    have hsize : u.size = t.size := (sameData_of_detach hu).size
    obtain ⟨n, hn⟩ := (ha.of_size hsize).exists_node?
    have hlink := (hp.of_size hsize).link? (hc.of_size hsize) ((h.of_detach hu).has_link hn (hs n))
      fun x hx => (hr x hx).of_size hsize
    simp only [Option.bind_eq_bind, Option.bind_some, hn, hlink]
    rw [← hread hn]
    rfl

/-- On a well-linked tree inserting accesses nothing beyond the arena. -/
theorem insertBefore?_eq (h : t.Linked) (parent child : Ref) (reference : Option Ref) :
    t.insertBefore? parent child reference = some (t.insertBefore parent child reference) := by
  unfold Tree.insertBefore? Tree.insertBefore
  cases hp : t.node? parent with
  | none => rfl
  | some m =>
    cases hc : t.node? child with
    | none => rfl
    | some n =>
      have hparent := has_of_node? hp
      have hchild := has_of_node? hc
      simp only [Option.isNone_some, Bool.false_eq_true, if_false]
      split
      · rfl
      · cases reference with
        | none =>
          refine h.move?_eq hparent hchild hparent (fun x hx => by cases hx) (fun n => by simp) fun hn => ?_
          rw [lastChild, hn, Option.bind_some]
        | some r =>
          dsimp only
          split
          · rfl
          · rename_i hr
            -- the reference has a parent, so it is a node of the arena
            have hreference : t.Has r := by
              obtain ⟨x, -, rfl⟩ := hparent
              exact has_of_parent fun he => Option.some_ne_none x ((not_not.1 hr).symm.trans he)
            split
            · rfl
            · refine h.move?_eq hparent hchild hreference (fun _ _ => hreference) (fun n => by simp) fun hn => ?_
              rw [prevSibling, hn, Option.bind_some]

end Linked

/-! ### Accepted calls -/

/-- A tree accepts one call, which leads to another tree without an access beyond the arena. -/
inductive Accepts : Tree → Tree → Prop
  /-- Strings are stored. -/
  | store {t : Tree} {symbols : SymbolTable} (h : t.symbols.Extends symbols) : Accepts t { t with symbols }
  /-- A new node is added, detached. -/
  | push (t : Tree) (data : NodeData Symbol) : Accepts t (t.push data).2
  /-- An element is given other attributes. -/
  | attributes (t : Tree) (r : Ref) (new : List (Attribute Symbol)) : Accepts t (t.putAttributes r new)
  /-- A text node is given another text. -/
  | text {t u : Tree} {r : Ref} {content : String} (h : t.setText r content = .ok u) : Accepts t u
  /-- A node is detached. -/
  | detach {t u : Tree} {r : Ref} (h : t.detach? r = some (.ok u)) : Accepts t u
  /-- A node is inserted. -/
  | insertBefore {t u : Tree} {parent child : Ref} {reference : Option Ref}
      (h : t.insertBefore? parent child reference = some (.ok u)) : Accepts t u

/-- Calls that are accepted lead from one well-linked tree to another. -/
def Leads (t u : Tree) : Prop := u.Linked ∧ ReflTransGen Accepts t u

theorem Leads.refl (h : t.Linked) : t.Leads t := ⟨h, .refl⟩

/-- Edits that are not refused consist of accepted calls. -/
theorem steady_leads (t : Tree) : Steady t.Leads where
  store {u} s h := ⟨invariant_linked.store s h.1, h.2.tail (.store (u.symbols.intern_spec s).1)⟩
  attributes r new h := ⟨invariant_linked.attributes r new h.1, h.2.tail (.attributes _ r new)⟩
  detach {u v r} hv h := by
    refine ⟨h.1.of_detach hv, h.2.tail (.detach (r := r) ?_)⟩
    rw [h.1.detach?_eq, hv]
  insertBefore {u v parent child reference} hv h := by
    have hchecked : u.insertBefore? parent child reference = some (.ok v) := by rw [h.1.insertBefore?_eq, hv]
    exact ⟨h.1.of_insertBefore hv, h.2.tail (.insertBefore hchecked)⟩
  createElement {u} space written h := by
    refine ⟨invariant_linked.steady.createElement space written h.1, ?_⟩
    have hx := (u.symbols.internName_spec (.ofWritten space written)).1
    exact (h.2.tail (.store hx)).tail (.push _ _)

/-- Texts are written by accepted calls. -/
theorem Leads.setText (h : t.Leads u) {v : Tree} {content : String} (hv : u.setText r content = .ok v) : t.Leads v :=
  ⟨h.1.of_setText hv, h.2.tail (.text hv)⟩

/-- Copying the children of a node of another tree takes accepted calls only. -/
theorem Leads.copyChildren (h : t.Leads u) (source : Tree) (container parent : Ref) :
    t.Leads (Edit.copyChildren source container parent u).2 :=
  have hcopy := preserves_copy ((steady_leads t).toWritable.at none)
    fun data h => ⟨h.1.push data, h.2.tail (.push _ data)⟩
  preserves_plant hcopy (steady_leads t).insertBefore parent (source.contentBelow container) u h

end RichText.Tree
