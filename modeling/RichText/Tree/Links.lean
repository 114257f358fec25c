import RichText.Tree.Basic

/-!
Moving nodes: detaching, inserting and replacing children.

A refused edit gives an error and no new tree, so that it leaves nothing behind.
-/

namespace RichText.Tree

/-- Makes `left` and `right` neighbours among the children of `parent`. A missing neighbour is an end of the
child list, which the parent then points to. -/
def join (t : Tree) (parent left right : Ref) : Tree :=
  let t :=
    match left with
    | some _ => t.update left fun n => { n with next := right }
    | none => t.update parent fun n => { n with first := right }
  match right with
  | some _ => t.update right fun n => { n with prev := left }
  | none => t.update parent fun n => { n with last := left }

/-- Takes a node with its subtree out of its parent's child list. A node without a parent stays as it is. -/
def detach (t : Tree) (child : Ref) : Except TreeError Tree :=
  match t.node? child with
  | none => .error (.notFound child)
  | some n =>
    if n.parent.isNone then .ok t
    else
      .ok <| (t.join n.parent n.prev n.next).update child fun n =>
        { n with parent := none, prev := none, next := none }

/-- Puts a detached child between two neighbours in the child list of `parent`. -/
def link (t : Tree) (parent child left right : Ref) : Tree :=
  let t := t.update child fun n => { n with parent, prev := left, next := right }
  (t.join parent left child).join parent child right

/-- Inserts `child` before `reference` among the children of `parent`, or at the end if there is no
reference. A child that is attached elsewhere moves. -/
def insertBefore (t : Tree) (parent child : Ref) (reference : Option Ref) : Except TreeError Tree :=
  if (t.node? parent).isNone then .error (.notFound parent)
  else if (t.node? child).isNone then .error (.notFound child)
  else if t.isAncestorOrSelf child parent then .error (.hierarchy parent child)
  else
    match reference with
    | none => do
      let t ← t.detach child
      return t.link parent child (t.lastChild parent) none
    | some r =>
      if t.parent r ≠ parent then .error (.notAChild parent r)
      else if r = child then .ok t
      else do
        let t ← t.detach child
        return t.link parent child (t.prevSibling r) r

/-- Inserts `child` after the last child of `parent`. -/
def appendChild (t : Tree) (parent child : Ref) : Except TreeError Tree :=
  t.insertBefore parent child none

/-- Puts `new` in the place of `old` among the children of `parent` and detaches `old`. -/
def replaceChild (t : Tree) (parent new old : Ref) : Except TreeError Tree :=
  if parent.isNone || t.parent old ≠ parent then .error (.notAChild parent old)
  else if new = old then .ok t
  else do
    let t ← t.insertBefore parent new (some old)
    t.detach old

/-- Detaches every child of a node; each keeps its own subtree. -/
def removeChildren (t : Tree) (r : Ref) : Except TreeError Tree :=
  (t.children r).foldlM (fun t child => t.detach (some child)) t

end RichText.Tree
