import RichText.Html.Draft

/-!
End tags that do not match the innermost open element.

The end tag of a formatting element may come while other elements are open within it. The elements in between
that mark formatting are then doubled, so that every text keeps its formatting and the tree stays nested.
-/

namespace RichText.Html.Draft

/-- Closes the innermost element with this tag and all within it, unless a special element is open within
it. -/
def closeAny (tag : String) (d : Draft) : List Element → Draft
  | [] => d
  | e :: rest =>
    if e.is tag then
      let d := d.closeImplied tag
      { d with stack := closeThrough (·.id == e.id) d.stack }
    else if e.isOneOf specialTags then d
    else closeAny tag d rest

/-- Puts an element before or after another in the formatting in force, which has the latest first. -/
def placeFormatting (new : Element) (anchor : Nat) (replace : Bool) :
    List (Option Element) → List (Option Element)
  | [] => []
  | entry :: rest =>
    if entry.any (·.id == anchor) then
      if replace then some new :: rest else some new :: entry :: rest
    else entry :: placeFormatting new anchor replace rest

/-- The doubling of the formatting between a block and the formatting element that is closed. -/
structure Doubling where
  draft : Draft
  /-- What the next element out is to take in. -/
  inner : Nat
  /-- How many elements were passed. -/
  passed : Nat := 0
  /-- Which formatting the new element will follow; none of them if it takes the place of the old one. -/
  follows : Option Nat := none

/-- Passes one open element between the block and the formatting element. Formatting is doubled, the first
three times that it is met; any other element is closed. -/
def Doubling.pass (r : Doubling) (e : Element) : Doubling :=
  let passed := r.passed + 1
  let d := r.draft
  let isFormatting := d.formatting.any fun entry => entry.any (·.id == e.id)
  if !isFormatting || passed > 3 then
    { r with draft := (d.dropFormatting e.id).dropOpen e.id, passed }
  else
    let (new, d) := d.createElement e.space e.tag e.attributes
    let d := d.exchangeFormatting e.id new
    let d := { d with stack := d.stack.map fun (o : Element) => if o.id == e.id then new else o }
    let d := d.put (.inside new.id) r.inner
    { draft := d, inner := new.id, passed, follows := r.follows.orElse fun _ => some new.id }

/-- Closes a formatting element `e` within which `block` is open. `between` are the open elements between
them, innermost first, and `outer` is the one around `e`. -/
def closeAround (d : Draft) (e block outer : Element) (between : List Element) : Draft :=
  let r := between.foldl Doubling.pass { draft := d, inner := block.id }
  let d := r.draft.put (r.draft.placeFor outer) r.inner
  let (new, d) := d.createElement e.space e.tag e.attributes
  let d := d.edited (moveAll d.tree block.id new.id)
  let d := d.put (.inside block.id) new.id
  let d :=
    match r.follows with
    | some anchor => { d with formatting := placeFormatting new anchor false d.formatting }.dropFormatting e.id
    | none => { d with formatting := placeFormatting new e.id true d.formatting }
  let d := d.dropOpen e.id
  { d with stack := openWithin block.id new d.stack }
where
  /-- Moves the children of one node to another. -/
  moveAll (t : Tree) (source target : Nat) : Except TreeError Tree :=
    (t.children (some source)).foldlM (fun t child => t.appendChild (some target) (some child)) t
  /-- Opens an element right within another. -/
  openWithin (block : Nat) (new : Element) : List Element → List Element
    | [] => []
    | o :: rest => if o.id == block then new :: o :: rest else o :: openWithin block new rest

/-- One round of closing a formatting element; the answer says whether another round is to follow. -/
def closeFormattingOnce (d : Draft) (tag : String) : Draft × Bool :=
  match d.recentFormatting.find? (·.tag == tag) with
  | none => (closeAny tag d d.stack, false)
  | some e =>
    if !d.isOpen e.id then (d.dropFormatting e.id, false)
    else if !hasInScope inDefault (·.id == e.id) d.stack then (d, false)
    else
      let within := d.stack.takeWhile (·.id != e.id)
      let around := d.stack.drop (within.length + 1)
      match within.reverse.find? (·.isOneOf specialTags), around with
      | some block, outer :: _ =>
        let between := (within.dropWhile (·.id != block.id)).tail
        (d.closeAround e block outer between, true)
      | _, _ =>
        let d := { d with stack := around }
        (d.dropFormatting e.id, false)

/-- Rounds of closing a formatting element, at most so many. -/
def closeFormattingRounds (tag : String) : Nat → Draft → Draft
  | 0, d => d
  | rounds + 1, d =>
    match d.closeFormattingOnce tag with
    | (d, true) => closeFormattingRounds tag rounds d
    | (d, false) => d

/-- Closes the formatting element with this tag, wherever it is open. -/
def closeFormatting (d : Draft) (tag : String) : Draft :=
  if d.atElement tag && !d.current?.any fun e => d.formatting.any fun entry => entry.any (·.id == e.id) then
    d.pop
  else closeFormattingRounds tag 8 d

end RichText.Html.Draft
