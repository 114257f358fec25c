/-!
The portions in which an XML text is taken in.

A text comes in portions of a fixed number of bytes. The end of a script ends the reading of the portion that
it stands in: what is left of that portion is read with the next one, and after the last portion it is lost.
For all else it does not matter where portions end.
-/

namespace RichText.Xml

/-- The number of bytes in a portion. -/
def portionSize : Nat := 4096

/-- For every portion of a text, the number of characters after it. `room` is the number of bytes that are
left in the portion. A portion ends before a character that it cuts; that character comes in a portion of its
own, with those after it that fit into four bytes. Within such a small portion, `small` is the number of bytes
that are left in it. -/
def portionEnds : (room : Nat) → (small : Option Nat) → List Char → List Nat
  | _, _, [] => [0]
  | room, some left, c :: rest =>
    if c.utf8Size ≤ left then portionEnds (room - c.utf8Size) (some (left - c.utf8Size)) rest
    else (rest.length + 1) :: portionEnds (room - c.utf8Size) none rest
  | room, none, c :: rest =>
    if c.utf8Size ≤ room then portionEnds (room - c.utf8Size) none rest
    else if room = 0 then (rest.length + 1) :: portionEnds (portionSize - c.utf8Size) none rest
    else (rest.length + 1) :: portionEnds (portionSize + room - c.utf8Size) (some (4 - c.utf8Size)) rest

/-- The portions that are left once the one is dropped in which the text before the last `remaining`
characters ends. -/
def portionsAfter (ends : List Nat) (remaining : Nat) : List Nat :=
  (ends.dropWhile (remaining < ·)).drop 1

end RichText.Xml
