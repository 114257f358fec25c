import RichText.Markup.Characters

/-!
Comments.

A comment ends with `-->` or `--!>`. It is empty if it is closed right after its opening, and the end of the
text closes it too.
-/

namespace RichText.Markup

/-- Where in a comment the reading is. -/
inductive CommentPlace where
  /-- After the opening. -/
  | start
  /-- After the opening and one dash. -/
  | startDash
  | body
  /-- After one dash. -/
  | dash
  /-- After two dashes. -/
  | dashes
  /-- After two dashes and an exclamation mark. -/
  | bang
  | finished
  deriving DecidableEq, Repr

/-- One character of the content: what it adds and where the reading is then. -/
def CommentPlace.stepBody (c : Char) : List Char × CommentPlace :=
  if c = '-' then ([], .dash) else ([cleaned c], .body)

/-- Reads one character: what is added to the content, and where the reading is then. -/
def CommentPlace.step (place : CommentPlace) (c : Char) : List Char × CommentPlace :=
  let after (held : List Char) := (held ++ (stepBody c).1, (stepBody c).2)
  match place with
  | .start => if c = '-' then ([], .startDash) else if c = '>' then ([], .finished) else stepBody c
  | .startDash =>
    if c = '-' then ([], .dashes) else if c = '>' then ([], .finished) else after ['-']
  | .body => stepBody c
  | .dash => if c = '-' then ([], .dashes) else after ['-']
  | .dashes =>
    if c = '>' then ([], .finished)
    else if c = '!' then ([], .bang)
    else if c = '-' then (['-'], .dashes)
    else after ['-', '-']
  | .bang => if c = '>' then ([], .finished) else after ['-', '-', '!']
  | .finished => ([], .finished)

/-- Reads a comment after its opening: the content and the text after the comment. `content` is what was
read so far, reversed. -/
def readComment (place : CommentPlace) (content : List Char) : List Char → List Char × List Char
  | [] => (content.reverse, [])
  | c :: rest =>
    let (added, place) := place.step c
    let content := added.reverse ++ content
    if place = .finished then (content.reverse, rest) else readComment place content rest

/-- Reads what is taken for a comment up to the next closing bracket. -/
def readBogusComment (text : List Char) : List Char × List Char :=
  let content := text.takeWhile (· ≠ '>')
  (content.map cleaned, text.drop (content.length + 1))

end RichText.Markup
