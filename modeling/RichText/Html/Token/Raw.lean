import RichText.Html.Token.Tag

/-!
Text in which no tag counts but one end tag: titles, styles, scripts and the like.
-/

namespace RichText.Html

open Markup

/-- Whether a text continues a `<` to the end tag of the named element. -/
def closes (element : String) : List Char → Bool
  | '/' :: rest =>
    match afterWord? element.toList rest with
    | some (c :: _) => endsTagName c
    | _ => false
  | _ => false

/-- Splits a text before the end tag of the named element, or at its end. -/
def splitRaw (element : String) : List Char → List Char × List Char
  | [] => ([], [])
  | c :: rest =>
    if c = '<' && closes element rest then ([], c :: rest)
    else
      let (before, after) := splitRaw element rest
      (c :: before, after)

/-- How much of a script is hidden in a comment. `dashes` counts the dashes just read, up to two. -/
inductive ScriptPlace where
  /-- Outside comments. -/
  | outside
  /-- In the opening of a comment, of which `rest` more characters are known. -/
  | opening (rest : Nat)
  /-- In a comment, where an end tag still counts. -/
  | comment (dashes : Nat)
  /-- In a script within a comment, where an end tag ends that script alone. -/
  | nested (dashes : Nat)
  deriving DecidableEq, Repr

/-- Whether a text continues a `<` to a start tag of a script. -/
def opensScript (text : List Char) : Bool :=
  match afterWord? "script".toList text with
  | some (c :: _) => endsTagName c
  | _ => false

/-- The place in a script after one character, which `rest` follows. -/
def ScriptPlace.step (place : ScriptPlace) (c : Char) (rest : List Char) : ScriptPlace :=
  match place with
  | .outside => if c = '<' && (afterWord? "!--".toList rest).isSome then .opening 3 else .outside
  | .opening 0 => .outside
  | .opening 1 => .comment 2
  | .opening (n + 2) => .opening (n + 1)
  | .comment dashes =>
    if c = '-' then .comment (min 2 (dashes + 1))
    else if c = '>' && dashes = 2 then .outside
    else if c = '<' && opensScript rest then .nested 0
    else .comment 0
  | .nested dashes =>
    if c = '-' then .nested (min 2 (dashes + 1))
    else if c = '>' && dashes = 2 then .outside
    else if c = '<' && closes "script" rest then .comment 0
    else .nested 0

/-- Whether an end tag ends the script at this place. -/
def ScriptPlace.isExposed : ScriptPlace → Bool
  | .outside | .comment _ => true
  | .opening _ | .nested _ => false

/-- Splits a text before the end tag of the script that it begins with, or at its end. -/
def splitScript (place : ScriptPlace) : List Char → List Char × List Char
  | [] => ([], [])
  | c :: rest =>
    if c = '<' && place.isExposed && closes "script" rest then ([], c :: rest)
    else
      let (before, after) := splitScript (place.step c rest) rest
      (c :: before, after)

end RichText.Html
