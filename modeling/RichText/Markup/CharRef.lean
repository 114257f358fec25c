import Std.Data.HashMap
import RichText.Markup.CharRef.Table

/-!
Character references in markup text: `&name;`, `&#decimal;` and `&#xhex;`.

Of several names that match, the longest counts. Some names may stand without their semicolon; inside an
attribute value such a name counts only if no letter, digit or equals sign follows. What is no reference stays
as it is written.
-/

namespace RichText.Markup.CharRef

/-- The value of a hexadecimal digit. -/
def hexDigit? (c : Char) : Option Nat :=
  if '0' ≤ c && c ≤ '9' then some (c.toNat - '0'.toNat)
  else if 'a' ≤ c && c ≤ 'f' then some (c.toNat - 'a'.toNat + 10)
  else if 'A' ≤ c && c ≤ 'F' then some (c.toNat - 'A'.toNat + 10)
  else none

/-- The value of a decimal digit. -/
def decimalDigit? (c : Char) : Option Nat :=
  if '0' ≤ c && c ≤ '9' then some (c.toNat - '0'.toNat) else none

/-- Reads digits of a number system: the number, and how many digits it has. -/
def readNumber (digit? : Char → Option Nat) (base : Nat) (number count : Nat) : List Char → Nat × Nat
  | [] => (number, count)
  | c :: rest =>
    match digit? c with
    | some d => readNumber digit? base (number * base + d) (count + 1) rest
    | none => (number, count)

/-- The characters that the numbers 128 to 159 stand for, which follow the code page of old documents. -/
def replacements : List Nat :=
  [0x20AC, 0x81, 0x201A, 0x0192, 0x201E, 0x2026, 0x2020, 0x2021, 0x02C6, 0x2030, 0x0160, 0x2039, 0x0152,
   0x8D, 0x017D, 0x8F, 0x90, 0x2018, 0x2019, 0x201C, 0x201D, 0x2022, 0x2013, 0x2014, 0x02DC, 0x2122,
   0x0161, 0x203A, 0x0153, 0x9D, 0x017E, 0x0178]

/-- The character with a number. Numbers that stand for no character give the replacement character. -/
def character (number : Nat) : Char :=
  if number = 0 || number > 0x10FFFF || (0xD800 ≤ number && number ≤ 0xDFFF) then '\uFFFD'
  else if 0x80 ≤ number && number ≤ 0x9F then Char.ofNat (replacements.getD (number - 0x80) number)
  else Char.ofNat number

/-- Reads a hexadecimal number that may end in `+` or in the end of the text. -/
def readHex (s : String) : Nat := (readNumber hexDigit? 16 0 0 s.toList).1

/-- The entries of a data text, which stand between spaces and line ends. -/
def entries (data : String) : List String := (data.splitOn "\n").flatMap (·.splitOn " ")

/-- What the names stand for. -/
def named : Std.HashMap String (List Char) :=
  (entries namedData).foldl (fun table entry =>
    match entry.splitOn "=" with
    | [name, codes] => table.insert name ((codes.splitOn "+").map fun code => Char.ofNat (readHex code))
    | _ => table) ∅

/-- The names that may stand without a semicolon. -/
def bare : Std.HashMap String Unit :=
  (entries bareData).foldl (fun table name => table.insert name ()) ∅

/-- Whether a character is an ASCII letter or digit. -/
def isNameChar (c : Char) : Bool := c.isAlphanum

/-- The longest of the first `length` characters of `name` that is a name without semicolon: what it stands
for, and its length. -/
def bareMatch? (name : List Char) : Nat → Option (List Char × Nat)
  | 0 => none
  | length + 1 =>
    let candidate := String.ofList (name.take (length + 1))
    if bare.contains candidate then (named[candidate]?).map fun chars => (chars, length + 1)
    else bareMatch? name length

/-- The reference by name at the start of a text that follows an ampersand: what it stands for, and how many
characters it takes. -/
def namedMatch? (inValue : Bool) (text : List Char) : Option (List Char × Nat) :=
  let name := text.takeWhile isNameChar
  let rest := text.drop name.length
  let whole := if rest.head? = some ';' then named[String.ofList name]? else none
  match whole with
  | some chars => some (chars, name.length + 1)
  | none =>
    match bareMatch? name name.length with
    | none => none
    | some (chars, length) =>
      let next := (text.drop length).head?
      if inValue && next.any (fun c => c = '=' || isNameChar c) then none else some (chars, length)

/-- The reference by number at the start of a text that follows an ampersand and a number sign. -/
def numericMatch? (text : List Char) : Option (List Char × Nat) :=
  let (offset, number, count) :=
    match text with
    | 'x' :: digits | 'X' :: digits => (1, readNumber hexDigit? 16 0 0 digits)
    | digits => (0, readNumber decimalDigit? 10 0 0 digits)
  if count = 0 then none
  else
    let length := offset + count
    let length := if (text.drop length).head? = some ';' then length + 1 else length
    some ([character number], length)

/-- The reference at the start of a text that follows an ampersand. -/
def match? (inValue : Bool) : List Char → Option (List Char × Nat)
  | '#' :: rest => (numericMatch? rest).map fun (chars, length) => (chars, length + 1)
  | text => namedMatch? inValue text

/-- Replaces the references in a text. The first `skip` characters belong to the reference before. -/
def decodeFrom (inValue : Bool) : Nat → List Char → List Char
  | _, [] => []
  | skip + 1, _ :: rest => decodeFrom inValue skip rest
  | 0, c :: rest =>
    if c = '&' then
      match match? inValue rest with
      | some (chars, length) => chars ++ decodeFrom inValue length rest
      | none => c :: decodeFrom inValue 0 rest
    else c :: decodeFrom inValue 0 rest

/-- Replaces the references in a text between tags. -/
def decodeText (text : List Char) : List Char := decodeFrom false 0 text

/-- Replaces the references in an attribute value. -/
def decodeValue (value : List Char) : List Char := decodeFrom true 0 value

end RichText.Markup.CharRef
