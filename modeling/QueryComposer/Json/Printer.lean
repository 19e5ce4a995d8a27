import QueryComposer.Double.Notation
import QueryComposer.Json.Basic
import QueryComposer.Text.Join

/-!
# Writing JSON

The compact text of a value: no blanks, members in order.  In strings only the quote, the backslash
and the controls below U+0020 are escaped; five of the controls have letters of their own, and the
others are written as code units in lower-case digits.
-/

namespace QueryComposer.Json

/-- Numbers are plain from `10 ^ -5` up to `10 ^ 16`, exponents carry a sign, and of two equally
near decimals the even one is written. -/
def numberStyle : Double.Style where
  plainFrom := -5
  plainBelow := 16
  signsExponent := true
  tie := .toEven

/-- A lower-case hexadecimal digit. -/
def hexDigit (n : Nat) : Char :=
  if n < 10 then Char.ofNat ('0'.toNat + n) else Char.ofNat ('a'.toNat + (n - 10))

/-- A character as it stands in a string literal. -/
def escapedChar (c : Char) : List Char :=
  if c = '"' then ['\\', '"']
  else if c = '\\' then ['\\', '\\']
  else if c = '\x08' then ['\\', 'b']
  else if c = '\t' then ['\\', 't']
  else if c = '\n' then ['\\', 'n']
  else if c = '\x0c' then ['\\', 'f']
  else if c = '\r' then ['\\', 'r']
  else if c.toNat < 0x20 then
    ['\\', 'u', '0', '0', hexDigit (c.toNat / 16), hexDigit (c.toNat % 16)]
  else [c]

/-- A string literal. -/
def literal (s : String) : String :=
  String.ofList ('"' :: (s.toList.flatMap escapedChar ++ ['"']))

mutual

/-- The compact text of a value.  A number that is not finite has no literal and is written as
`null`. -/
def text : Json → String
  | null => "null"
  | bool b => if b then "true" else "false"
  | integer n => toString n
  | float x => if x.isFinite then numberStyle.text x else "null"
  | string s => literal s
  | array elements => "[" ++ Text.joinWith "," (elementTexts elements) ++ "]"
  | object members => "\x7b" ++ Text.joinWith "," (memberTexts members) ++ "\x7d"
termination_by structural j => j

/-- The texts of the elements. -/
def elementTexts : List Json → List String
  | [] => []
  | j :: rest => j.text :: elementTexts rest
termination_by structural js => js

/-- The texts of the members, key and value. -/
def memberTexts : List (String × Json) → List String
  | [] => []
  | (key, j) :: rest => (literal key ++ ":" ++ j.text) :: memberTexts rest
termination_by structural ms => ms

end

end QueryComposer.Json
