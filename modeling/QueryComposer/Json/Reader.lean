import QueryComposer.Double.Nearest
import QueryComposer.Json.Basic

/-!
# Reading JSON

A strict reader of JSON texts.  The text is one value with blanks around it; there are no comments,
no commas before a closing bracket, no raw controls in strings and no lone surrogates.  Each reader
below takes the characters still to be read and gives what it read together with the rest.

A number without fraction and exponent from `-2 ^ 63` up to `2 ^ 64 - 1` is kept whole, except for
`-0`; any other number is the nearest double, and one that would be infinite is refused.

Rounding is where this reader is idealised.  The JSON library of the tool converts a number with a
fraction or an exponent, or one too long to be kept whole, by floating-point arithmetic unless it is
built to round correctly, so that the result may be a neighbour of the nearest double: it reads
`1.2e-30` as `1.2000000000000001e-30`, and refuses `1.7976931348623158e308`, which rounds to the
largest double.

The text is read as a syntax tree first, a `Spelling`, in which numbers stand as they are written;
its value is taken afterwards.  `Json.parse` reads values of any depth, `Json.parseWithin` only
those whose brackets are nested at most a given number of times.
-/

namespace QueryComposer.Json

/-! ### Blanks -/

/-- The four characters that may stand between the parts of a value. -/
def isSpace (c : Char) : Bool :=
  c == ' ' || c == '\n' || c == '\t' || c == '\r'

/-- The characters after the leading blanks. -/
def skipSpaces (cs : List Char) : List Char :=
  cs.dropWhile isSpace

/-! ### Strings -/

/-- A piece of a string literal: a character, or a code unit given by four hexadecimal digits. -/
inductive Piece where
  /-- A character that stands for itself, or a short escape. -/
  | char (c : Char)
  /-- A 16-bit code unit. -/
  | unit (n : Nat)

/-- The value of a hexadecimal digit of either case. -/
def hexValue? (c : Char) : Option Nat :=
  if '0' ≤ c ∧ c ≤ '9' then some (c.toNat - '0'.toNat)
  else if 'a' ≤ c ∧ c ≤ 'f' then some (c.toNat - 'a'.toNat + 10)
  else if 'A' ≤ c ∧ c ≤ 'F' then some (c.toNat - 'A'.toNat + 10)
  else none

/-- The code unit written by four hexadecimal digits. -/
def codeUnit? (a b c d : Char) : Option Nat := do
  let a ← hexValue? a
  let b ← hexValue? b
  let c ← hexValue? c
  let d ← hexValue? d
  return ((a * 16 + b) * 16 + c) * 16 + d

/-- The character that a backslash and this letter stand for. -/
def shortEscape? : Char → Option Char
  | '"' => some '"'
  | '\\' => some '\\'
  | '/' => some '/'
  | 'b' => some '\x08'
  | 'f' => some '\x0c'
  | 'n' => some '\n'
  | 'r' => some '\r'
  | 't' => some '\t'
  | _ => none

/-- The pieces of a string literal up to its closing quote, and what follows the quote. -/
def readPieces : List Char → Option (List Piece × List Char)
  | [] => none
  | '"' :: rest => some ([], rest)
  | '\\' :: 'u' :: a :: b :: c :: d :: rest => do
    let n ← codeUnit? a b c d
    let (pieces, rest) ← readPieces rest
    return (.unit n :: pieces, rest)
  | '\\' :: e :: rest => do
    let c ← shortEscape? e
    let (pieces, rest) ← readPieces rest
    return (.char c :: pieces, rest)
  | c :: rest =>
    if c.toNat < 0x20 then none
    else do
      let (pieces, rest) ← readPieces rest
      return (.char c :: pieces, rest)

/-- Whether the code unit opens a surrogate pair. -/
def isHighSurrogate (n : Nat) : Bool := 0xD800 ≤ n && n ≤ 0xDBFF

/-- Whether the code unit closes a surrogate pair. -/
def isLowSurrogate (n : Nat) : Bool := 0xDC00 ≤ n && n ≤ 0xDFFF

/-- The characters that the pieces stand for; a surrogate must be half of a pair. -/
def ofPieces : List Piece → Option (List Char)
  | [] => some []
  | .char c :: rest => (ofPieces rest).map (c :: ·)
  | .unit n :: rest =>
    if isHighSurrogate n then
      match rest with
      | .unit m :: rest =>
        if isLowSurrogate m then
          (ofPieces rest).map (Char.ofNat (0x10000 + (n - 0xD800) * 0x400 + (m - 0xDC00)) :: ·)
        else none
      | _ => none
    else if isLowSurrogate n then none
    else (ofPieces rest).map (Char.ofNat n :: ·)

/-- The string whose opening quote has been read. -/
def readString (cs : List Char) : Option (String × List Char) := do
  let (pieces, rest) ← readPieces cs
  let chars ← ofPieces pieces
  return (String.ofList chars, rest)

/-! ### Numbers -/

/-- The whole number that the decimal digits write. -/
def digitsValue (cs : List Char) : Nat :=
  cs.foldl (fun n c => 10 * n + (c.toNat - '0'.toNat)) 0

/-- The leading digits and what follows them. -/
def readDigits (cs : List Char) : List Char × List Char :=
  (cs.takeWhile Char.isDigit, cs.dropWhile Char.isDigit)

/-- The parts of a number as it is written. -/
structure Numeral where
  /-- Whether a minus sign stands in front. -/
  negative : Bool
  /-- The digits before the point. -/
  whole : List Char
  /-- The digits after the point, when there is one. -/
  fraction : Option (List Char)
  /-- The exponent, when there is one. -/
  exponent : Option Int

/-- The digits before the point: a zero stands alone. -/
def readWhole (cs : List Char) : Option (List Char × List Char) :=
  match readDigits cs with
  | ([], _) => none
  | ('0' :: _ :: _, _) => none
  | (digits, rest) => some (digits, rest)

/-- The point and the digits after it, if a point comes next. -/
def readFraction : List Char → Option (Option (List Char) × List Char)
  | '.' :: rest =>
    match readDigits rest with
    | ([], _) => none
    | (digits, rest) => some (some digits, rest)
  | cs => some (none, cs)

/-- The sign of an exponent and what follows it. -/
def readSign : List Char → Bool × List Char
  | '-' :: rest => (true, rest)
  | '+' :: rest => (false, rest)
  | cs => (false, cs)

/-- The exponent, if its mark comes next. -/
def readExponent : List Char → Option (Option Int × List Char)
  | c :: rest =>
    if c = 'e' ∨ c = 'E' then
      let (negative, rest) := readSign rest
      match readDigits rest with
      | ([], _) => none
      | (digits, rest) =>
        let n : Int := digitsValue digits
        some (some (if negative then -n else n), rest)
    else some (none, c :: rest)
  | [] => some (none, [])

/-- A number as it is written. -/
def readNumeral (cs : List Char) : Option (Numeral × List Char) := do
  let (negative, cs) :=
    match cs with
    | '-' :: rest => (true, rest)
    | _ => (false, cs)
  let (whole, cs) ← readWhole cs
  let (fraction, cs) ← readFraction cs
  let (exponent, cs) ← readExponent cs
  return (⟨negative, whole, fraction, exponent⟩, cs)

/-- Whether the number is kept whole. -/
def isKeptWhole (n : Int) : Bool :=
  -9223372036854775808 ≤ n && n < 18446744073709551616

/-- The double nearest to the number, unless it is infinite; the JSON library of the tool may miss
it narrowly. -/
def Numeral.toFloat? (t : Numeral) : Option Json :=
  let fraction := t.fraction.getD []
  let exponent := t.exponent.getD 0 - fraction.length
  let x := Double.ofDecimal t.negative (digitsValue (t.whole ++ fraction)) exponent
  if x.isFinite then some (float x) else none

/-- The value of a number. -/
def Numeral.value? (t : Numeral) : Option Json :=
  match t.fraction, t.exponent with
  | none, none =>
    let magnitude := digitsValue t.whole
    let n : Int := if t.negative then -magnitude else magnitude
    if isKeptWhole n && !(t.negative && magnitude == 0) then some (integer n) else t.toFloat?
  | _, _ => t.toFloat?

/-! ### Syntax trees -/

/-- A JSON text as a tree, with numbers as they are written. -/
inductive Spelling where
  /-- The word `null`. -/
  | null
  /-- One of the words `true` and `false`. -/
  | bool (value : Bool)
  /-- A number. -/
  | number (numeral : Numeral)
  /-- A string literal, by the text it stands for. -/
  | string (value : String)
  /-- Elements in brackets. -/
  | array (elements : List Spelling)
  /-- Members in braces, repeated keys included. -/
  | object (members : List (String × Spelling))

mutual

/-- The value that is written, unless a number in it would be infinite. -/
def Spelling.value? : Spelling → Option Json
  | .null => some null
  | .bool b => some (bool b)
  | .number t => t.value?
  | .string s => some (string s)
  | .array elements => do
    return array (← elementValues? elements)
  | .object members => do
    return object (← memberValues? members)
termination_by structural s => s

/-- The values of elements. -/
def elementValues? : List Spelling → Option (List Json)
  | [] => some []
  | s :: rest => do
    let j ← s.value?
    return j :: (← elementValues? rest)
termination_by structural ss => ss

/-- The values of members. -/
def memberValues? : List (String × Spelling) → Option (List (String × Json))
  | [] => some []
  | (key, s) :: rest => do
    let j ← s.value?
    return (key, j) :: (← memberValues? rest)
termination_by structural ms => ms

end

mutual

/-- The value at the head of the text, as it is written.  Twice the number of characters is `fuel`
enough, and `depth` is the number of brackets that may still be opened. -/
def readSpelling : (fuel depth : Nat) → List Char → Option (Spelling × List Char)
  | 0, _, _ => none
  | fuel + 1, depth, cs =>
    match skipSpaces cs with
    | 'n' :: 'u' :: 'l' :: 'l' :: rest => some (.null, rest)
    | 't' :: 'r' :: 'u' :: 'e' :: rest => some (.bool true, rest)
    | 'f' :: 'a' :: 'l' :: 's' :: 'e' :: rest => some (.bool false, rest)
    | '"' :: rest => do
      let (s, rest) ← readString rest
      return (.string s, rest)
    | '[' :: rest =>
      match depth with
      | 0 => none
      | depth + 1 =>
        match skipSpaces rest with
        | ']' :: rest => some (.array [], rest)
        | rest => do
          let (elements, rest) ← readElements fuel depth rest
          return (.array elements, rest)
    | '\x7b' :: rest =>
      match depth with
      | 0 => none
      | depth + 1 =>
        match skipSpaces rest with
        | '\x7d' :: rest => some (.object [], rest)
        | rest => do
          let (members, rest) ← readMembers fuel depth rest
          return (.object members, rest)
    | rest => do
      let (numeral, rest) ← readNumeral rest
      return (.number numeral, rest)

/-- The elements of an array up to its closing bracket. -/
def readElements : (fuel depth : Nat) → List Char → Option (List Spelling × List Char)
  | 0, _, _ => none
  | fuel + 1, depth, cs => do
    let (s, rest) ← readSpelling fuel depth cs
    match skipSpaces rest with
    | ',' :: rest => do
      let (ss, rest) ← readElements fuel depth rest
      return (s :: ss, rest)
    | ']' :: rest => some ([s], rest)
    | _ => none

/-- The members of an object up to its closing brace. -/
def readMembers : (fuel depth : Nat) → List Char → Option (List (String × Spelling) × List Char)
  | 0, _, _ => none
  | fuel + 1, depth, cs =>
    match skipSpaces cs with
    | '"' :: rest => do
      let (key, rest) ← readString rest
      match skipSpaces rest with
      | ':' :: rest => do
        let (s, rest) ← readSpelling fuel depth rest
        match skipSpaces rest with
        | ',' :: rest => do
          let (members, rest) ← readMembers fuel depth rest
          return ((key, s) :: members, rest)
        | '\x7d' :: rest => some ([(key, s)], rest)
        | _ => none
      | _ => none
    | _ => none

end

/-- What the characters write, with at most `depth` brackets open at once. -/
def spellingOf? (depth : Nat) (cs : List Char) : Option Spelling := do
  let (s, rest) ← readSpelling (2 * cs.length + 1) depth cs
  match skipSpaces rest with
  | [] => return s
  | _ => none

/-- The value that the text writes, with at most `depth` brackets open at once. -/
def parseWithin (depth : Nat) (text : String) : Option Json := do
  let s ← spellingOf? depth text.toList
  s.value?

/-- The value that the text writes. -/
def parse (text : String) : Option Json :=
  parseWithin text.length text

end QueryComposer.Json
