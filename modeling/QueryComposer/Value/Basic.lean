import QueryComposer.BuildError
import QueryComposer.OrderedMap
import QueryComposer.VariableName

/-!
# Argument values

The values that stand in arguments: literals, lists, objects, references to variables, and the types
that only the declarations of an operation may hold.  `appendTo` writes a value after a text that is
already there.  Texts are not escaped: a string is written between quotes as it is, and a string
that begins with a dollar sign is a reference to a variable and needs no quotes.
-/

namespace QueryComposer

/-- An argument value. -/
inductive Value where
  | boolean (value : Bool)
  | float (value : Double)
  | int (value : Int64)
  | list (elements : List Value)
  /-- Members in order, their keys distinct. -/
  | object (members : List (String × Value))
  /-- A type, which declares a variable. -/
  | placeholder (type : InputType)
  | string (value : String)
  /-- The variable of this name, without dollar sign. -/
  | reference (name : String)

namespace Value

/-! ### Construction -/

/-- The variable of this name, given with or without its dollar sign. -/
def ofVariable (name : String) : Value := reference (VariableName.bare name)

/-- The object to which the members are written in order. -/
def ofMembers (members : List (String × Value)) : Value :=
  object (Entries.collect members)

/-- The kind of the value. -/
def kind : Value → ValueKind
  | boolean _ => .boolean
  | float _ => .float
  | int _ => .int
  | list _ => .list
  | object _ => .object
  | placeholder _ => .placeholder
  | string _ => .string
  | reference _ => .reference

/-! ### Equality -/

mutual

/-- Equality of values: objects are compared without regard to order, and numbers as numbers. -/
def equal : Value → Value → Bool
  | boolean a, boolean b => a == b
  | float x, float y => x == y
  | int m, int n => m == n
  | list xs, list ys => equalElements xs ys
  | object ms, object ns => ms.length == ns.length && equalMembers ms ns
  | placeholder s, placeholder t => s == t
  | string s, string t => s == t
  | reference s, reference t => s == t
  | _, _ => false
termination_by structural v => v

/-- Equality element by element. -/
def equalElements : List Value → List Value → Bool
  | [], [] => true
  | x :: xs, y :: ys => x.equal y && equalElements xs ys
  | _, _ => false
termination_by structural xs => xs

/-- Whether each of the first members has an equal value among the second. -/
def equalMembers : List (String × Value) → List (String × Value) → Bool
  | [], _ => true
  | (key, x) :: rest, ns =>
    (match Entries.find? key ns with
    | some y => x.equal y
    | none => false) && equalMembers rest ns
termination_by structural ms => ms

end

instance : BEq Value := ⟨equal⟩

instance : Inhabited Value := ⟨boolean false⟩

/-! ### Text -/

/-- Numbers are plain from `10 ^ -4` up to `10 ^ 16`, a positive exponent has no sign, and of two
equally near decimals the larger one is written. -/
def numberStyle : Double.Style where
  plainFrom := -4
  plainBelow := 16
  signsExponent := false
  tie := .upward

/-- The text of a string: bare when it begins with a dollar sign, otherwise in quotes. -/
def appendString (s sink : String) : String :=
  match s.toList with
  | '$' :: _ => sink ++ s
  | _ => sink ++ "\"" ++ s ++ "\""

mutual

/-- Write the value after `sink`. -/
def appendTo : Value → String → String
  | boolean b, sink => sink ++ (if b then "true" else "false")
  | float x, sink => sink ++ numberStyle.text x
  | int n, sink => sink ++ toString n.toInt
  | list elements, sink => appendElements true elements (sink ++ "[") ++ "]"
  | object members, sink => appendMembers true members (sink ++ "\x7b") ++ "\x7d"
  | placeholder t, sink => t.appendTo sink
  | string s, sink => appendString s sink
  | reference name, sink => sink ++ "$" ++ name
termination_by structural v => v

/-- Write the elements after `sink`, a comma before each but the `first`. -/
def appendElements (first : Bool) : List Value → String → String
  | [], sink => sink
  | v :: rest, sink =>
    appendElements false rest (v.appendTo (if first then sink else sink ++ ", "))
termination_by structural vs => vs

/-- Write the members after `sink`, a comma before each but the `first`. -/
def appendMembers (first : Bool) : List (String × Value) → String → String
  | [], sink => sink
  | (key, v) :: rest, sink =>
    let sink := if first then sink else sink ++ ", "
    appendMembers false rest (v.appendTo (sink ++ "\"" ++ key ++ "\": "))
termination_by structural ms => ms

end

/-- The text of the value. -/
def toGraphQL (v : Value) : String := v.appendTo ""

end Value

end QueryComposer
