import QueryComposer.Double.Basic
import QueryComposer.OrderedMap

/-!
# JSON values

A JSON value as a tree.  Numbers are either whole or double-precision, and the two never mix.  The
members of an object are kept as they are written, repeated keys included; `merged` gives the value
such a tree stands for, in which a repeated key keeps its first place and its last value.
-/

namespace QueryComposer

/-- A JSON value. -/
inductive Json where
  /-- The value `null`. -/
  | null
  /-- A truth value. -/
  | bool (value : Bool)
  /-- A whole number. -/
  | integer (value : Int)
  /-- A number with a fraction or an exponent, or one beyond the whole numbers that are kept. -/
  | float (value : Double)
  /-- A text. -/
  | string (value : String)
  /-- A sequence. -/
  | array (elements : List Json)
  /-- Members in the order in which they are written. -/
  | object (members : List (String × Json))

namespace Json

mutual

/-- The value with the members of repeated keys merged, at every depth. -/
def merged : Json → Json
  | null => null
  | bool b => bool b
  | integer n => integer n
  | float x => float x
  | string s => string s
  | array elements => array (mergedElements elements)
  | object members => object (Entries.collect (mergedMembers members))
termination_by structural j => j

/-- The elements, each merged. -/
def mergedElements : List Json → List Json
  | [] => []
  | j :: rest => j.merged :: mergedElements rest
termination_by structural js => js

/-- The members, each value merged. -/
def mergedMembers : List (String × Json) → List (String × Json)
  | [] => []
  | (key, j) :: rest => (key, j.merged) :: mergedMembers rest
termination_by structural ms => ms

end

mutual

/-- Equality of values: objects are compared without regard to order, and numbers as numbers. -/
def equal : Json → Json → Bool
  | null, null => true
  | bool a, bool b => a == b
  | integer m, integer n => m == n
  | float x, float y => x == y
  | string s, string t => s == t
  | array xs, array ys => equalElements xs ys
  | object ms, object ns => ms.length == ns.length && equalMembers ms ns
  | _, _ => false
termination_by structural j => j

/-- Equality element by element. -/
def equalElements : List Json → List Json → Bool
  | [], [] => true
  | x :: xs, y :: ys => x.equal y && equalElements xs ys
  | _, _ => false
termination_by structural xs => xs

/-- Whether each of the first members has an equal value among the second. -/
def equalMembers : List (String × Json) → List (String × Json) → Bool
  | [], _ => true
  | (key, x) :: rest, ns =>
    (match Entries.find? key ns with
    | some y => x.equal y
    | none => false) && equalMembers rest ns
termination_by structural ms => ms

end

instance : BEq Json := ⟨equal⟩

instance : Inhabited Json := ⟨null⟩

end Json

end QueryComposer
