import QueryComposer.Definition.Fragment
import QueryComposer.Definition.Operation

/-!
# Definitions and documents

A definition is anything that can stand at the top level; a document is a sequence of definitions,
written line by line in one pair of braces.
-/

namespace QueryComposer

/-- What can stand at the top level of a document. -/
inductive Definition where
  /-- A selection without an operation around it, usually a root field. -/
  | field (field : Field)
  | fragment (fragment : Fragment)
  | operation (operation : Operation)

namespace Definition

/-- The name to send along with a request for the definition. -/
def operationName? : Definition → Option String
  | operation o => if o.name = "" then none else some o.name
  | _ => none

/-- Write the definition after `sink`. -/
def appendTo : Definition → String → String
  | field f, sink => f.appendTo sink
  | fragment f, sink => f.appendTo sink
  | operation o, sink => o.appendTo sink

/-- The text of the definition. -/
def toGraphQL (d : Definition) : String := d.appendTo ""

/-- Definitions are equal when they are of one sort and equal within it. -/
def equal : Definition → Definition → Bool
  | field f, field g => f == g
  | fragment f, fragment g => f == g
  | operation o, operation p => o == p
  | _, _ => false

instance : BEq Definition := ⟨equal⟩

end Definition

/-- A sequence of definitions. -/
structure Document where
  /-- The definitions, in order. -/
  definitions : List Definition

namespace Document

/-- The document with one more definition at the end. -/
def addDefinition (d : Document) (definition : Definition) : Document :=
  ⟨d.definitions ++ [definition]⟩

/-- Whether there is no definition. -/
def isEmpty (d : Document) : Bool := d.definitions.isEmpty

/-- Write the definitions after `sink`, a line end before each but the `first`. -/
def appendDefinitions (first : Bool) : List Definition → String → String
  | [], sink => sink
  | d :: rest, sink =>
    appendDefinitions false rest (d.appendTo (if first then sink else sink ++ "\n"))

/-- Write the document after `sink`; an empty document is the empty text. -/
def appendTo (d : Document) (sink : String) : String :=
  if d.isEmpty then sink else appendDefinitions true d.definitions (sink ++ "\x7b ") ++ " \x7d"

/-- The text of the document. -/
def toGraphQL (d : Document) : String := d.appendTo ""

/-- Equality definition by definition. -/
def equal (a b : Document) : Bool := a.definitions == b.definitions

instance : BEq Document := ⟨equal⟩

end Document

end QueryComposer
