/-!
# Kinds of operation
-/

namespace QueryComposer

/-- What an operation does. -/
inductive OperationKind where
  /-- A write followed by a fetch. -/
  | mutation
  /-- A fetch that writes nothing. -/
  | query
deriving DecidableEq

/-- The keyword with which the text of an operation starts. -/
def OperationKind.keyword : OperationKind → String
  | mutation => "mutation"
  | query => "query"

end QueryComposer
