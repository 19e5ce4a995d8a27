/-!
# Joining texts

Texts written one after the other with a separator between neighbours.
-/

namespace QueryComposer.Text

/-- The texts in order, with `separator` between each two neighbours. -/
def joinWith (separator : String) : List String → String
  | [] => ""
  | s :: rest => rest.foldl (fun written t => written ++ separator ++ t) s

end QueryComposer.Text
