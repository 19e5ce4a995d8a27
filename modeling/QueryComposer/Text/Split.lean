/-!
# Splitting texts

A text is split at every occurrence of a separator.  There is always one part more than there are
separators, so a text without any is its own only part.
-/

namespace QueryComposer.Text

/-- The parts between the separators. -/
def splitChars (separator : Char) : List Char → List (List Char)
  | [] => [[]]
  | c :: rest =>
    if c = separator then [] :: splitChars separator rest
    else
      match splitChars separator rest with
      | [] => [[c]]
      | part :: parts => (c :: part) :: parts

/-- The parts of a text between the separators. -/
def split (separator : Char) (text : String) : List String :=
  (splitChars separator text.toList).map String.ofList

/-- Each separator ends one part and begins another. -/
theorem length_splitChars (separator : Char) (text : List Char) :
    (splitChars separator text).length = text.count separator + 1 := by
  induction text with
  | nil => rfl
  | cons c rest ih =>
    by_cases h : c = separator
    · simp [splitChars, h, ih]
    · rw [splitChars, if_neg h, List.count_cons_of_ne h]
      split
      · next hnil => simp [hnil] at ih
      · next part parts hcons => simpa [hcons] using ih

end QueryComposer.Text
