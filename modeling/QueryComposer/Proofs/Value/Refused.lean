import QueryComposer.Proofs.Json.Reading
import QueryComposer.Proofs.Value.Literal
import QueryComposer.Value.OfJson

/-!
# Which JSON values are refused

`Json.refused path j` lists everything in the JSON value that no argument value stands for, in the
order of the text: each `null` and each whole number above the 64-bit signed ones.  A value that was
read is made into an argument value exactly when the list is empty, and otherwise its head is
reported (`Value.settles_ofJsonAt`).  What is made has a literal form.
-/

namespace QueryComposer

namespace Json

mutual

/-- What has no counterpart in the JSON value at `path`. -/
def refused (path : String) : Json → List BuildError
  | null => [.unsupportedValue path .null]
  | integer n =>
    if 9223372036854775807 < n then [.unsupportedValue path (.integerBeyondRange n)] else []
  | array elements => refusedElements path 0 elements
  | object members => refusedMembers path members
  | _ => []
termination_by structural j => j

def refusedElements (path : String) (index : ℕ) : List Json → List BuildError
  | [] => []
  | j :: rest => j.refused (Path.element path index) ++ refusedElements path (index + 1) rest
termination_by structural js => js

def refusedMembers (path : String) : List (String × Json) → List BuildError
  | [] => []
  | (key, j) :: rest => j.refused (Path.member path key) ++ refusedMembers path rest
termination_by structural ms => ms

end

theorem exists_of_mem_refusedElements {path : String} {elements : List Json}
    (h : ∀ j ∈ elements, ∀ {path e}, e ∈ j.refused path → ∃ p found, e = .unsupportedValue p found)
    {e : BuildError} : ∀ {index}, e ∈ refusedElements path index elements →
      ∃ p found, e = .unsupportedValue p found := by
  induction elements with
  | nil => exact fun he => absurd he List.not_mem_nil
  | cons j rest ih =>
    obtain ⟨hj, hrest⟩ := List.forall_mem_cons.mp h
    intro index he
    rcases List.mem_append.mp he with he | he
    · exact hj he
    · exact ih hrest he

theorem exists_of_mem_refusedMembers {path : String} {members : List (String × Json)}
    (h : ∀ m ∈ members, ∀ {path e}, e ∈ m.2.refused path →
      ∃ p found, e = .unsupportedValue p found)
    {e : BuildError} (he : e ∈ refusedMembers path members) :
    ∃ p found, e = .unsupportedValue p found := by
  induction members with
  | nil => exact absurd he List.not_mem_nil
  | cons m rest ih =>
    obtain ⟨hm, hrest⟩ := List.forall_mem_cons.mp h
    rcases List.mem_append.mp he with he | he
    · exact hm he
    · exact ih hrest he

/-- Whatever is refused is an unsupported value. -/
theorem exists_of_mem_refused {j : Json} :
    ∀ {path e}, e ∈ j.refused path → ∃ p found, e = .unsupportedValue p found := by
  induction j using nestedInduction with
  | null =>
    intro path e he
    rw [refused] at he
    exact ⟨path, .null, List.mem_singleton.mp he⟩
  | integer n =>
    intro path e he
    rw [refused] at he
    split at he
    · exact ⟨path, .integerBeyondRange n, List.mem_singleton.mp he⟩
    · exact absurd he List.not_mem_nil
  | bool | float | string =>
    intro path e he
    exact absurd he List.not_mem_nil
  | array elements ih =>
    intro path e he
    rw [refused] at he
    exact exists_of_mem_refusedElements ih he
  | object members ih =>
    intro path e he
    rw [refused] at he
    exact exists_of_mem_refusedMembers ih he

end Json

namespace Value

theorem settles_ofElementsAt (path : String) {elements : List Json}
    (h : ∀ j ∈ elements, ∀ path, Settles HasLiteral (ofJsonAt path j) (j.refused path)) :
    ∀ index, Settles (fun vs => ∀ v ∈ vs, v.HasLiteral) (ofElementsAt path index elements)
      (Json.refusedElements path index elements) := by
  induction elements with
  | nil => exact fun _ => .ok fun _ hv => absurd hv List.not_mem_nil
  | cons j rest ih =>
    obtain ⟨hj, hrest⟩ := List.forall_mem_cons.mp h
    intro index
    rw [ofElementsAt, Json.refusedElements]
    refine (hj _).bind fun v hv => (ih hrest (index + 1)).bind_ok fun vs hvs => ?_
    exact ⟨v :: vs, rfl, List.forall_mem_cons.mpr ⟨hv, hvs⟩⟩

theorem settles_ofMembersAt (path : String) {members : List (String × Json)}
    (h : ∀ m ∈ members, ∀ path, Settles HasLiteral (ofJsonAt path m.2) (m.2.refused path)) :
    Settles (fun ms => ∀ m ∈ ms, m.2.HasLiteral) (ofMembersAt path members)
      (Json.refusedMembers path members) := by
  induction members with
  | nil => exact .ok fun _ hm => absurd hm List.not_mem_nil
  | cons m rest ih =>
    obtain ⟨hm, hrest⟩ := List.forall_mem_cons.mp h
    rw [ofMembersAt, Json.refusedMembers]
    refine (hm _).bind fun v hv => (ih hrest).bind_ok fun ms hms => ?_
    exact ⟨(m.1, v) :: ms, rfl, List.forall_mem_cons.mpr ⟨hv, hms⟩⟩

/-- **A value that was read is refused for the first thing without counterpart**, and what is made
of it otherwise has a literal form. -/
theorem settles_ofJsonAt {j : Json} (h : j.IsKept) :
    ∀ path, Settles HasLiteral (ofJsonAt path j) (j.refused path) := by
  induction h with
  | null => exact fun _ => rfl
  | bool b => exact fun _ => .ok ((hasLiteral_leaf (by rintro u ⟨⟩; rfl)).mpr trivial)
  | string s => exact fun _ => .ok ((hasLiteral_leaf (by rintro u ⟨⟩; rfl)).mpr trivial)
  | float finite => exact fun _ => .ok ((hasLiteral_leaf (by rintro u ⟨⟩; rfl)).mpr finite)
  | @integer n lower upper =>
    intro path
    rw [ofJsonAt, Json.refused]
    -- The reader gives no number below the range, so the upper bound alone decides.
    by_cases hn : 9223372036854775807 < n
    · have hrange : isIntRange n = false := by
        rw [isIntRange, decide_eq_false (p := n < 9223372036854775808) (by omega), Bool.and_false]
      rw [if_pos hn, hrange]
      rfl
    · have hrange : isIntRange n = true := by
        rw [isIntRange, decide_eq_true lower, decide_eq_true (by omega), Bool.and_self]
      rw [if_neg hn, if_pos hrange]
      exact .ok ((hasLiteral_leaf (by rintro u ⟨⟩; rfl)).mpr trivial)
  | @array elements _ ih =>
    intro path
    rw [ofJsonAt, Json.refused]
    refine (settles_ofElementsAt path ih 0).bind_ok fun vs hvs => ?_
    exact ⟨.list vs, rfl, (hasLiteral_list vs).mpr hvs⟩
  | @object members _ ih =>
    intro path
    rw [ofJsonAt, Json.refused]
    refine (settles_ofMembersAt path ih).bind_ok fun ms hms => ?_
    refine ⟨ofMembers ms, rfl, (hasLiteral_object _).mpr fun m hm => ?_⟩
    exact hms m (Entries.mem_collect hm)

/-- A conversion of what was read fails only for something unsupported. -/
theorem unsupported_of_ofJsonAt {j : Json} (h : j.IsKept) {path : String} {e : BuildError}
    (he : ofJsonAt path j = .error e) : ∃ p found, e = .unsupportedValue p found := by
  have hhead : (j.refused path).head? = some e := (settles_ofJsonAt h path).eq_error_iff.mp he
  exact Json.exists_of_mem_refused (List.mem_of_head? hhead)

end Value

end QueryComposer
