import QueryComposer.Proofs.Json.Reading
import QueryComposer.Value.OfJson

/-!
# Positions in nested values

A position is a list of steps, each to the element at an index or to the member under a key.  The
same position can be followed in the syntax tree of a JSON text, in the value that is read from it
and in the argument value made from that; what stands there is each time what the one before has
become (`Json.Spelling.at?_merged`, `Value.at?_ofJsonAt`).  Of a repeated key the last member
counts, which is the one that is kept.
-/

namespace QueryComposer

/-- A step into a nested value. -/
inductive Step where
  | index (i : ℕ)
  | key (name : String)

/-- The path that a message shows after one more step. -/
def Step.extend (path : String) : Step → String
  | index i => Path.element path i
  | key name => Path.member path name

/-- The path that a message shows for the position. -/
def pathAt (path : String) (p : List Step) : String := p.foldl Step.extend path

section Descend

variable {α β : Type}

/-- What stands at the position, where `child?` gives what stands after a step. -/
def descend? (child? : Step → α → Option α) : List Step → α → Option α
  | [], a => some a
  | step :: p, a => (child? step a).bind (descend? child? p)

/-- If each step keeps two trees related, they are related at each position. -/
theorem descend?_of_related {childA : Step → α → Option α} {childB : Step → β → Option β}
    {R : List Step → α → β → Prop}
    (hstep : ∀ q a b step a', R q a b → childA step a = some a' →
      ∃ b', childB step b = some b' ∧ R (q ++ [step]) a' b') (p : List Step) :
    ∀ {q a b a'}, R q a b → descend? childA p a = some a' →
      ∃ b', descend? childB p b = some b' ∧ R (q ++ p) a' b' := by
  induction p with
  | nil =>
    rintro q a b a' h ⟨⟩
    exact ⟨b, rfl, by rwa [List.append_nil]⟩
  | cons step p ih =>
    intro q a b a' h hp
    -- One step first, and the rest of the position from there.
    obtain ⟨a₁, ha₁, hp⟩ := Option.bind_eq_some_iff.mp hp
    obtain ⟨b₁, hb₁, h₁⟩ := hstep _ _ _ _ _ h ha₁
    obtain ⟨b', hb', h'⟩ := ih h₁ hp
    refine ⟨b', ?_, by rwa [List.append_assoc] at h'⟩
    rw [descend?, hb₁, Option.bind_some, hb']

end Descend

/-! ### Syntax trees and JSON values -/

namespace Json

/-- What stands in the syntax tree after a step. -/
def Spelling.child? : Step → Spelling → Option Spelling
  | .index i, .array elements => elements[i]?
  | .key name, .object members => Entries.last? name members
  | _, _ => none

def Spelling.at? (p : List Step) (s : Spelling) : Option Spelling := descend? child? p s

/-- What stands in the value after a step. -/
def child? : Step → Json → Option Json
  | .index i, .array elements => elements[i]?
  | .key name, .object members => Entries.last? name members
  | _, _ => none

def at? (p : List Step) (j : Json) : Option Json := descend? child? p j

/-- The member that is read last under a key is read from the one that is written last. -/
theorem last?_of_mapM (key : String) {members : List (String × Spelling)}
    {ms : List (String × Json)}
    (h : members.mapM (fun m => m.2.value?.map fun j => (m.1, j)) = some ms) :
    (Entries.last? key members).map Spelling.value? = (Entries.last? key ms).map some := by
  induction members generalizing ms with
  | nil =>
    cases h
    rfl
  | cons m rest ih =>
    obtain ⟨m', ms', hm', hms', rfl⟩ := mapM_cons_eq_some h
    obtain ⟨j, hj, rfl⟩ := Option.map_eq_some_iff.mp hm'
    rw [Entries.last?, Entries.last?, Option.map_or, Option.map_or, ih hms']
    by_cases hkey : m.1 = key
    · rw [if_pos hkey, if_pos hkey, Option.map_some, Option.map_some, hj]
    · rw [if_neg hkey, if_neg hkey, Option.map_none, Option.map_none]

/-- What stands after a step is read from what is written there. -/
theorem Spelling.child?_value? {s s' : Spelling} {j : Json} {step : Step} (hj : s.value? = some j)
    (hs : s.child? step = some s') : ∃ j', s'.value? = some j' ∧ j.child? step = some j' := by
  cases s with
  | array elements =>
    cases step with
    | key => cases hs
    | index i =>
      obtain ⟨js, rfl, hjs⟩ := value?_array hj
      obtain ⟨j', hget, hj'⟩ := getElem?_of_mapM_eq_some hjs hs
      exact ⟨j', hj', hget⟩
  | object members =>
    cases step with
    | index => cases hs
    | key name =>
      obtain ⟨ms, rfl, hms⟩ := value?_object hj
      have hlast := last?_of_mapM name hms
      rw [show Entries.last? name members = some s' from hs, Option.map_some] at hlast
      obtain ⟨j', hget, hj'⟩ := Option.map_eq_some_iff.mp hlast.symm
      exact ⟨j', hj'.symm, hget⟩
  | _ => cases step <;> cases hs

theorem child?_merged {j j' : Json} {step : Step} (h : j.child? step = some j') :
    j.merged.child? step = some j'.merged := by
  cases j with
  | array elements =>
    cases step with
    | key => cases h
    | index i =>
      rw [merged_array]
      show (elements.map merged)[i]? = _
      rw [List.getElem?_map, show elements[i]? = some j' from h, Option.map_some]
  | object members =>
    cases step with
    | index => cases h
    | key name =>
      rw [merged_object]
      show Entries.last? name (Entries.collect _) = _
      rw [Entries.last?_collect, Entries.last?_map]
      rw [show Entries.last? name members = some j' from h, Option.map_some]
  | _ => cases step <;> cases h

/-- **At each position of the merged value stands what is written there**, merged. -/
theorem Spelling.at?_merged {s s' : Spelling} {j : Json} {p : List Step} (hj : s.value? = some j)
    (hs : s.at? p = some s') : ∃ j', s'.value? = some j' ∧ j.merged.at? p = some j'.merged := by
  let R : List Step → Spelling → Json → Prop :=
    fun _ s k => ∃ j, s.value? = some j ∧ k = j.merged
  have hstep : ∀ q a b step a', R q a b → Spelling.child? step a = some a' →
      ∃ b', Json.child? step b = some b' ∧ R (q ++ [step]) a' b' := by
    rintro q s _ step s' ⟨j, hj, rfl⟩ hs
    obtain ⟨j', hj', hchild⟩ := Spelling.child?_value? hj hs
    exact ⟨j'.merged, child?_merged hchild, j', hj', rfl⟩
  obtain ⟨_, hat, j', hj', rfl⟩ := descend?_of_related hstep p (q := []) ⟨j, hj, rfl⟩ hs
  exact ⟨j', hj', hat⟩

end Json

/-! ### Argument values -/

namespace Value

/-- What stands in the value after a step. -/
def child? : Step → Value → Option Value
  | .index i, .list elements => elements[i]?
  | .key name, .object members => Entries.find? name members
  | _, _ => none

def at? (p : List Step) (v : Value) : Option Value := descend? child? p v

theorem ofJsonAt_array {path : String} {elements : List Json} {v : Value}
    (h : ofJsonAt path (.array elements) = .ok v) :
    ∃ vs, v = .list vs ∧ ofElementsAt path 0 elements = .ok vs := by
  rw [ofJsonAt] at h
  obtain ⟨vs, hvs, h⟩ := bind_eq_ok_iff.mp h
  exact ⟨vs, (Except.ok.inj h).symm, hvs⟩

theorem ofJsonAt_object {path : String} {members : List (String × Json)} {v : Value}
    (h : ofJsonAt path (.object members) = .ok v) :
    ∃ vs, v = .object (Entries.collect vs) ∧ ofMembersAt path members = .ok vs := by
  rw [ofJsonAt] at h
  obtain ⟨vs, hvs, h⟩ := bind_eq_ok_iff.mp h
  exact ⟨vs, (Except.ok.inj h).symm, hvs⟩

theorem getElem?_ofElementsAt {path : String} {elements : List Json} {j : Json} :
    ∀ {k i : ℕ} {vs}, ofElementsAt path k elements = .ok vs → elements[i]? = some j →
      ∃ v, vs[i]? = some v ∧ ofJsonAt (Path.element path (k + i)) j = .ok v := by
  induction elements with
  | nil =>
    intro k i vs _ hj
    cases hj
  | cons first rest ih =>
    intro k i vs h hj
    rw [ofElementsAt] at h
    obtain ⟨v, hv, h⟩ := bind_eq_ok_iff.mp h
    obtain ⟨vs', hvs', h⟩ := bind_eq_ok_iff.mp h
    obtain rfl := Except.ok.inj h
    cases i with
    | zero =>
      obtain rfl := Option.some.inj hj
      exact ⟨v, rfl, hv⟩
    | succ i =>
      obtain ⟨v', hget, hv'⟩ := ih hvs' hj
      refine ⟨v', hget, ?_⟩
      rwa [show k + (i + 1) = k + 1 + i by omega]

theorem last?_ofMembersAt (path key : String) {members : List (String × Json)} :
    ∀ {vs}, ofMembersAt path members = .ok vs →
      (Entries.last? key members).map (ofJsonAt (Path.member path key)) =
        (Entries.last? key vs).map .ok := by
  induction members with
  | nil =>
    rintro vs ⟨⟩
    rfl
  | cons member rest ih =>
    intro vs h
    rw [ofMembersAt] at h
    obtain ⟨v, hv, h⟩ := bind_eq_ok_iff.mp h
    obtain ⟨vs', hvs', h⟩ := bind_eq_ok_iff.mp h
    obtain rfl := Except.ok.inj h
    rw [Entries.last?, Entries.last?, Option.map_or, Option.map_or, ih hvs']
    by_cases hkey : member.1 = key
    · rw [if_pos hkey, if_pos hkey, Option.map_some, Option.map_some, ← hkey, hv]
    · rw [if_neg hkey, if_neg hkey, Option.map_none, Option.map_none]

theorem child?_ofJsonAt {path : String} {j j' : Json} {v : Value} {step : Step}
    (hv : ofJsonAt path j = .ok v) (hj : j.child? step = some j') :
    ∃ v', v.child? step = some v' ∧ ofJsonAt (step.extend path) j' = .ok v' := by
  cases j with
  | array elements =>
    cases step with
    | key => cases hj
    | index i =>
      obtain ⟨vs, rfl, hvs⟩ := ofJsonAt_array hv
      obtain ⟨v', hget, hv'⟩ := getElem?_ofElementsAt hvs hj
      rw [Nat.zero_add] at hv'
      exact ⟨v', hget, hv'⟩
  | object members =>
    cases step with
    | index => cases hj
    | key name =>
      obtain ⟨vs, rfl, hvs⟩ := ofJsonAt_object hv
      have hlast := last?_ofMembersAt path name hvs
      rw [show Entries.last? name members = some j' from hj, Option.map_some] at hlast
      obtain ⟨v', hget, hv'⟩ := Option.map_eq_some_iff.mp hlast.symm
      exact ⟨v', (Entries.find?_collect name vs).trans hget, hv'.symm⟩
  | _ => cases step <;> cases hj

/-- **At each position of the argument value stands what is made from the JSON value there**, under
the path that a message shows for the position. -/
theorem at?_ofJsonAt {path : String} {j j' : Json} {v : Value} {p : List Step}
    (hv : ofJsonAt path j = .ok v) (hj : j.at? p = some j') :
    ∃ v', v.at? p = some v' ∧ ofJsonAt (pathAt path p) j' = .ok v' := by
  let R : List Step → Json → Value → Prop := fun q j v => ofJsonAt (pathAt path q) j = .ok v
  have hstep : ∀ q a b step a', R q a b → Json.child? step a = some a' →
      ∃ b', Value.child? step b = some b' ∧ R (q ++ [step]) a' b' := by
    intro q j v step j' hv hj
    obtain ⟨v', hchild, hv'⟩ := child?_ofJsonAt hv hj
    refine ⟨v', hchild, ?_⟩
    show ofJsonAt (pathAt path (q ++ [step])) j' = .ok v'
    rwa [pathAt, List.foldl_append]
  exact descend?_of_related hstep p (q := []) hv hj

end Value

end QueryComposer
