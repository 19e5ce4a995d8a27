import QueryComposer.Arguments
import QueryComposer.Proofs.Result

/-!
# Which values pass the check for literals

`Value.Occurs u v` says that `u` stands in `v` at some depth of its lists and objects.  A value has
a literal form when no number in it is infinite or `nan` and no type occurs in it (`HasLiteral`),
and the check of a value, whatever the path it reports, passes exactly those
(`checkLiteral_eq_ok_iff`).  Arguments pass when each of their values does
(`Arguments.check_eq_ok_iff`).
-/

namespace QueryComposer

namespace Value

/-! ### Induction over nested values -/

/-- Induction over values, where a list or object has the property if what it holds has it. -/
@[elab_as_elim]
theorem nestedInduction {P : Value → Prop} (boolean : ∀ b, P (boolean b))
    (float : ∀ x, P (float x)) (int : ∀ n, P (int n))
    (list : ∀ elements, (∀ v ∈ elements, P v) → P (list elements))
    (object : ∀ members, (∀ m ∈ members, P m.2) → P (object members))
    (placeholder : ∀ t, P (placeholder t)) (string : ∀ s, P (string s))
    (reference : ∀ name, P (reference name)) (v : Value) : P v :=
  @Value.rec P (fun elements => ∀ v ∈ elements, P v) (fun members => ∀ m ∈ members, P m.2)
    (fun m => P m.2) boolean float int list object placeholder string reference
    (fun _ h => absurd h List.not_mem_nil)
    (fun _ _ hv hrest => List.forall_mem_cons.mpr ⟨hv, hrest⟩)
    (fun _ h => absurd h List.not_mem_nil)
    (fun _ _ hm hrest => List.forall_mem_cons.mpr ⟨hm, hrest⟩)
    (fun _ _ hv => hv) v

/-! ### Occurrences -/

/-- The first value stands somewhere in the second, or is it. -/
inductive Occurs (u : Value) : Value → Prop where
  | here : Occurs u u
  | element {v : Value} {elements : List Value} : v ∈ elements → Occurs u v →
      Occurs u (.list elements)
  | member {key : String} {v : Value} {members : List (String × Value)} : (key, v) ∈ members →
      Occurs u v → Occurs u (.object members)

section Everywhere

variable {P : Value → Prop}

/-- A property holds everywhere in a value that holds no other if it holds of the value. -/
theorem forall_occurs_leaf {v : Value} (hv : ∀ u, Occurs u v → u = v) :
    (∀ u, Occurs u v → P u) ↔ P v :=
  ⟨fun h => h v .here, fun h u hu => by rw [hv u hu]; exact h⟩

theorem forall_occurs_list {elements : List Value} :
    (∀ u, Occurs u (list elements) → P u) ↔
      P (list elements) ∧ ∀ v ∈ elements, ∀ u, Occurs u v → P u := by
  constructor
  · intro h
    exact ⟨h _ .here, fun v hv u hu => h u (.element hv hu)⟩
  · rintro ⟨hlist, helements⟩ u hu
    cases hu with
    | here => exact hlist
    | element hv hu => exact helements _ hv u hu

theorem forall_occurs_object {members : List (String × Value)} :
    (∀ u, Occurs u (object members) → P u) ↔
      P (object members) ∧ ∀ m ∈ members, ∀ u, Occurs u m.2 → P u := by
  constructor
  · intro h
    exact ⟨h _ .here, fun m hm u hu => h u (.member hm hu)⟩
  · rintro ⟨hobject, hmembers⟩ u hu
    cases hu with
    | here => exact hobject
    | member hm hu => exact hmembers _ hm u hu

end Everywhere

/-- Neither a number that is not finite nor a type. -/
def IsWritable : Value → Prop
  | .float x => x.isFinite = true
  | .placeholder _ => False
  | _ => True

/-- Everything in the value can be written as a literal. -/
def HasLiteral (v : Value) : Prop := ∀ u, Occurs u v → u.IsWritable

/-- A value that holds no other has a literal form if it is itself writable. -/
theorem hasLiteral_leaf {v : Value} (hv : ∀ u, Occurs u v → u = v) :
    v.HasLiteral ↔ v.IsWritable :=
  forall_occurs_leaf hv

theorem hasLiteral_list (elements : List Value) :
    (list elements).HasLiteral ↔ ∀ v ∈ elements, v.HasLiteral :=
  forall_occurs_list.trans (and_iff_right trivial)

theorem hasLiteral_object (members : List (String × Value)) :
    (object members).HasLiteral ↔ ∀ m ∈ members, m.2.HasLiteral :=
  forall_occurs_object.trans (and_iff_right trivial)

/-! ### The check -/

theorem checkElements_eq_ok_iff {elements : List Value} (path : String)
    (h : ∀ v ∈ elements, ∀ path, v.checkLiteral path = .ok () ↔ v.HasLiteral) :
    ∀ index, checkElements path index elements = .ok () ↔ ∀ v ∈ elements, v.HasLiteral := by
  induction elements with
  | nil => intro index; simp [checkElements]
  | cons v rest ih =>
    intro index
    obtain ⟨hv, hrest⟩ := List.forall_mem_cons.mp h
    rw [checkElements, check_bind_eq_ok_iff, hv, ih hrest, List.forall_mem_cons]

theorem checkMembers_eq_ok_iff {members : List (String × Value)} (path : String)
    (h : ∀ m ∈ members, ∀ path, m.2.checkLiteral path = .ok () ↔ m.2.HasLiteral) :
    checkMembers path members = .ok () ↔ ∀ m ∈ members, m.2.HasLiteral := by
  induction members with
  | nil => simp [checkMembers]
  | cons m rest ih =>
    obtain ⟨key, v⟩ := m
    obtain ⟨hv, hrest⟩ := List.forall_mem_cons.mp h
    rw [checkMembers, check_bind_eq_ok_iff, hv, ih hrest, List.forall_mem_cons]

/-- The check passes a value exactly when everything in it can be written. -/
theorem checkLiteral_eq_ok_iff (v : Value) :
    ∀ path, v.checkLiteral path = .ok () ↔ v.HasLiteral := by
  induction v using nestedInduction with
  | list elements ih =>
    intro path
    rw [hasLiteral_list, checkLiteral]
    exact checkElements_eq_ok_iff path ih 0
  | object members ih =>
    intro path
    rw [hasLiteral_object, checkLiteral]
    exact checkMembers_eq_ok_iff path ih
  | float x =>
    intro path
    rw [hasLiteral_leaf (by rintro u ⟨⟩; rfl), checkLiteral, IsWritable]
    by_cases hx : x.isFinite = true
    · simp [hx]
    · simp [hx]
  | placeholder t =>
    intro path
    rw [hasLiteral_leaf (by rintro u ⟨⟩; rfl)]
    simp [checkLiteral, IsWritable]
  | boolean | int | string | reference =>
    intro path
    rw [hasLiteral_leaf (by rintro u ⟨⟩; rfl)]
    simp [checkLiteral, IsWritable]

end Value

/-! ### Arguments -/

namespace Arguments

def HaveLiterals (arguments : Arguments) : Prop :=
  ∀ entry ∈ arguments.entries, entry.2.HasLiteral

theorem checkEntries_eq_ok_iff (entries : List (String × Value)) :
    check.checkEntries entries = .ok () ↔ ∀ entry ∈ entries, entry.2.HasLiteral := by
  induction entries with
  | nil => simp [check.checkEntries]
  | cons entry rest ih =>
    obtain ⟨name, v⟩ := entry
    rw [check.checkEntries, check_bind_eq_ok_iff, v.checkLiteral_eq_ok_iff, ih,
      List.forall_mem_cons]

theorem check_eq_ok_iff (arguments : Arguments) :
    arguments.check = .ok () ↔ arguments.HaveLiterals :=
  checkEntries_eq_ok_iff arguments.entries

theorem haveLiterals_empty : HaveLiterals ∅ := fun _ h => absurd h List.not_mem_nil

end Arguments

end QueryComposer
