import Mathlib.Data.List.Forall2
import QueryComposer.Proofs.Json.Nesting

/-!
# Records in JSON

A record is written as an object with its keys in any order or as an array of its parts
(`IsRecord`), and either way the reader finds the same parts (`parts?_eq_some_iff`).  A part is
required, has a default or is optional; `Required`, `Defaulted` and `Optional` say how each may
stand in a record, and the reader takes exactly what stands there in one of these ways.
-/

namespace QueryComposer.Json

/-! ### Records -/

/-- The part of a record at this place of an array or under this key of an object. -/
def part? (place : ℕ) (key : String) : Json → Option Json
  | array elements => elements[place]?
  | object members => Entries.find? key members
  | _ => none

/-- The value is a record with the keys: an object with no other key and none of them twice, or an
array of no more parts. -/
def IsRecord (keys : List String) : Json → Prop
  | array elements => elements.length ≤ keys.length
  | object members => (Entries.keys members).Nodup ∧ ∀ key ∈ Entries.keys members, key ∈ keys
  | _ => False

instance (keys : List String) (j : Json) : Decidable (j.IsRecord keys) :=
  match j with
  | array elements => inferInstanceAs (Decidable (elements.length ≤ keys.length))
  | object members => inferInstanceAs (Decidable (_ ∧ ∀ key ∈ Entries.keys members, key ∈ keys))
  | null | bool _ | integer _ | float _ | string _ => isFalse id

/-- The parts of a record are those at the places of the keys or under the keys. -/
theorem parts?_eq_some_iff {keys : List String} {j : Json} {parts : List (Option Json)} :
    j.parts? keys = some parts ↔
      j.IsRecord keys ∧ parts = keys.mapIdx fun place key => j.part? place key := by
  have hparts : j.parts? keys = if j.IsRecord keys then
      some (keys.mapIdx fun place key => j.part? place key) else none := by
    cases j with
    | array elements =>
      show (if elements.length ≤ keys.length then some _ else none) =
        if elements.length ≤ keys.length then _ else none
      by_cases hlength : elements.length ≤ keys.length
      · rw [if_pos hlength, if_pos hlength]
        refine congrArg some (List.ext_getElem? fun i => ?_)
        rw [List.getElem?_mapIdx, List.getElem?_append, List.getElem?_replicate, List.getElem?_map,
          List.length_map]
        show _ = keys[i]?.map fun _ => elements[i]?
        by_cases hi : i < elements.length
        · rw [if_pos hi, List.getElem?_eq_getElem hi, List.getElem?_eq_getElem (by omega)]
          rfl
        -- Behind the elements, the parts are left out up to the last key.
        · rw [if_neg hi, List.getElem?_eq_none (Nat.le_of_not_lt hi)]
          by_cases hkey : i < keys.length
          · rw [if_pos (by omega), List.getElem?_eq_getElem hkey]
            rfl
          · rw [if_neg (by omega), List.getElem?_eq_none (Nat.le_of_not_lt hkey)]
            rfl
      · rw [if_neg hlength, if_neg hlength]
    | object members =>
      have hkeys : ((Entries.keys members).all keys.contains &&
          decide (Entries.keys members).Nodup) = true ↔ (object members).IsRecord keys := by
        simp [IsRecord, and_comm]
      rw [parts?]
      simp only [hkeys]
      refine congrArg (ite _ · none) (congrArg some (List.ext_getElem? fun i => ?_))
      rw [List.getElem?_mapIdx, List.getElem?_map]
      rfl
    | _ => rfl
  rw [hparts]
  by_cases h : j.IsRecord keys
  · rw [if_pos h, Option.some_inj, eq_comm, and_iff_right h]
  · simp [h]

/-- What is read from the parts of a record. -/
theorem parts?_bind_eq_some_iff {α : Type} {keys : List String} {j : Json}
    {read? : List (Option Json) → Option α} {a : α} :
    (j.parts? keys >>= read?) = some a ↔
      j.IsRecord keys ∧ read? (keys.mapIdx fun place key => j.part? place key) = some a := by
  simp only [Option.bind_eq_bind, Option.bind_eq_some_iff, parts?_eq_some_iff, and_assoc,
    exists_and_left, exists_eq_left]

theorem IsRecord.depth_pos {keys : List String} {j : Json} (h : j.IsRecord keys) : 0 < j.depth := by
  cases j with
  | array elements => exact Nat.succ_pos _
  | object members => exact Nat.succ_pos _
  | _ => cases h

/-- A part is nested less deeply than the record. -/
theorem depth_lt_of_part? {place : ℕ} {key : String} {j part : Json}
    (h : j.part? place key = some part) : part.depth < j.depth := by
  cases j with
  | array elements =>
    obtain ⟨k, hk, hparts⟩ := depth_array_le_iff.mp (Nat.le_refl (array elements).depth)
    rw [hk]
    exact Nat.lt_succ_of_le (hparts part (List.mem_of_getElem? h))
  | object members =>
    obtain ⟨k, hk, hparts⟩ := depth_object_le_iff.mp (Nat.le_refl (object members).depth)
    rw [hk]
    exact Nat.lt_succ_of_le (hparts _ (Entries.mem_of_find? h))
  | _ => cases h

/-! ### Parts -/

/-- The part must be there, written so. -/
def Required (written : Json → Prop) : Option Json → Prop
  | none => False
  | some j => written j

/-- The part is written so, or it is left out, if it is the default. -/
def Defaulted (isDefault : Prop) (written : Json → Prop) : Option Json → Prop
  | none => isDefault
  | some j => written j

/-- An absent part is left out or `null`, and any other part is written so. -/
def Optional {α : Type} (a? : Option α) (written : α → Json → Prop) (part : Option Json) : Prop :=
  match a? with
  | none => part = none ∨ part = some null
  | some a => ∃ j, part = some j ∧ written a j

section Parts

variable {α : Type} {read? : Json → Option α} {part : Option Json}

theorem required?_eq_some_iff {a : α} {written : Json → Prop}
    (hread : ∀ {j}, read? j = some a ↔ written j) :
    required? read? part = some a ↔ Required written part := by
  cases part with
  | none => simp [required?, Required]
  | some j => exact hread

theorem withDefault?_eq_some_iff {a default : α} {written : Json → Prop}
    (hread : ∀ {j}, read? j = some a ↔ written j) :
    withDefault? default read? part = some a ↔ Defaulted (a = default) written part := by
  cases part with
  | none => exact Option.some_inj.trans eq_comm
  | some j => exact hread

/-- If `null` stands for nothing else, an optional part is read from what writes it. -/
theorem optional?_eq_some_iff {a? : Option α} {written : α → Json → Prop}
    (hread : ∀ {a j}, read? j = some a ↔ written a j) (hnull : read? null = none) :
    optional? read? part = some a? ↔ Optional a? written part := by
  cases part with
  | none => cases a? <;> simp [optional?, Optional]
  | some j =>
    cases j with
    | null =>
      have hwritten : ∀ a, ¬written a null := fun a ha => by
        rw [hread.mpr ha] at hnull
        cases hnull
      cases a? with
      | none => simp [optional?, Optional]
      | some a => simp [optional?, Optional, hwritten]
    | _ => cases a? <;> simp [optional?, Optional, hread]

end Parts

/-! ### Texts, lists and maps -/

/-- The value is the text. -/
def IsText (s : String) (j : Json) : Prop := j = string s

/-- The value is an array whose elements are written so. -/
def IsList (written : List Json → Prop) (j : Json) : Prop :=
  ∃ elements, j = array elements ∧ written elements

/-- The value is an object whose members write the entries of the map; of a repeated key the first
place and the last value count. -/
def IsMap {α : Type} (written : α → Json → Prop) (m : OrderedMap α) (j : Json) : Prop :=
  ∃ members entries, j = object members ∧ OrderedMap.ofList entries = m ∧
    List.Forall₂ (fun member (entry : String × α) => entry.1 = member.1 ∧ written entry.2 member.2)
      members entries

/-- The value is an object whose members, with repeated keys merged at every depth, are the entries
of the map. -/
def IsValueMap : OrderedMap Json → Json → Prop :=
  IsMap fun value j => j.merged = value

theorem text?_eq_some_iff {s : String} {j : Json} : j.text? = some s ↔ IsText s j := by
  cases j <;> simp [text?, IsText]

theorem optional?_text?_eq_some_iff {s? : Option String} {part : Option Json} :
    optional? text? part = some s? ↔ Optional s? IsText part :=
  optional?_eq_some_iff text?_eq_some_iff rfl

theorem elements?_eq_some_iff {elements : List Json} {j : Json} :
    j.elements? = some elements ↔ IsList (· = elements) j := by
  cases j <;> simp [elements?, IsList]

section Lists

variable {written : List Json → Prop} {part : Option Json}

theorem exists_required?_elements_iff :
    (∃ elements, required? elements? part = some elements ∧ written elements) ↔
      Required (IsList written) part := by
  simp only [required?_eq_some_iff elements?_eq_some_iff]
  cases part with
  | none => simp [Required]
  | some j => simp [Required, IsList]

theorem exists_withDefault?_elements_iff {isDefault : Prop} (hdefault : isDefault ↔ written []) :
    (∃ elements, withDefault? [] elements? part = some elements ∧ written elements) ↔
      Defaulted isDefault (IsList written) part := by
  simp only [withDefault?_eq_some_iff elements?_eq_some_iff]
  cases part with
  | none => simp [Defaulted, hdefault]
  | some j => simp [Defaulted, IsList]

/-- The elements of a list in a record are nested less deeply than the list, and this less deeply
than the record. -/
theorem depth_lt_of_elements {elements : List Json} {n : ℕ} (hpart : ∀ j ∈ part, j.depth < n + 1)
    (h : withDefault? [] elements? part = some elements ∨
      required? elements? part = some elements) :
    ∀ element ∈ elements, element.depth < n := by
  cases part with
  | none =>
    rcases h with h | h
    · cases h
      exact fun _ helement => absurd helement List.not_mem_nil
    · cases h
  | some j =>
    obtain ⟨_, rfl, rfl⟩ := elements?_eq_some_iff.mp (h.elim id id)
    obtain ⟨k, hk, hdepth⟩ := depth_array_le_iff.mp (Nat.le_of_lt_succ (hpart _ rfl))
    intro element helement
    have := hdepth element helement
    omega

end Lists

/-- A list of results is there when each of them is. -/
theorem mapM_eq_some_iff {α β : Type} {f : α → Option β} {xs : List α} {ys : List β} :
    xs.mapM f = some ys ↔ List.Forall₂ (fun x y => f x = some y) xs ys := by
  induction xs generalizing ys with
  | nil =>
    rw [List.forall₂_nil_left_iff]
    exact Option.some_inj.trans eq_comm
  | cons x xs ih =>
    rw [List.forall₂_cons_left_iff]
    constructor
    · intro h
      obtain ⟨y, rest, hy, hrest, rfl⟩ := mapM_cons_eq_some h
      exact ⟨y, rest, hy, ih.mp hrest, rfl⟩
    · rintro ⟨y, rest, hy, hrest, rfl⟩
      rw [List.mapM_cons, hy, ih.mpr hrest]
      rfl

theorem entries?_eq_some_iff {α : Type} {read? : Json → Option α} {written : α → Json → Prop}
    {m : OrderedMap α} {j : Json} (hread : ∀ {a j}, read? j = some a ↔ written a j) :
    j.entries? read? = some m ↔ IsMap written m j := by
  have hentry : ∀ (member : String × Json) (entry : String × α),
      ((read? member.2).bind fun a => some (member.1, a)) = some entry ↔
        entry.1 = member.1 ∧ written entry.2 member.2 := by
    intro member entry
    rw [Option.bind_eq_some_iff]
    constructor
    · rintro ⟨a, ha, h⟩
      cases h
      exact ⟨rfl, hread.mp ha⟩
    · rintro ⟨hkey, hvalue⟩
      exact ⟨entry.2, hread.mpr hvalue, congrArg some (Prod.ext hkey.symm rfl)⟩
  cases j with
  | object members =>
    constructor
    · intro h
      obtain ⟨entries, hentries, h⟩ := Option.bind_eq_some_iff.mp h
      refine ⟨members, entries, rfl, Option.some.inj h, ?_⟩
      exact (mapM_eq_some_iff.mp hentries).imp fun member entry => (hentry member entry).mp
    · rintro ⟨_, entries, ⟨⟩, rfl, hmembers⟩
      refine Option.bind_eq_some_iff.mpr ⟨entries, mapM_eq_some_iff.mpr ?_, rfl⟩
      exact hmembers.imp fun member entry => (hentry member entry).mpr
  | _ => simp [entries?, IsMap]

theorem map?_eq_some_iff {m : OrderedMap Json} {j : Json} : j.map? = some m ↔ IsValueMap m j :=
  entries?_eq_some_iff Option.some_inj

theorem optional?_map?_eq_some_iff {m? : Option (OrderedMap Json)} {part : Option Json} :
    optional? map? part = some m? ↔ Optional m? IsValueMap part :=
  optional?_eq_some_iff map?_eq_some_iff rfl

end QueryComposer.Json
