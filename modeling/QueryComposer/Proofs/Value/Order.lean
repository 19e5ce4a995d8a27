import Mathlib.Data.List.Forall2
import QueryComposer.Proofs.Value.Equality

/-!
# Equal values in the same order

The equality of values leaves two things aside: the order of the members of objects, and the sign of
zero.  Where two equal values agree in both at every position, they are the same value
(`Value.eq_of_equal`); where they do not, they still have the same kind and either both have a
literal form or neither has.
-/

namespace QueryComposer

/-- Lists are equal when they are so element by element. -/
theorem beq_iff_forall₂ {α : Type} [BEq α] {as bs : List α} :
    (as == bs) = true ↔ List.Forall₂ (fun a b => (a == b) = true) as bs := by
  induction as generalizing bs with
  | nil => cases bs <;> simp
  | cons a as ih =>
    cases bs with
    | nil => simp
    | cons b bs => rw [List.cons_beq_cons, Bool.and_eq_true, List.forall₂_cons, ih]

/-! ### Numbers -/

/-- The sign of the number. -/
def Double.isNegative : Double → Bool
  | finite negative _ _ => negative
  | infinite negative => negative
  | nan => false

theorem Double.eq_of_equal {x y : Double} (h : x.equal y = true)
    (hsign : x.isNegative = y.isNegative) : x = y := by
  cases x with
  | finite s a ha =>
    cases y with
    | finite t b hb =>
      obtain rfl : s = t := hsign
      simp only [equal, Bool.and_eq_true, beq_iff_eq] at h
      obtain ⟨rfl, -⟩ := h
      rfl
    | infinite t => cases h
    | nan => cases h
  | infinite s =>
    cases y with
    | finite t b hb => cases h
    | infinite t =>
      obtain rfl : s = t := hsign
      rfl
    | nan => cases h
  | nan => cases h

/-! ### Entries -/

/-- Entries under the same keys in the same order are the same if each of the one is found in the
other. -/
theorem Entries.eq_of_keys {α : Type} {entries others : List (String × α)}
    (hkeys : keys entries = keys others) (hnodup : (keys entries).Nodup)
    (hfind : ∀ entry ∈ entries, find? entry.1 others = some entry.2) : entries = others := by
  have hlength : entries.length = others.length := by
    have h := congrArg List.length hkeys
    rwa [keys, keys, List.length_map, List.length_map] at h
  apply List.ext_getElem hlength
  intro i hi hi'
  have hkey : entries[i].1 = others[i].1 := by
    have h : (entries.map Prod.fst)[i]? = (others.map Prod.fst)[i]? := congrArg (·[i]?) hkeys
    simpa [hi, hi'] using h
  have hother := find?_of_mem (hkeys ▸ hnodup) (List.getElem_mem hi')
  have hentry := hfind entries[i] (List.getElem_mem hi)
  rw [hkey, hother] at hentry
  exact Prod.ext hkey (Option.some.inj hentry).symm

namespace Value

/-! ### Values -/

/-- At each position where both values have an object, these have the same keys in the same order,
and where both have a number, it has the same sign, so that a zero does. -/
structure InSameOrder (v w : Value) : Prop where
  keys {p : List Step} {ms ns : List (String × Value)} : v.at? p = some (object ms) →
    w.at? p = some (object ns) → Entries.keys ms = Entries.keys ns
  signs {p : List Step} {x y : Double} : v.at? p = some (float x) → w.at? p = some (float y) →
    x.isNegative = y.isNegative

/-- What stands in the one value after a step is in the same order as what stands in the other. -/
theorem InSameOrder.child {v w v' w' : Value} (h : v.InSameOrder w) (step : Step)
    (hv : v.child? step = some v') (hw : w.child? step = some w') : v'.InSameOrder w' := by
  have hat : ∀ {u u' : Value}, u.child? step = some u' →
      ∀ p, u.at? (step :: p) = u'.at? p := by
    intro u u' hu p
    rw [at?, descend?, hu]
    rfl
  constructor
  · intro p ms ns hms hns
    exact h.keys ((hat hv p).trans hms) ((hat hw p).trans hns)
  · intro p x y hx hy
    exact h.signs ((hat hv p).trans hx) ((hat hw p).trans hy)

theorem equal_list_iff {xs ys : List Value} :
    (list xs).equal (list ys) = true ↔ xs.length = ys.length ∧
      ∀ (i : ℕ) (hi : i < xs.length) (hi' : i < ys.length), xs[i].equal ys[i] = true := by
  rw [equal, equalElements_eq, beq_iff_forall₂, List.forall₂_iff_get]
  rfl

/-- **Equal values in the same order are the same**, if no object in the first has a key twice. -/
theorem eq_of_equal {v : Value} (hkeyed : v.IsKeyed) :
    ∀ {w : Value}, v.equal w = true → v.InSameOrder w → v = w := by
  induction v using nestedInduction with
  | float x =>
    intro w h horder
    cases w with
    | float y => rw [Double.eq_of_equal h (horder.signs (p := []) rfl rfl)]
    | _ => cases h
  | list elements ih =>
    intro w h horder
    cases w with
    | list others =>
      obtain ⟨hlength, hequal⟩ := equal_list_iff.mp h
      congr 1
      apply List.ext_getElem hlength
      intro i hi hi'
      have helement := isKeyed_list.mp hkeyed elements[i] (List.getElem_mem hi)
      exact ih elements[i] (List.getElem_mem hi) helement (hequal i hi hi')
        (horder.child (.index i) (List.getElem?_eq_getElem hi)
          (List.getElem?_eq_getElem hi'))
    | _ => cases h
  | object members ih =>
    intro w h horder
    cases w with
    | object others =>
      obtain ⟨hnodup, hmembers⟩ := isKeyed_object.mp hkeyed
      obtain ⟨-, hfound⟩ := equalObjects_iff.mp h
      -- The keys stand in the same order, and under each of them the same value.
      have hkeys : Entries.keys members = Entries.keys others := horder.keys (p := []) rfl rfl
      have hfind : ∀ m ∈ members, Entries.find? m.1 others = some m.2 := by
        intro m hm
        obtain ⟨y, hy, hequal⟩ := hfound m hm
        have hchild := horder.child (.key m.1) (Entries.find?_of_mem hnodup hm) hy
        rw [hy, ih m hm (hmembers m hm) hequal hchild]
      rw [Entries.eq_of_keys hkeys hnodup hfind]
    | _ => cases h
  | boolean | int | placeholder | string | reference =>
    intro w h _
    cases w <;> simp_all [equal]

/-! ### Kinds and literal forms -/

theorem kind_of_equal {v w : Value} (h : v.equal w = true) : v.kind = w.kind := by
  cases v <;> cases w <;> first | rfl | cases h

/-- A number that is equal to a finite one is finite. -/
theorem isFinite_of_equal {x y : Double} (h : x.equal y = true) (hy : y.isFinite = true) :
    x.isFinite = true := by
  cases x <;> cases y <;> first | rfl | cases h | cases hy

/-- A value that is equal to one with a literal form has a literal form. -/
theorem HasLiteral.of_equal {v : Value} :
    ∀ {w : Value}, v.equal w = true → w.HasLiteral → v.HasLiteral := by
  induction v using nestedInduction with
  | float x =>
    intro w h hw
    cases w with
    | float y =>
      have hy : y.isFinite = true := hw _ .here
      exact (hasLiteral_leaf (by rintro u ⟨⟩; rfl)).mpr (isFinite_of_equal h hy)
    | _ => cases h
  | list elements ih =>
    intro w h hw
    cases w with
    | list others =>
      obtain ⟨hlength, hequal⟩ := equal_list_iff.mp h
      refine (hasLiteral_list elements).mpr fun v hv => ?_
      obtain ⟨i, hi, rfl⟩ := List.getElem_of_mem hv
      have hi' : i < others.length := hlength ▸ hi
      have hother := (hasLiteral_list others).mp hw others[i] (List.getElem_mem hi')
      exact ih elements[i] hv (hequal i hi hi') hother
    | _ => cases h
  | object members ih =>
    intro w h hw
    cases w with
    | object others =>
      obtain ⟨-, hfound⟩ := equalObjects_iff.mp h
      refine (hasLiteral_object members).mpr fun m hm => ?_
      obtain ⟨y, hy, hequal⟩ := hfound m hm
      exact ih m hm hequal ((hasLiteral_object others).mp hw _ (Entries.mem_of_find? hy))
    | _ => cases h
  | placeholder t =>
    intro w h hw
    cases w with
    | placeholder u => cases hw _ .here
    | _ => cases h
  | boolean | int | string | reference =>
    intro w _ _
    rw [hasLiteral_leaf (by rintro u ⟨⟩; rfl)]
    trivial

end Value

end QueryComposer
