import Mathlib.Data.List.Perm.Subperm
import QueryComposer.Proofs.Position
import QueryComposer.Proofs.Value.Literal

/-!
# Equality of values

The equality of values compares numbers as numbers and objects regardless of order, and looks each
member of the one object up in the other.  It is an equivalence on the values that have a literal
form and in which no object has a key twice (`Value.equivalentFrom`): a number in such a value is
not `nan`, which is equal to nothing, and the keys can be counted.  If two objects have the same
number of members, and the keys of the first are distinct and all found in the second, then the
second has no other keys, and each of its members is found in the first.  What is made from JSON has
no key twice, since repeated keys are merged (`Value.isKeyed_ofJsonAt`).

`EquivalentFrom` says of a test that it behaves like an equivalence from one thing on, which a list
has from its elements and a record from its parts.
-/

namespace QueryComposer

/-! ### Tests that behave like equivalences -/

/-- The thing passes the test with itself, what passes with it does so the other way round, and what
passes with that passes with it. -/
structure EquivalentFrom {α : Type} (test : α → α → Bool) (a : α) : Prop where
  refl : test a a = true
  symm {b : α} : test a b = true → test b a = true
  trans {b c : α} : test a b = true → test b c = true → test a c = true

namespace EquivalentFrom

variable {α β : Type} {a : α} {test other : α → α → Bool}

/-- The test is an equivalence relation on things from each of which it behaves like one. -/
theorem equivalence {P : α → Prop} (h : ∀ a, P a → EquivalentFrom test a) :
    Equivalence fun a b : {a : α // P a} => test a.val b.val = true where
  refl a := (h a.val a.property).refl
  symm {a _} := (h a.val a.property).symm
  trans {a _ _} := (h a.val a.property).trans

theorem of_lawful [BEq α] [LawfulBEq α] (a : α) : EquivalentFrom (fun a b : α => a == b) a where
  refl := beq_self_eq_true a
  symm h := by
    rw [eq_of_beq h]
    exact beq_self_eq_true _
  trans h h' := by
    rw [eq_of_beq h]
    exact h'

/-- What is compared by a part, for which the test may be another one. -/
theorem comap {test : β → β → Bool} {f : α → β} (h : EquivalentFrom test (f a)) :
    EquivalentFrom (fun a b => test (f a) (f b)) a :=
  ⟨h.refl, h.symm, h.trans⟩

theorem and (h : EquivalentFrom test a) (h' : EquivalentFrom other a) :
    EquivalentFrom (fun a b => test a b && other a b) a where
  refl := Bool.and_eq_true_iff.mpr ⟨h.refl, h'.refl⟩
  symm hab := by
    obtain ⟨htest, hother⟩ := Bool.and_eq_true_iff.mp hab
    exact Bool.and_eq_true_iff.mpr ⟨h.symm htest, h'.symm hother⟩
  trans hab hbc := by
    obtain ⟨htest, hother⟩ := Bool.and_eq_true_iff.mp hab
    obtain ⟨htest', hother'⟩ := Bool.and_eq_true_iff.mp hbc
    exact Bool.and_eq_true_iff.mpr ⟨h.trans htest htest', h'.trans hother hother'⟩

/-- What is made by a constructor, where only what is made by the same one can pass. -/
theorem lift {inner : β → β → Bool} {make : β → α} {b : β} (h : EquivalentFrom inner b)
    (hmake : ∀ b a, test (make b) a = true ↔ ∃ b', a = make b' ∧ inner b b' = true) :
    EquivalentFrom test (make b) where
  refl := (hmake b _).mpr ⟨b, rfl, h.refl⟩
  symm hab := by
    obtain ⟨b', rfl, hinner⟩ := (hmake b _).mp hab
    exact (hmake b' _).mpr ⟨b, rfl, h.symm hinner⟩
  trans hab hbc := by
    obtain ⟨b', rfl, hinner⟩ := (hmake b _).mp hab
    obtain ⟨b'', rfl, hinner'⟩ := (hmake b' _).mp hbc
    exact (hmake b _).mpr ⟨b'', rfl, h.trans hinner hinner'⟩

variable [BEq α]

/-- A list is compared element by element. -/
theorem list {as : List α} (h : ∀ a ∈ as, EquivalentFrom (fun a b : α => a == b) a) :
    EquivalentFrom (fun as bs : List α => as == bs) as := by
  induction as with
  | nil =>
    refine ⟨rfl, fun {bs} hab => ?_, fun {bs cs} hab hbc => ?_⟩
    · cases bs with
      | nil => rfl
      | cons b bs => cases hab
    · cases bs with
      | nil => exact hbc
      | cons b bs => cases hab
  | cons a as ih =>
    obtain ⟨ha, has⟩ := List.forall_mem_cons.mp h
    -- What is equal to a list with a first element has one as well, and a rest.
    have hmake : ∀ (p : α × List α) (bs : List α), (p.1 :: p.2 == bs) = true ↔
        ∃ q : α × List α, bs = q.1 :: q.2 ∧ ((p.1 == q.1) && (p.2 == q.2)) = true := by
      rintro p (_ | ⟨b, bs⟩)
      · refine ⟨fun hab => ?_, ?_⟩
        · cases hab
        · rintro ⟨q, hq, -⟩
          cases hq
      · rw [List.cons_beq_cons]
        refine ⟨fun hab => ⟨(b, bs), rfl, hab⟩, ?_⟩
        rintro ⟨q, hq, hab⟩
        obtain ⟨rfl, rfl⟩ := List.cons.inj hq
        exact hab
    have hfirst : EquivalentFrom (fun p q : α × List α => p.1 == q.1) (a, as) := ha.comap
    have hrest : EquivalentFrom (fun p q : α × List α => p.2 == q.2) (a, as) := (ih has).comap
    exact (hfirst.and hrest).lift hmake

theorem option {a? : Option α} (h : ∀ a ∈ a?, EquivalentFrom (fun a b : α => a == b) a) :
    EquivalentFrom (fun a? b? : Option α => a? == b?) a? := by
  cases a? with
  | none =>
    refine ⟨rfl, fun {b?} hab => ?_, fun {b? c?} hab hbc => ?_⟩
    · cases b? with
      | none => rfl
      | some b => cases hab
    · cases b? with
      | none => exact hbc
      | some b => cases hab
  | some a =>
    refine (h a rfl).lift fun a b? => ?_
    cases b? with
    | none => simp
    | some b => simp

end EquivalentFrom

/-! ### Numbers -/

/-- From every number but `nan`, the equality of numbers behaves like an equivalence. -/
theorem Double.equivalentFrom {x : Double} (h : x ≠ nan) : EquivalentFrom equal x := by
  cases x with
  | finite s a ha =>
    refine ⟨by simp [equal], fun {y} hxy => ?_, fun {y z} hxy hyz => ?_⟩
    · cases y with
      | finite t b hb =>
        simp only [equal, Bool.and_eq_true, Bool.or_eq_true, beq_iff_eq] at hxy ⊢
        obtain ⟨rfl, hsign⟩ := hxy
        exact ⟨rfl, hsign.imp Eq.symm id⟩
      | infinite t => cases hxy
      | nan => cases hxy
    · cases y with
      | finite t b hb =>
        cases z with
        | finite u c hc =>
          simp only [equal, Bool.and_eq_true, Bool.or_eq_true, beq_iff_eq] at hxy hyz ⊢
          obtain ⟨rfl, hsign | hzero⟩ := hxy
          · subst hsign
            exact hyz
          -- Both are zero, and the signs do not matter.
          · exact ⟨hyz.1, .inr hzero⟩
        | infinite u => cases hyz
        | nan => cases hyz
      | infinite t => cases hxy
      | nan => cases hxy
  | infinite s =>
    refine (EquivalentFrom.of_lawful s).lift fun s y => ?_
    cases y with
    | finite t b hb => simp [equal]
    | infinite t => simp [equal]
    | nan => simp [equal]
  | nan => exact absurd rfl h

/-! ### Values -/

namespace Value

/-- If the value is an object, no key occurs twice among its members. -/
def HasDistinctKeys : Value → Prop
  | .object members => (Entries.keys members).Nodup
  | _ => True

/-- No key occurs twice in an object at any depth of the value. -/
def IsKeyed (v : Value) : Prop := ∀ u, Occurs u v → u.HasDistinctKeys

theorem isKeyed_list {elements : List Value} :
    (list elements).IsKeyed ↔ ∀ v ∈ elements, v.IsKeyed :=
  forall_occurs_list.trans (and_iff_right trivial)

theorem isKeyed_object {members : List (String × Value)} :
    (object members).IsKeyed ↔ (Entries.keys members).Nodup ∧ ∀ m ∈ members, m.2.IsKeyed :=
  forall_occurs_object

/-! #### Values from JSON -/

/-- A value that holds no other is keyed. -/
theorem isKeyed_leaf {v : Value} (hv : ∀ u, Occurs u v → u = v) (h : v.HasDistinctKeys) :
    v.IsKeyed :=
  (forall_occurs_leaf hv).mpr h

theorem isKeyed_int (n : Int64) : (int n).IsKeyed :=
  isKeyed_leaf (by rintro u ⟨⟩; rfl) trivial

theorem isKeyed_float (x : Double) : (float x).IsKeyed :=
  isKeyed_leaf (by rintro u ⟨⟩; rfl) trivial

/-- Each element that is made of an array is made of some element of it. -/
theorem exists_of_mem_ofElementsAt {path : String} {elements : List Json} {v : Value} :
    ∀ {index vs}, ofElementsAt path index elements = .ok vs → v ∈ vs →
      ∃ j ∈ elements, ∃ path, ofJsonAt path j = .ok v := by
  induction elements with
  | nil =>
    rintro index vs ⟨⟩ hv
    exact absurd hv List.not_mem_nil
  | cons j rest ih =>
    intro index vs h hv
    obtain ⟨first, hfirst, h⟩ := bind_eq_ok_iff.mp h
    obtain ⟨others, hothers, h⟩ := bind_eq_ok_iff.mp h
    obtain rfl := Except.ok.inj h
    rcases List.mem_cons.mp hv with rfl | hv
    · exact ⟨j, List.mem_cons_self .., _, hfirst⟩
    · obtain ⟨j', hj', hread⟩ := ih hothers hv
      exact ⟨j', List.mem_cons_of_mem _ hj', hread⟩

/-- Each member that is made of an object is made of some member of it. -/
theorem exists_of_mem_ofMembersAt {path : String} {members : List (String × Json)}
    {m : String × Value} :
    ∀ {ms}, ofMembersAt path members = .ok ms → m ∈ ms →
      ∃ member ∈ members, ∃ path, ofJsonAt path member.2 = .ok m.2 := by
  induction members with
  | nil =>
    rintro ms ⟨⟩ hm
    exact absurd hm List.not_mem_nil
  | cons member rest ih =>
    intro ms h hm
    obtain ⟨v, hv, h⟩ := bind_eq_ok_iff.mp h
    obtain ⟨others, hothers, h⟩ := bind_eq_ok_iff.mp h
    obtain rfl := Except.ok.inj h
    rcases List.mem_cons.mp hm with rfl | hm
    · exact ⟨member, List.mem_cons_self .., _, hv⟩
    · obtain ⟨member', hmember', hread⟩ := ih hothers hm
      exact ⟨member', List.mem_cons_of_mem _ hmember', hread⟩

/-- No object that is made from JSON has a key twice. -/
theorem isKeyed_ofJsonAt {j : Json} :
    ∀ {path v}, ofJsonAt path j = .ok v → v.IsKeyed := by
  induction j using Json.nestedInduction with
  | null =>
    intro path v h
    cases h
  | integer n =>
    intro path v h
    rw [ofJsonAt] at h
    split at h
    · cases h
      exact isKeyed_leaf (by rintro u ⟨⟩; rfl) trivial
    · cases h
  | bool | float | string =>
    intro path v h
    cases h
    exact isKeyed_leaf (by rintro u ⟨⟩; rfl) trivial
  | array elements ih =>
    intro path v h
    obtain ⟨vs, rfl, hvs⟩ := ofJsonAt_array h
    refine isKeyed_list.mpr fun v hv => ?_
    obtain ⟨j, hj, path, hread⟩ := exists_of_mem_ofElementsAt hvs hv
    exact ih j hj hread
  | object members ih =>
    intro path v h
    obtain ⟨ms, rfl, hms⟩ := ofJsonAt_object h
    refine isKeyed_object.mpr ⟨Entries.nodup_keys_collect _, fun m hm => ?_⟩
    obtain ⟨member, hmember, path, hread⟩ :=
      exists_of_mem_ofMembersAt hms (Entries.mem_collect hm)
    exact ih member hmember hread

/-! #### What is equal to a value -/

theorem equalElements_eq (xs ys : List Value) : equalElements xs ys = (xs == ys) := by
  induction xs generalizing ys with
  | nil => cases ys <;> rfl
  | cons x xs ih =>
    cases ys with
    | nil => rfl
    | cons y ys =>
      rw [equalElements, ih, List.cons_beq_cons]
      rfl

theorem equalMembers_iff {ms ns : List (String × Value)} :
    equalMembers ms ns = true ↔
      ∀ m ∈ ms, ∃ y, Entries.find? m.1 ns = some y ∧ m.2.equal y = true := by
  induction ms with
  | nil => simp [equalMembers]
  | cons m rest ih =>
    obtain ⟨key, x⟩ := m
    rw [equalMembers, Bool.and_eq_true, ih, List.forall_mem_cons]
    refine and_congr_left fun _ => ?_
    cases Entries.find? key ns with
    | none => simp
    | some y => simp

/-- Equality of the members of objects. -/
def equalObjects (ms ns : List (String × Value)) : Bool :=
  ms.length == ns.length && equalMembers ms ns

theorem equalObjects_iff {ms ns : List (String × Value)} :
    equalObjects ms ns = true ↔ ms.length = ns.length ∧
      ∀ m ∈ ms, ∃ y, Entries.find? m.1 ns = some y ∧ m.2.equal y = true := by
  rw [equalObjects, Bool.and_eq_true, beq_iff_eq, equalMembers_iff]

/-- If the members of the one object have distinct keys and are all found in the other, which is no
larger, then the other has no further keys, and no key twice. -/
theorem perm_keys_of_equalObjects {ms ns : List (String × Value)} (hms : (Entries.keys ms).Nodup)
    (h : equalObjects ms ns = true) : (Entries.keys ms).Perm (Entries.keys ns) := by
  obtain ⟨hlength, hfound⟩ := equalObjects_iff.mp h
  have hsubset : Entries.keys ms ⊆ Entries.keys ns := by
    intro key hkey
    obtain ⟨m, hm, rfl⟩ := List.mem_map.mp hkey
    obtain ⟨y, hy, -⟩ := hfound m hm
    exact List.mem_map.mpr ⟨(m.1, y), Entries.mem_of_find? hy, rfl⟩
  refine (List.subperm_of_subset hms hsubset).perm_of_length_le ?_
  rw [Entries.keys, Entries.keys, List.length_map, List.length_map]
  exact Nat.le_of_eq hlength.symm

/-- Equality behaves like an equivalence from an object with distinct keys if it does from each of
its values. -/
theorem equivalentFrom_object {ms : List (String × Value)} (hms : (Entries.keys ms).Nodup)
    (h : ∀ m ∈ ms, EquivalentFrom equal m.2) : EquivalentFrom equal (object ms) := by
  have hmembers : EquivalentFrom equalObjects ms → EquivalentFrom equal (object ms) := fun h =>
    h.lift fun ms w => by cases w <;> simp [equal, equalObjects]
  refine hmembers ⟨?_, fun {ns} hmn => ?_, fun {ns ks} hmn hnk => ?_⟩
  · exact equalObjects_iff.mpr
      ⟨rfl, fun m hm => ⟨m.2, Entries.find?_of_mem hms hm, (h m hm).refl⟩⟩
  · have hperm := perm_keys_of_equalObjects hms hmn
    obtain ⟨hlength, hfound⟩ := equalObjects_iff.mp hmn
    refine equalObjects_iff.mpr ⟨hlength.symm, fun n hn => ?_⟩
    -- The key of `n` is that of some `m`, whose value was found to be equal to that of `n`.
    obtain ⟨m, hm, hkey⟩ := List.mem_map.mp (hperm.mem_iff.mpr (List.mem_map_of_mem hn))
    obtain ⟨y, hy, hequal⟩ := hfound m hm
    rw [hkey, Entries.find?_of_mem (hperm.nodup_iff.mp hms) hn] at hy
    obtain rfl := Option.some.inj hy
    exact ⟨m.2, hkey ▸ Entries.find?_of_mem hms hm, (h m hm).symm hequal⟩
  · obtain ⟨hlength, hfound⟩ := equalObjects_iff.mp hmn
    obtain ⟨hlength', hfound'⟩ := equalObjects_iff.mp hnk
    refine equalObjects_iff.mpr ⟨hlength.trans hlength', fun m hm => ?_⟩
    obtain ⟨y, hy, hequal⟩ := hfound m hm
    obtain ⟨z, hz, hequal'⟩ := hfound' _ (Entries.mem_of_find? hy)
    exact ⟨z, hz, (h m hm).trans hequal hequal'⟩

/-- **From a value with a literal form, in which no object has a key twice, equality behaves like an
equivalence.** -/
theorem equivalentFrom {v : Value} (hliteral : v.HasLiteral) (hkeyed : v.IsKeyed) :
    EquivalentFrom equal v := by
  induction v using nestedInduction with
  | boolean b => exact (EquivalentFrom.of_lawful b).lift fun b w => by cases w <;> simp [equal]
  | float x =>
    have hx : x ≠ .nan := by
      rintro rfl
      cases hliteral _ .here
    refine (Double.equivalentFrom hx).lift fun x w => ?_
    cases w <;> simp [equal]
    rfl
  | int n => exact (EquivalentFrom.of_lawful n).lift fun n w => by cases w <;> simp [equal]
  | list elements ih =>
    have helements : ∀ v ∈ elements, EquivalentFrom (fun v w : Value => v == w) v := fun v hv =>
      ih v hv ((hasLiteral_list elements).mp hliteral v hv) (isKeyed_list.mp hkeyed v hv)
    refine (EquivalentFrom.list helements).lift fun xs w => ?_
    cases w <;> simp [equal, equalElements_eq]
  | object members ih =>
    obtain ⟨hnodup, hmembers⟩ := isKeyed_object.mp hkeyed
    exact equivalentFrom_object hnodup fun m hm =>
      ih m hm ((hasLiteral_object members).mp hliteral m hm) (hmembers m hm)
  | placeholder t => exact absurd (hliteral _ .here) id
  | string s => exact (EquivalentFrom.of_lawful s).lift fun s w => by cases w <;> simp [equal]
  | reference s => exact (EquivalentFrom.of_lawful s).lift fun s w => by cases w <;> simp [equal]

/-- The members of an object may come in another order, and zero may have another sign. -/
example :
    let negativeZero : Value := float (.finite true 0 (by decide))
    let v := object [("a", float .zero), ("b", list [])]
    v.equal (object [("b", list []), ("a", negativeZero)]) = true := by
  decide

/-- From `nan` equality does not behave like an equivalence. -/
example : (list [float .nan]).equal (list [float .nan]) = false := by decide

/-- A type is equal to itself alone. -/
theorem equivalentFrom_placeholder (t : InputType) : EquivalentFrom equal (placeholder t) :=
  (EquivalentFrom.of_lawful t).lift fun t w => by cases w <;> simp [equal]

end Value

end QueryComposer
