/-!
# Results that may be missing

A sequence of steps succeeds exactly when each step does, with the result of the one before, and a
list of results is there when each of them is.

Work that stops at the first error does not tell what else is wrong.  `Settles` compares it with a
list of everything that is wrong: the work succeeds when the list is empty and else fails with the
head of the list.  Two such steps settle the two lists together (`Settles.bind`).
-/

namespace QueryComposer

variable {ε α β : Type}

/-- Two steps give `b` when the first gives some `a` and the second gives `b` from it. -/
theorem bind_eq_ok_iff {x : Except ε α} {f : α → Except ε β} {b : β} :
    x >>= f = .ok b ↔ ∃ a, x = .ok a ∧ f a = .ok b := by
  cases x with
  | error e => simp [bind, Except.bind]
  | ok a => simp [bind, Except.bind]

theorem check_bind_eq_ok_iff {x : Except ε Unit} {y : Except ε β} {b : β} :
    (x >>= fun _ => y) = .ok b ↔ x = .ok () ∧ y = .ok b := by
  rw [bind_eq_ok_iff]
  constructor
  · rintro ⟨_, hx, hy⟩
    exact ⟨hx, hy⟩
  · rintro ⟨hx, hy⟩
    exact ⟨(), hx, hy⟩

/-- What cannot fail after a step does not change its error. -/
theorem bind_ok_eq_error_iff {x : Except ε α} {f : α → β} {e : ε} :
    (x >>= fun a => .ok (f a)) = .error e ↔ x = .error e := by
  cases x with
  | error e' => simp [bind, Except.bind]
  | ok a => simp [bind, Except.bind]

/-- What does not fail with an error leaves that error to the step before. -/
theorem bind_eq_error_iff {x : Except ε α} {f : α → Except ε β} {e : ε}
    (h : ∀ a, x = .ok a → f a ≠ .error e) : x >>= f = .error e ↔ x = .error e := by
  cases x with
  | error e' => simp [bind, Except.bind]
  | ok a => exact iff_of_false (h a rfl) (by simp)

theorem map_eq_ok_iff {x : Except ε α} {f : α → β} {b : β} :
    x.map f = .ok b ↔ ∃ a, x = .ok a ∧ f a = b := by
  cases x with
  | error e => simp [Except.map]
  | ok a => simp [Except.map]

theorem toOption_eq_some_iff {x : Except ε α} {a : α} : x.toOption = some a ↔ x = .ok a := by
  cases x with
  | error e => simp [Except.toOption]
  | ok b => simp [Except.toOption]

/-! ### Lists of results -/

theorem mapM_cons_eq_some {f : α → Option β} {x : α} {xs : List α} {ys : List β}
    (h : (x :: xs).mapM f = some ys) :
    ∃ y rest, f x = some y ∧ xs.mapM f = some rest ∧ ys = y :: rest := by
  rw [List.mapM_cons] at h
  obtain ⟨y, hy, h⟩ := Option.bind_eq_some_iff.mp h
  obtain ⟨rest, hrest, h⟩ := Option.bind_eq_some_iff.mp h
  exact ⟨y, rest, hy, hrest, (Option.some.inj h).symm⟩

theorem mem_of_mapM_eq_some {f : α → Option β} {xs : List α} {ys : List β}
    (h : xs.mapM f = some ys) : ∀ y ∈ ys, ∃ x ∈ xs, f x = some y := by
  induction xs generalizing ys with
  | nil =>
    cases h
    exact fun _ hy => absurd hy List.not_mem_nil
  | cons x xs ih =>
    obtain ⟨z, rest, hz, hrest, rfl⟩ := mapM_cons_eq_some h
    intro y hy
    rcases List.mem_cons.mp hy with rfl | hy
    · exact ⟨x, List.mem_cons_self .., hz⟩
    · obtain ⟨x', hx', hy⟩ := ih hrest y hy
      exact ⟨x', List.mem_cons_of_mem _ hx', hy⟩

theorem exists_mem_of_mapM_eq_some {f : α → Option β} {xs : List α} {ys : List β}
    (h : xs.mapM f = some ys) : ∀ x ∈ xs, ∃ y ∈ ys, f x = some y := by
  induction xs generalizing ys with
  | nil => exact fun _ hx => absurd hx List.not_mem_nil
  | cons x xs ih =>
    obtain ⟨y, rest, hy, hrest, rfl⟩ := mapM_cons_eq_some h
    intro x' hx'
    rcases List.mem_cons.mp hx' with rfl | hx'
    · exact ⟨y, List.mem_cons_self .., hy⟩
    · obtain ⟨y', hy', hx'⟩ := ih hrest x' hx'
      exact ⟨y', List.mem_cons_of_mem _ hy', hx'⟩

theorem getElem?_of_mapM_eq_some {f : α → Option β} {xs : List α} {ys : List β}
    (h : xs.mapM f = some ys) {i : Nat} {x : α} (hx : xs[i]? = some x) :
    ∃ y, ys[i]? = some y ∧ f x = some y := by
  induction xs generalizing ys i with
  | nil => cases hx
  | cons z xs ih =>
    obtain ⟨y, rest, hy, hrest, rfl⟩ := mapM_cons_eq_some h
    cases i with
    | zero =>
      cases hx
      exact ⟨y, rfl, hy⟩
    | succ i => exact ih hrest hx

/-! ### First errors -/

/-- The result has the property if nothing is wrong, and else is the first thing that is wrong. -/
def Settles (Q : α → Prop) (result : Except ε α) : List ε → Prop
  | [] => ∃ a, result = .ok a ∧ Q a
  | e :: _ => result = .error e

namespace Settles

variable {Q : α → Prop} {Q' : β → Prop} {x : Except ε α} {wrong : List ε}

theorem ok {a : α} (h : Q a) : Settles Q (.ok a : Except ε α) [] := ⟨a, rfl, h⟩

theorem mono {P : α → Prop} (h : Settles P x wrong) (hPQ : ∀ a, P a → Q a) : Settles Q x wrong := by
  cases wrong with
  | nil =>
    obtain ⟨a, ha, hP⟩ := h
    exact ⟨a, ha, hPQ a hP⟩
  | cons e rest => exact h

/-- What is wrong in two steps is what is wrong in the first, followed by what is wrong in the
second. -/
theorem bind {f : α → Except ε β} {more : List ε} (h : Settles Q x wrong)
    (hf : ∀ a, Q a → Settles Q' (f a) more) : Settles Q' (x >>= f) (wrong ++ more) := by
  cases wrong with
  | nil =>
    obtain ⟨a, rfl, ha⟩ := h
    exact hf a ha
  | cons e rest =>
    obtain rfl : x = .error e := h
    rfl

/-- A step that cannot fail adds nothing. -/
theorem bind_ok {f : α → Except ε β} (h : Settles Q x wrong)
    (hf : ∀ a, Q a → ∃ b, f a = .ok b ∧ Q' b) : Settles Q' (x >>= f) wrong := by
  rw [← List.append_nil wrong]
  exact h.bind hf

theorem of_eq_ok (h : Settles Q x wrong) {a : α} (ha : x = .ok a) : Q a := by
  cases wrong with
  | nil =>
    obtain ⟨a', ha', hQ⟩ := h
    obtain rfl := Except.ok.inj (ha.symm.trans ha')
    exact hQ
  | cons e rest =>
    obtain rfl : x = .error e := h
    cases ha

theorem eq_ok_iff (h : Settles Q x wrong) : (∃ a, x = .ok a) ↔ wrong = [] := by
  cases wrong with
  | nil =>
    obtain ⟨a, ha, -⟩ := h
    exact ⟨fun _ => rfl, fun _ => ⟨a, ha⟩⟩
  | cons e rest =>
    obtain rfl : x = .error e := h
    simp

theorem eq_error_iff (h : Settles Q x wrong) {e : ε} : x = .error e ↔ wrong.head? = some e := by
  cases wrong with
  | nil =>
    obtain ⟨a, rfl, -⟩ := h
    simp
  | cons e' rest =>
    obtain rfl : x = .error e' := h
    simp

end Settles

end QueryComposer
