import QueryComposer.Proofs.Rendering.Compositional

/-!
# Telling texts apart

When is a text that begins with the text of `x` also one that begins with the text of `y`?  Things
of a sort are *unambiguous* when this happens only if `x` and `y` look the same and the rests agree,
provided that the rests are such as may follow (`Unambiguous`).  A run of characters of one class is
told by the first character outside the class (`append_inj_of_leaves`), and items in a row are told
one after the other, if what closes the row cannot be taken for an item or a separator
(`Row.intercalate_append_inj`).
-/

namespace QueryComposer

/-! ### Runs of characters -/

/-- The rest does not begin with a character of the class. -/
def Leaves (p : Char → Bool) (rest : List Char) : Prop := ∀ c ∈ rest.head?, p c = false

theorem leaves_nil (p : Char → Bool) : Leaves p [] := fun _ h => absurd h (by simp)

theorem leaves_cons {p : Char → Bool} {c : Char} (rest : List Char) (hc : p c = false) :
    Leaves p (c :: rest) := by
  rintro d ⟨⟩
  exact hc

/-- A run of characters of a class, followed by none of the class, is told from the text. -/
theorem append_inj_of_leaves {p : Char → Bool} {a b r s : List Char} (ha : ∀ c ∈ a, p c = true)
    (hb : ∀ c ∈ b, p c = true) (hr : Leaves p r) (hs : Leaves p s) (h : a ++ r = b ++ s) :
    a = b ∧ r = s := by
  induction a generalizing b with
  | nil =>
    cases b with
    | nil => exact ⟨rfl, h⟩
    | cons d b =>
      rw [List.nil_append, List.cons_append] at h
      have hd : p d = false := hr d (by rw [h]; rfl)
      exact absurd (hb d (List.mem_cons_self ..)) (by rw [hd]; decide)
  | cons c a ih =>
    obtain ⟨hc, ha⟩ := List.forall_mem_cons.mp ha
    cases b with
    | nil =>
      rw [List.nil_append, List.cons_append] at h
      have hc' : p c = false := hs c (by rw [← h]; rfl)
      exact absurd hc (by rw [hc']; decide)
    | cons d b =>
      rw [List.cons_append, List.cons_append] at h
      obtain ⟨rfl, htail⟩ := List.cons.inj h
      obtain ⟨rfl, hrest⟩ := ih ha (List.forall_mem_cons.mp hb).2 htail
      exact ⟨rfl, hrest⟩

/-! ### Names -/

/-- A character with which a name can begin. -/
def isNameStart (c : Char) : Bool := c.isAlpha || c == '_'

/-- A character that can stand in a name. -/
def isNameChar (c : Char) : Bool := c.isAlphanum || c == '_'

/-- A name of the query language: letters, digits and underscores, the first not a digit. -/
structure IsName (s : String) : Prop where
  start : ∃ c cs, s.toList = c :: cs ∧ isNameStart c = true
  chars : ∀ c ∈ s.toList, isNameChar c = true

theorem IsName.ne_empty {s : String} (h : IsName s) : s ≠ "" := by
  rintro rfl
  obtain ⟨c, cs, hs, -⟩ := h.start
  cases hs

/-- Nothing but characters of names stands in what is empty or a name. -/
theorem nameChars_of_name {s : String} (h : s ≠ "" → IsName s) :
    ∀ c ∈ s.toList, isNameChar c = true := by
  by_cases hs : s = ""
  · subst hs
    exact fun _ hc => absurd hc List.not_mem_nil
  · exact (h hs).chars

/-! ### Unambiguous texts -/

section Unambiguous

variable {α β : Type}

/-- A text that begins with that of `x` and goes on in a way that may follow begins with that of `y`
in such a way only if the two look the same, and then the rests agree. -/
def Unambiguous (text : α → String) (view : α → β) (Follows : List Char → Prop) (x y : α) : Prop :=
  ∀ ⦃r s : List Char⦄, Follows r → Follows s →
    (text x).toList ++ r = (text y).toList ++ s → view x = view y ∧ r = s

/-- How a row of items with a separator is written: an item may be followed by the separator and an
item or by what ends the row, and the end is neither an item nor a separator with an item. -/
structure Row (P : α → Prop) (text : α → String) (separator : String)
    (Follows Ends : List Char → Prop) : Prop where
  follows_of_ends : ∀ {r : List Char}, Ends r → Follows r
  follows_separator : ∀ {x : α}, P x → ∀ r : List Char,
    Follows (separator.toList ++ ((text x).toList ++ r))
  not_ends_separator : ∀ {x : α}, P x → ∀ r : List Char,
    ¬Ends (separator.toList ++ ((text x).toList ++ r))
  not_ends_text : ∀ {x : α}, P x → ∀ r : List Char, ¬Ends ((text x).toList ++ r)

namespace Row

variable {P : α → Prop} {text : α → String} {separator : String} {Follows Ends : List Char → Prop}
  {view : α → β} {xs ys : List α} {r s : List Char}

theorem join_nil_append (r : List Char) :
    (String.join (([] : List α).map (separator ++ text ·))).toList ++ r = r := rfl

theorem join_cons_append (x : α) (xs : List α) (r : List Char) :
    (String.join ((x :: xs).map (separator ++ text ·))).toList ++ r = separator.toList ++
      ((text x).toList ++ ((String.join (xs.map (separator ++ text ·))).toList ++ r)) := by
  rw [List.map_cons, String.join_cons, String.toList_append, String.toList_append,
    List.append_assoc, List.append_assoc]

theorem intercalate_nil_append (r : List Char) :
    (separator.intercalate (([] : List α).map text)).toList ++ r = r := rfl

theorem intercalate_cons_append (x : α) (xs : List α) (r : List Char) :
    (separator.intercalate ((x :: xs).map text)).toList ++ r =
      (text x).toList ++ ((String.join (xs.map (separator ++ text ·))).toList ++ r) := by
  rw [List.map_cons, intercalate_cons, String.toList_append, List.append_assoc, List.map_map]
  rfl

/-- The rest of a row, each item after a separator, may follow an item. -/
theorem follows_join (row : Row P text separator Follows Ends) (hxs : ∀ x ∈ xs, P x) (hr : Ends r) :
    Follows ((String.join (xs.map (separator ++ text ·))).toList ++ r) := by
  cases xs with
  | nil => exact row.follows_of_ends hr
  | cons x xs =>
    rw [join_cons_append]
    exact row.follows_separator (hxs x (List.mem_cons_self ..)) _

/-- Items that stand each after a separator are told one after the other. -/
theorem join_append_inj (row : Row P text separator Follows Ends) (hxs : ∀ x ∈ xs, P x)
    (hys : ∀ y ∈ ys, P y) (hitems : ∀ x ∈ xs, ∀ y ∈ ys, Unambiguous text view Follows x y)
    (hr : Ends r) (hs : Ends s)
    (h : (String.join (xs.map (separator ++ text ·))).toList ++ r =
      (String.join (ys.map (separator ++ text ·))).toList ++ s) :
    xs.map view = ys.map view ∧ r = s := by
  induction xs generalizing ys with
  | nil =>
    cases ys with
    | nil => exact ⟨rfl, h⟩
    -- A separator is no end, so that the rows end together.
    | cons y ys =>
      rw [join_nil_append, join_cons_append] at h
      rw [h] at hr
      exact absurd hr (row.not_ends_separator (hys y (List.mem_cons_self ..)) _)
  | cons x xs ih =>
    obtain ⟨hx, hxs'⟩ := List.forall_mem_cons.mp hxs
    obtain ⟨hitem, hitems⟩ := List.forall_mem_cons.mp hitems
    rw [join_cons_append] at h
    cases ys with
    | nil =>
      rw [join_nil_append] at h
      rw [← h] at hs
      exact absurd hs (row.not_ends_separator hx _)
    | cons y ys =>
      obtain ⟨hy, hys'⟩ := List.forall_mem_cons.mp hys
      rw [join_cons_append] at h
      obtain ⟨hview, hrest⟩ := hitem y (List.mem_cons_self ..) (row.follows_join hxs' hr)
        (row.follows_join hys' hs) (List.append_cancel_left h)
      obtain ⟨hviews, hrest⟩ := ih hxs' hys'
        (fun x hx y hy => hitems x hx y (List.mem_cons_of_mem _ hy)) hrest
      exact ⟨by rw [List.map_cons, List.map_cons, hview, hviews], hrest⟩

/-- **The items of a row are told one after the other**, with what comes after the row. -/
theorem intercalate_append_inj (row : Row P text separator Follows Ends) (hxs : ∀ x ∈ xs, P x)
    (hys : ∀ y ∈ ys, P y) (hitems : ∀ x ∈ xs, ∀ y ∈ ys, Unambiguous text view Follows x y)
    (hr : Ends r) (hs : Ends s)
    (h : (separator.intercalate (xs.map text)).toList ++ r =
      (separator.intercalate (ys.map text)).toList ++ s) :
    xs.map view = ys.map view ∧ r = s := by
  cases xs with
  | nil =>
    cases ys with
    | nil => exact ⟨rfl, h⟩
    | cons y ys =>
      rw [intercalate_nil_append, intercalate_cons_append] at h
      rw [h] at hr
      exact absurd hr (row.not_ends_text (hys y (List.mem_cons_self ..)) _)
  | cons x xs =>
    obtain ⟨hx, hxs'⟩ := List.forall_mem_cons.mp hxs
    obtain ⟨hitem, hitems⟩ := List.forall_mem_cons.mp hitems
    rw [intercalate_cons_append] at h
    cases ys with
    | nil =>
      rw [intercalate_nil_append] at h
      rw [← h] at hs
      exact absurd hs (row.not_ends_text hx _)
    | cons y ys =>
      obtain ⟨hy, hys'⟩ := List.forall_mem_cons.mp hys
      rw [intercalate_cons_append] at h
      obtain ⟨hview, hrest⟩ := hitem y (List.mem_cons_self ..)
        (row.follows_join hxs' hr) (row.follows_join hys' hs) h
      obtain ⟨hviews, hrest⟩ := row.join_append_inj hxs' hys'
        (fun x hx y hy => hitems x hx y (List.mem_cons_of_mem _ hy)) hr hs hrest
      exact ⟨by rw [List.map_cons, List.map_cons, hview, hviews], hrest⟩

end Row

end Unambiguous

end QueryComposer
