import Mathlib.Order.MinMax
import QueryComposer.Description.OfJson
import QueryComposer.Proofs.Json.Reading

/-!
# How deeply a text is nested

The reader opens at most a given number of brackets.  It reads a text with a limit exactly when the
value is nested no more deeply, and what it reads does not depend on the limit
(`parseWithin_eq_some_iff`); as every bracket is a character of the text, `parse` refuses no value
for its depth.  The depth of a value is taken from its syntax tree (`Spelling.within_iff`), along
which the readers go.
-/

namespace QueryComposer.Json

/-! ### Depth -/

theorem elementsDepth_le_iff {elements : List Json} {n : ℕ} :
    elementsDepth elements ≤ n ↔ ∀ j ∈ elements, j.depth ≤ n := by
  induction elements with
  | nil => simp [elementsDepth]
  | cons j rest ih => rw [elementsDepth, Nat.max_le, ih, List.forall_mem_cons]

theorem membersDepth_le_iff {members : List (String × Json)} {n : ℕ} :
    membersDepth members ≤ n ↔ ∀ m ∈ members, m.2.depth ≤ n := by
  induction members with
  | nil => simp [membersDepth]
  | cons m rest ih => rw [membersDepth, Nat.max_le, ih, List.forall_mem_cons]

theorem depth_array_le_iff {elements : List Json} {n : ℕ} :
    (array elements).depth ≤ n ↔ ∃ k, n = k + 1 ∧ ∀ j ∈ elements, j.depth ≤ k := by
  rw [depth]
  constructor
  · intro h
    obtain ⟨k, rfl⟩ := Nat.exists_eq_add_one.mpr (by omega : 0 < n)
    exact ⟨k, rfl, elementsDepth_le_iff.mp (by omega)⟩
  · rintro ⟨k, rfl, h⟩
    exact Nat.succ_le_succ (elementsDepth_le_iff.mpr h)

theorem depth_object_le_iff {members : List (String × Json)} {n : ℕ} :
    (object members).depth ≤ n ↔ ∃ k, n = k + 1 ∧ ∀ m ∈ members, m.2.depth ≤ k := by
  rw [depth]
  constructor
  · intro h
    obtain ⟨k, rfl⟩ := Nat.exists_eq_add_one.mpr (by omega : 0 < n)
    exact ⟨k, rfl, membersDepth_le_iff.mp (by omega)⟩
  · rintro ⟨k, rfl, h⟩
    exact Nat.succ_le_succ (membersDepth_le_iff.mpr h)

/-- Brackets are nested at most so deeply in the syntax tree. -/
inductive Spelling.Within : ℕ → Spelling → Prop where
  | null {n : ℕ} : Within n .null
  | bool {n : ℕ} (b : Bool) : Within n (.bool b)
  | number {n : ℕ} (t : Numeral) : Within n (.number t)
  | string {n : ℕ} (s : String) : Within n (.string s)
  | array {n : ℕ} {elements : List Spelling} (h : ∀ s ∈ elements, Within n s) :
      Within (n + 1) (.array elements)
  | object {n : ℕ} {members : List (String × Spelling)} (h : ∀ m ∈ members, Within n m.2) :
      Within (n + 1) (.object members)

theorem Spelling.Within.mono {m n : ℕ} {s : Spelling} (h : s.Within m) (hmn : m ≤ n) :
    s.Within n := by
  induction h generalizing n with
  | null => exact .null
  | bool b => exact .bool b
  | number t => exact .number t
  | string s => exact .string s
  | array _ ih =>
    obtain ⟨n, rfl⟩ := Nat.exists_eq_add_one.mpr (by omega : 0 < n)
    exact .array fun s hs => ih s hs (Nat.le_of_succ_le_succ hmn)
  | object _ ih =>
    obtain ⟨n, rfl⟩ := Nat.exists_eq_add_one.mpr (by omega : 0 < n)
    exact .object fun m hm => ih m hm (Nat.le_of_succ_le_succ hmn)

/-- A syntax tree is nested as deeply as the value that it writes. -/
theorem Spelling.within_iff (s : Spelling) :
    ∀ {j n}, s.value? = some j → (s.Within n ↔ j.depth ≤ n) := by
  induction s using Spelling.nestedInduction with
  | null =>
    rintro j n ⟨⟩
    exact iff_of_true .null (Nat.zero_le n)
  | bool b =>
    rintro j n ⟨⟩
    exact iff_of_true (.bool b) (Nat.zero_le n)
  | number t =>
    intro j n hj
    refine iff_of_true (.number t) ?_
    rcases Numeral.value?_cases hj with ⟨k, rfl, -⟩ | ⟨x, rfl, -⟩
    · exact Nat.zero_le n
    · exact Nat.zero_le n
  | string s =>
    rintro j n ⟨⟩
    exact iff_of_true (.string s) (Nat.zero_le n)
  | array elements ih =>
    intro j n hj
    obtain ⟨js, rfl, hjs⟩ := value?_array hj
    rw [depth_array_le_iff]
    constructor
    · rintro (_ | _ | _ | _ | @⟨n, _, h⟩)
      refine ⟨n, rfl, fun j hj => ?_⟩
      obtain ⟨s, hs, hj⟩ := mem_of_mapM_eq_some hjs j hj
      exact (ih s hs hj).mp (h s hs)
    · rintro ⟨k, rfl, hk⟩
      refine .array fun s hs => ?_
      obtain ⟨j, hmem, hj⟩ := exists_mem_of_mapM_eq_some hjs s hs
      exact (ih s hs hj).mpr (hk j hmem)
  | object members ih =>
    intro j n hj
    obtain ⟨ms, rfl, hms⟩ := value?_object hj
    rw [depth_object_le_iff]
    constructor
    · rintro (_ | _ | _ | _ | _ | @⟨n, _, h⟩)
      refine ⟨n, rfl, fun m' hm' => ?_⟩
      obtain ⟨m, hm, hvalue⟩ := mem_of_mapM_eq_some hms m' hm'
      obtain ⟨j, hj, rfl⟩ := Option.map_eq_some_iff.mp hvalue
      exact (ih m hm hj).mp (h m hm)
    · rintro ⟨k, rfl, hk⟩
      refine .object fun m hm => ?_
      obtain ⟨m', hmem, hvalue⟩ := exists_mem_of_mapM_eq_some hms m hm
      obtain ⟨j, hj, rfl⟩ := Option.map_eq_some_iff.mp hvalue
      exact (ih m hm hj).mpr (hk _ hmem)

/-! ### What the readers do -/

section Readers

variable {fuel depth : ℕ} {cs rest : List Char}

/-- An element is read, and then either a comma and more elements or the closing bracket. -/
theorem readElements_succ_eq_some_iff {ss : List Spelling} :
    readElements (fuel + 1) depth cs = some (ss, rest) ↔
      ∃ s ds, readSpelling fuel depth cs = some (s, ds) ∧
        ((∃ es ss', skipSpaces ds = ',' :: es ∧ readElements fuel depth es = some (ss', rest) ∧
            ss = s :: ss') ∨
          skipSpaces ds = ']' :: rest ∧ ss = [s]) := by
  rw [readElements]
  constructor
  · intro h
    obtain ⟨⟨s, ds⟩, hs, h⟩ := Option.bind_eq_some_iff.mp h
    refine ⟨s, ds, hs, ?_⟩
    dsimp only at h
    split at h
    · rename_i es hds
      obtain ⟨⟨ss', rest'⟩, hss, h⟩ := Option.bind_eq_some_iff.mp h
      cases h
      exact .inl ⟨es, ss', hds, hss, rfl⟩
    · rename_i es hds
      cases h
      exact .inr ⟨hds, rfl⟩
    · cases h
  · rintro ⟨s, ds, hs, ⟨es, ss', hds, hss, rfl⟩ | ⟨hds, rfl⟩⟩
    · simp only [hs, hds, hss, Option.bind_eq_bind, Option.bind_some]
      rfl
    · simp only [hs, hds, Option.bind_eq_bind, Option.bind_some]

/-- A key, a colon and a value are read, and then either a comma and more members or the closing
brace. -/
theorem readMembers_succ_eq_some_iff {ms : List (String × Spelling)} :
    readMembers (fuel + 1) depth cs = some (ms, rest) ↔
      ∃ ds key es fs s gs, skipSpaces cs = '"' :: ds ∧ readString ds = some (key, es) ∧
        skipSpaces es = ':' :: fs ∧ readSpelling fuel depth fs = some (s, gs) ∧
        ((∃ ts ms', skipSpaces gs = ',' :: ts ∧ readMembers fuel depth ts = some (ms', rest) ∧
            ms = (key, s) :: ms') ∨
          skipSpaces gs = '\x7d' :: rest ∧ ms = [(key, s)]) := by
  rw [readMembers]
  constructor
  · intro h
    split at h
    · rename_i ds hcs
      obtain ⟨⟨key, es⟩, hkey, h⟩ := Option.bind_eq_some_iff.mp h
      dsimp only at h
      split at h
      · rename_i fs hes
        obtain ⟨⟨s, gs⟩, hs, h⟩ := Option.bind_eq_some_iff.mp h
        refine ⟨ds, key, es, fs, s, gs, hcs, hkey, hes, hs, ?_⟩
        dsimp only at h
        split at h
        · rename_i ts hgs
          obtain ⟨⟨ms', rest'⟩, hms, h⟩ := Option.bind_eq_some_iff.mp h
          cases h
          exact .inl ⟨ts, ms', hgs, hms, rfl⟩
        · rename_i ts hgs
          cases h
          exact .inr ⟨hgs, rfl⟩
        · cases h
      · cases h
    · cases h
  · rintro ⟨ds, key, es, fs, s, gs, hcs, hkey, hes, hs, ⟨ts, ms', hgs, hms, rfl⟩ | ⟨hgs, rfl⟩⟩
    · simp only [hcs, hkey, hes, hs, hgs, hms, Option.bind_eq_bind, Option.bind_some]
      rfl
    · simp only [hcs, hkey, hes, hs, hgs, Option.bind_eq_bind, Option.bind_some]

end Readers

/-! ### What is left of a text -/

theorem skipSpaces_suffix (cs : List Char) : skipSpaces cs <:+ cs := List.dropWhile_suffix _

theorem suffix_of_skipSpaces {cs ds : List Char} {c : Char} (h : skipSpaces cs = c :: ds) :
    ds <:+ cs :=
  (List.suffix_cons c ds).trans (h ▸ skipSpaces_suffix cs)

theorem readDigits_suffix {cs digits rest : List Char} (h : readDigits cs = (digits, rest)) :
    rest <:+ cs := by
  cases h
  exact List.dropWhile_suffix _

theorem suffix_of_readPieces {cs rest : List Char} {pieces : List Piece}
    (h : readPieces cs = some (pieces, rest)) : rest <:+ cs := by
  fun_induction readPieces cs generalizing pieces with
  | case1 => cases h
  | case2 tail =>
    cases h
    exact List.suffix_cons _ _
  | case3 a b c d tail ih =>
    obtain ⟨n, -, h⟩ := Option.bind_eq_some_iff.mp h
    obtain ⟨⟨pieces', rest'⟩, hpieces, h⟩ := Option.bind_eq_some_iff.mp h
    cases h
    exact (ih hpieces).trans ⟨['\\', 'u', a, b, c, d], rfl⟩
  | case4 e tail _ ih =>
    obtain ⟨c, -, h⟩ := Option.bind_eq_some_iff.mp h
    obtain ⟨⟨pieces', rest'⟩, hpieces, h⟩ := Option.bind_eq_some_iff.mp h
    cases h
    exact (ih hpieces).trans ⟨['\\', e], rfl⟩
  | case5 => cases h
  | case6 c tail _ _ _ _ ih =>
    obtain ⟨⟨pieces', rest'⟩, hpieces, h⟩ := Option.bind_eq_some_iff.mp h
    cases h
    exact (ih hpieces).trans (List.suffix_cons _ _)

theorem suffix_of_readString {cs rest : List Char} {s : String}
    (h : readString cs = some (s, rest)) : rest <:+ cs := by
  obtain ⟨⟨pieces, rest'⟩, hpieces, h⟩ := Option.bind_eq_some_iff.mp h
  obtain ⟨chars, -, h⟩ := Option.bind_eq_some_iff.mp h
  cases h
  exact suffix_of_readPieces hpieces

theorem suffix_of_readWhole {cs digits rest : List Char} (h : readWhole cs = some (digits, rest)) :
    rest <:+ cs := by
  unfold readWhole at h
  split at h
  · cases h
  · cases h
  · rename_i hdigits
    cases h
    exact readDigits_suffix hdigits

theorem suffix_of_readFraction {cs rest : List Char} {fraction : Option (List Char)}
    (h : readFraction cs = some (fraction, rest)) : rest <:+ cs := by
  unfold readFraction at h
  split at h
  · split at h
    · cases h
    · rename_i hdigits
      cases h
      exact (readDigits_suffix hdigits).trans (List.suffix_cons _ _)
  · cases h
    exact List.suffix_rfl

theorem readSign_suffix (cs : List Char) : (readSign cs).2 <:+ cs := by
  unfold readSign
  split
  · exact List.suffix_cons _ _
  · exact List.suffix_cons _ _
  · exact List.suffix_rfl

theorem suffix_of_readExponent {cs rest : List Char} {exponent : Option ℤ}
    (h : readExponent cs = some (exponent, rest)) : rest <:+ cs := by
  unfold readExponent at h
  split at h
  · rename_i c tail
    split at h
    · dsimp only at h
      split at h
      · cases h
      · rename_i hdigits
        cases h
        exact ((readDigits_suffix hdigits).trans (readSign_suffix tail)).trans
          (List.suffix_cons _ _)
    · cases h
      exact List.suffix_rfl
  · cases h
    exact List.suffix_rfl

theorem suffix_of_readNumeral {cs rest : List Char} {t : Numeral}
    (h : readNumeral cs = some (t, rest)) : rest <:+ cs := by
  unfold readNumeral at h
  split at h
  rename_i negative ds hsign
  obtain ⟨⟨whole, es⟩, hwhole, h⟩ := Option.bind_eq_some_iff.mp h
  obtain ⟨⟨fraction, fs⟩, hfraction, h⟩ := Option.bind_eq_some_iff.mp h
  obtain ⟨⟨exponent, gs⟩, hexponent, h⟩ := Option.bind_eq_some_iff.mp h
  cases h
  have hds : ds <:+ cs := by
    split at hsign
    · cases hsign
      exact List.suffix_cons _ _
    · cases hsign
      exact List.suffix_rfl
  have hfs := suffix_of_readExponent hexponent
  have hes := suffix_of_readFraction hfraction
  exact ((hfs.trans hes).trans (suffix_of_readWhole hwhole)).trans hds

/-- Behind an opened bracket both the limit and the characters allow one bracket less. -/
theorem exists_min_eq_succ (depth : ℕ) {c : Char} {ds cs es : List Char} (hcs : c :: ds <:+ cs)
    (hds : es <:+ ds) :
    ∃ n, min (depth + 1) cs.length = n + 1 ∧ min depth es.length ≤ n := by
  have h := hcs.length_le
  have h' := hds.length_le
  rw [List.length_cons] at h
  exact ⟨min depth (cs.length - 1), by omega, by omega⟩

/-- With this fuel, what is read is nested no more deeply than the limit and the characters allow,
and what is left is the end of the text. -/
structure ReadsWithin (fuel : ℕ) : Prop where
  spelling {depth : ℕ} {cs rest : List Char} {s : Spelling} :
    readSpelling fuel depth cs = some (s, rest) → rest <:+ cs ∧ s.Within (min depth cs.length)
  elements {depth : ℕ} {cs rest : List Char} {ss : List Spelling} :
    readElements fuel depth cs = some (ss, rest) →
      rest <:+ cs ∧ ∀ s ∈ ss, s.Within (min depth cs.length)
  members {depth : ℕ} {cs rest : List Char} {ms : List (String × Spelling)} :
    readMembers fuel depth cs = some (ms, rest) →
      rest <:+ cs ∧ ∀ m ∈ ms, m.2.Within (min depth cs.length)

namespace ReadsWithin

variable {fuel depth : ℕ} {cs rest : List Char}

theorem spelling_succ (within : ReadsWithin fuel) {s : Spelling}
    (h : readSpelling (fuel + 1) depth cs = some (s, rest)) :
    rest <:+ cs ∧ s.Within (min depth cs.length) := by
  rw [readSpelling] at h
  have hcs := skipSpaces_suffix cs
  generalize skipSpaces cs = ds at h hcs
  split at h
  · cases h
    exact ⟨(List.suffix_append ['n', 'u', 'l', 'l'] _).trans hcs, .null⟩
  · cases h
    exact ⟨(List.suffix_append ['t', 'r', 'u', 'e'] _).trans hcs, .bool true⟩
  · cases h
    exact ⟨(List.suffix_append ['f', 'a', 'l', 's', 'e'] _).trans hcs, .bool false⟩
  · obtain ⟨⟨s, rest'⟩, hs, h⟩ := Option.bind_eq_some_iff.mp h
    cases h
    exact ⟨((suffix_of_readString hs).trans (List.suffix_cons _ _)).trans hcs, .string s⟩
  case h_5 ds =>
    cases depth with
    | zero => cases h
    | succ depth =>
      have hes := skipSpaces_suffix ds
      generalize skipSpaces ds = es at h hes
      obtain ⟨n, hn, hle⟩ := exists_min_eq_succ depth hcs hes
      have hds := hes.trans ((List.suffix_cons _ _).trans hcs)
      rw [hn]
      dsimp only at h
      split at h
      · cases h
        exact ⟨(List.suffix_cons _ _).trans hds, .array (List.forall_mem_nil _)⟩
      · obtain ⟨⟨ss, rest'⟩, hss, h⟩ := Option.bind_eq_some_iff.mp h
        cases h
        obtain ⟨hrest, hss⟩ := within.elements hss
        exact ⟨hrest.trans hds, .array fun s hs => (hss s hs).mono hle⟩
  case h_6 ds =>
    cases depth with
    | zero => cases h
    | succ depth =>
      have hes := skipSpaces_suffix ds
      generalize skipSpaces ds = es at h hes
      obtain ⟨n, hn, hle⟩ := exists_min_eq_succ depth hcs hes
      have hds := hes.trans ((List.suffix_cons _ _).trans hcs)
      rw [hn]
      dsimp only at h
      split at h
      · cases h
        exact ⟨(List.suffix_cons _ _).trans hds, .object (List.forall_mem_nil _)⟩
      · obtain ⟨⟨ms, rest'⟩, hms, h⟩ := Option.bind_eq_some_iff.mp h
        cases h
        obtain ⟨hrest, hms⟩ := within.members hms
        exact ⟨hrest.trans hds, .object fun m hm => (hms m hm).mono hle⟩
  · obtain ⟨⟨t, rest'⟩, ht, h⟩ := Option.bind_eq_some_iff.mp h
    cases h
    exact ⟨(suffix_of_readNumeral ht).trans hcs, .number t⟩

theorem elements_succ (within : ReadsWithin fuel) {ss : List Spelling}
    (h : readElements (fuel + 1) depth cs = some (ss, rest)) :
    rest <:+ cs ∧ ∀ s ∈ ss, s.Within (min depth cs.length) := by
  obtain ⟨s, ds, hs, ⟨es, ss', hds, hss, rfl⟩ | ⟨hds, rfl⟩⟩ :=
    readElements_succ_eq_some_iff.mp h
  · obtain ⟨hcs, hs⟩ := within.spelling hs
    obtain ⟨hrest, hss⟩ := within.elements hss
    have hes := (suffix_of_skipSpaces hds).trans hcs
    have hle := min_le_min_left depth hes.length_le
    exact ⟨hrest.trans hes, List.forall_mem_cons.mpr ⟨hs, fun s hs => (hss s hs).mono hle⟩⟩
  · obtain ⟨hcs, hs⟩ := within.spelling hs
    exact ⟨(suffix_of_skipSpaces hds).trans hcs, List.forall_mem_singleton.mpr hs⟩

theorem members_succ (within : ReadsWithin fuel) {ms : List (String × Spelling)}
    (h : readMembers (fuel + 1) depth cs = some (ms, rest)) :
    rest <:+ cs ∧ ∀ m ∈ ms, m.2.Within (min depth cs.length) := by
  obtain ⟨ds, key, es, fs, s, gs, hcs, hkey, hes, hs, h⟩ := readMembers_succ_eq_some_iff.mp h
  have hkey := (suffix_of_readString hkey).trans (suffix_of_skipSpaces hcs)
  have hfs := (suffix_of_skipSpaces hes).trans hkey
  obtain ⟨hgs, hs⟩ := within.spelling hs
  have hgs := hgs.trans hfs
  have hs := hs.mono (min_le_min_left depth hfs.length_le)
  obtain ⟨ts, ms', hts, hms, rfl⟩ | ⟨hts, rfl⟩ := h
  · obtain ⟨hrest, hms⟩ := within.members hms
    have hts := (suffix_of_skipSpaces hts).trans hgs
    have hle := min_le_min_left depth hts.length_le
    exact ⟨hrest.trans hts, List.forall_mem_cons.mpr ⟨hs, fun m hm => (hms m hm).mono hle⟩⟩
  · exact ⟨(suffix_of_skipSpaces hts).trans hgs, List.forall_mem_singleton.mpr hs⟩

end ReadsWithin

/-- Every bracket in what is read is a character of the text and keeps to the limit. -/
theorem readsWithin (fuel : ℕ) : ReadsWithin fuel := by
  induction fuel with
  | zero =>
    constructor
    · intro depth cs rest s h
      cases h
    · intro depth cs rest ss h
      cases h
    · intro depth cs rest ms h
      cases h
  | succ fuel ih => exact ⟨ih.spelling_succ, ih.elements_succ, ih.members_succ⟩

/-! ### Reading with another limit -/

/-- With this fuel, what has been read is read the same with every limit that it keeps. -/
structure FreeOfLimit (fuel : ℕ) : Prop where
  spelling {depth limit : ℕ} {cs rest : List Char} {s : Spelling} :
    readSpelling fuel depth cs = some (s, rest) → s.Within limit →
      readSpelling fuel limit cs = some (s, rest)
  elements {depth limit : ℕ} {cs rest : List Char} {ss : List Spelling} :
    readElements fuel depth cs = some (ss, rest) → (∀ s ∈ ss, s.Within limit) →
      readElements fuel limit cs = some (ss, rest)
  members {depth limit : ℕ} {cs rest : List Char} {ms : List (String × Spelling)} :
    readMembers fuel depth cs = some (ms, rest) → (∀ m ∈ ms, m.2.Within limit) →
      readMembers fuel limit cs = some (ms, rest)

namespace FreeOfLimit

variable {fuel depth limit : ℕ} {cs rest : List Char}

theorem spelling_succ (free : FreeOfLimit fuel) {s : Spelling}
    (h : readSpelling (fuel + 1) depth cs = some (s, rest)) (hs : s.Within limit) :
    readSpelling (fuel + 1) limit cs = some (s, rest) := by
  rw [readSpelling] at h ⊢
  generalize skipSpaces cs = ds at h ⊢
  split at h
  case h_5 ds =>
    cases depth with
    | zero => cases h
    | succ depth =>
      generalize skipSpaces ds = es at h ⊢
      dsimp only at h
      split at h
      · cases h
        cases hs
        rfl
      · obtain ⟨⟨ss, rest'⟩, hss, h⟩ := Option.bind_eq_some_iff.mp h
        cases h
        cases hs with
        | array hs =>
          show (readElements fuel _ es).bind _ = _
          rw [free.elements hss hs]
          rfl
  case h_6 ds =>
    cases depth with
    | zero => cases h
    | succ depth =>
      generalize skipSpaces ds = es at h ⊢
      dsimp only at h
      split at h
      · cases h
        cases hs
        rfl
      · obtain ⟨⟨ms, rest'⟩, hms, h⟩ := Option.bind_eq_some_iff.mp h
        cases h
        cases hs with
        | object hs =>
          show (readMembers fuel _ es).bind _ = _
          rw [free.members hms hs]
          rfl
  -- Without a bracket the limit does not matter.
  all_goals exact h

theorem elements_succ (free : FreeOfLimit fuel) {ss : List Spelling}
    (h : readElements (fuel + 1) depth cs = some (ss, rest)) (hss : ∀ s ∈ ss, s.Within limit) :
    readElements (fuel + 1) limit cs = some (ss, rest) := by
  rw [readElements_succ_eq_some_iff] at h ⊢
  obtain ⟨s, ds, hs, ⟨es, ss', hds, hrest, rfl⟩ | ⟨hds, rfl⟩⟩ := h
  · obtain ⟨hs', hss⟩ := List.forall_mem_cons.mp hss
    exact ⟨s, ds, free.spelling hs hs', .inl ⟨es, ss', hds, free.elements hrest hss, rfl⟩⟩
  · exact ⟨s, ds, free.spelling hs (List.forall_mem_singleton.mp hss), .inr ⟨hds, rfl⟩⟩

theorem members_succ (free : FreeOfLimit fuel) {ms : List (String × Spelling)}
    (h : readMembers (fuel + 1) depth cs = some (ms, rest)) (hms : ∀ m ∈ ms, m.2.Within limit) :
    readMembers (fuel + 1) limit cs = some (ms, rest) := by
  rw [readMembers_succ_eq_some_iff] at h ⊢
  obtain ⟨ds, key, es, fs, s, gs, hcs, hkey, hes, hs,
    ⟨ts, ms', hgs, hrest, rfl⟩ | ⟨hgs, rfl⟩⟩ := h
  · obtain ⟨hs', hms⟩ := List.forall_mem_cons.mp hms
    exact ⟨ds, key, es, fs, s, gs, hcs, hkey, hes, free.spelling hs hs',
      .inl ⟨ts, ms', hgs, free.members hrest hms, rfl⟩⟩
  · exact ⟨ds, key, es, fs, s, gs, hcs, hkey, hes,
      free.spelling hs (hms _ (List.mem_singleton_self _)), .inr ⟨hgs, rfl⟩⟩

end FreeOfLimit

/-- The limit matters at no fuel. -/
theorem freeOfLimit (fuel : ℕ) : FreeOfLimit fuel := by
  induction fuel with
  | zero =>
    constructor
    · intro depth limit cs rest s h
      cases h
    · intro depth limit cs rest ss h
      cases h
    · intro depth limit cs rest ms h
      cases h
  | succ fuel ih => exact ⟨ih.spelling_succ, ih.elements_succ, ih.members_succ⟩

theorem spellingOf?_eq_some_iff {depth : ℕ} {cs : List Char} {s : Spelling} :
    spellingOf? depth cs = some s ↔
      ∃ rest, readSpelling (2 * cs.length + 1) depth cs = some (s, rest) ∧
        skipSpaces rest = [] := by
  rw [spellingOf?]
  constructor
  · intro h
    obtain ⟨⟨s', rest⟩, hread, h⟩ := Option.bind_eq_some_iff.mp h
    dsimp only at h
    split at h
    · rename_i hrest
      cases h
      exact ⟨rest, hread, hrest⟩
    · cases h
  · rintro ⟨rest, hread, hrest⟩
    simp only [hread, Option.bind_eq_bind, Option.bind_some, hrest]
    rfl

/-- **A text is read with every limit that its value keeps**, and with no other; the reader without
a limit reads it as well. -/
theorem parseWithin_eq_some_iff {text : String} {j : Json} {limit : ℕ} :
    parseWithin limit text = some j ↔ parse text = some j ∧ j.depth ≤ limit := by
  constructor
  · intro h
    obtain ⟨s, hs, hj⟩ := Option.bind_eq_some_iff.mp h
    obtain ⟨rest, hread, hrest⟩ := spellingOf?_eq_some_iff.mp hs
    obtain ⟨-, hwithin⟩ := (readsWithin _).spelling hread
    have hread' := (freeOfLimit _).spelling hread (hwithin.mono (min_le_right _ _))
    refine ⟨Option.bind_eq_some_iff.mpr ⟨s, ?_, hj⟩, ?_⟩
    · exact spellingOf?_eq_some_iff.mpr ⟨rest, hread', hrest⟩
    · exact (s.within_iff hj).mp (hwithin.mono (min_le_left _ _))
  · rintro ⟨h, hdepth⟩
    obtain ⟨s, hs, hj⟩ := Option.bind_eq_some_iff.mp h
    obtain ⟨rest, hread, hrest⟩ := spellingOf?_eq_some_iff.mp hs
    have hread' := (freeOfLimit _).spelling hread ((s.within_iff hj).mpr hdepth)
    exact Option.bind_eq_some_iff.mpr ⟨s, spellingOf?_eq_some_iff.mpr ⟨rest, hread', hrest⟩, hj⟩

end QueryComposer.Json
