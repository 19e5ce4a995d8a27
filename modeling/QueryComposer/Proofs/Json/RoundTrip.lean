import QueryComposer.Json.Printer
import QueryComposer.Proofs.Double.Nearest

/-!
# What is written is read back

The compact text of a value is read as a syntax tree that writes the value again.  Strings go
through an escape per character (`readString_literal`), numbers end where the value ends, and
brackets are followed by induction over the value (`Json.reads_text`), with the length of the text
as a bound both on the fuel and on the depth.

Main statement: `Json.parse_text`.
-/

namespace QueryComposer

theorem Text.joinWith_eq_intercalate (separator : String) (ts : List String) :
    Text.joinWith separator ts = separator.intercalate ts := by
  cases ts with
  | nil => rfl
  | cons t ts =>
    show ts.foldl _ t = _
    induction ts generalizing t with
    | nil => rw [List.foldl_nil, String.intercalate_singleton]
    | cons u ts ih =>
      rw [List.foldl_cons, ih, String.intercalate_cons_cons]
      cases ts with
      | nil => rw [String.intercalate_singleton, String.intercalate_singleton]
      | cons v ts =>
        rw [String.intercalate_cons_cons, String.intercalate_cons_cons]
        simp only [String.append_assoc]

namespace Json

/-! ### Strings -/

theorem codeUnit?_hexDigit :
    ∀ n < 0x20, codeUnit? '0' '0' (hexDigit (n / 16)) (hexDigit (n % 16)) = some n := by
  decide

/-- A character is written by a short escape, by a code unit, or by itself. -/
theorem escapedChar_cases (c : Char) :
    (∃ e, escapedChar c = ['\\', e] ∧ shortEscape? e = some c) ∨
      (c.toNat < 0x20 ∧
        escapedChar c = ['\\', 'u', '0', '0', hexDigit (c.toNat / 16), hexDigit (c.toNat % 16)]) ∨
      (c ≠ '"' ∧ c ≠ '\\' ∧ ¬c.toNat < 0x20 ∧ escapedChar c = [c]) := by
  unfold escapedChar
  split_ifs with hquote hbackslash hbackspace htab hnewline hfeed hreturn hcontrol
  · exact .inl ⟨_, rfl, by rw [hquote]; rfl⟩
  · exact .inl ⟨_, rfl, by rw [hbackslash]; rfl⟩
  · exact .inl ⟨_, rfl, by rw [hbackspace]; rfl⟩
  · exact .inl ⟨_, rfl, by rw [htab]; rfl⟩
  · exact .inl ⟨_, rfl, by rw [hnewline]; rfl⟩
  · exact .inl ⟨_, rfl, by rw [hfeed]; rfl⟩
  · exact .inl ⟨_, rfl, by rw [hreturn]; rfl⟩
  · exact .inr (.inl ⟨hcontrol, rfl⟩)
  · exact .inr (.inr ⟨hquote, hbackslash, hcontrol, rfl⟩)

/-- Every character is written as one piece that stands for it. -/
theorem exists_piece (c : Char) :
    ∃ piece, (∀ {cs pieces rest}, readPieces cs = some (pieces, rest) →
        readPieces (escapedChar c ++ cs) = some (piece :: pieces, rest)) ∧
      ∀ {pieces cs}, ofPieces pieces = some cs → ofPieces (piece :: pieces) = some (c :: cs) := by
  have hchar : ∀ {pieces cs}, ofPieces pieces = some cs →
      ofPieces (.char c :: pieces) = some (c :: cs) := fun h => by rw [ofPieces, h]; rfl
  rcases escapedChar_cases c with ⟨e, htext, hshort⟩ | ⟨hcontrol, htext⟩ |
    ⟨hquote, hbackslash, hcontrol, htext⟩
  · refine ⟨.char c, fun h => ?_, hchar⟩
    rw [htext, List.cons_append, List.singleton_append, readPieces, hshort, h]
    · rfl
    · rintro _ _ _ _ _ rfl
      cases hshort
  · -- A code unit below U+0020 is no half of a surrogate pair.
    refine ⟨.unit c.toNat, fun h => ?_, fun h => ?_⟩
    · rw [htext]
      simp only [List.cons_append, List.nil_append]
      rw [readPieces, codeUnit?_hexDigit c.toNat hcontrol, h]
      rfl
    · have hhigh : isHighSurrogate c.toNat = false := by
        rw [isHighSurrogate, decide_eq_false (by omega), Bool.false_and]
      have hlow : isLowSurrogate c.toNat = false := by
        rw [isLowSurrogate, decide_eq_false (by omega), Bool.false_and]
      unfold ofPieces
      rw [hhigh, hlow, h, Char.ofNat_toNat]
      rfl
  · refine ⟨.char c, fun h => ?_, hchar⟩
    rw [htext, List.singleton_append, readPieces, if_neg hcontrol, h]
    · rfl
    · exact hquote
    · rintro _ _ _ _ _ rfl
      exact absurd rfl hbackslash
    · rintro _ _ rfl
      exact absurd rfl hbackslash

theorem toList_literal (s : String) :
    (literal s).toList = '"' :: (s.toList.flatMap escapedChar ++ ['"']) :=
  String.toList_ofList

/-- A string literal is read as its string. -/
theorem readString_literal (s : String) (rest : List Char) :
    ∃ tail, (literal s).toList ++ rest = '"' :: tail ∧ readString tail = some (s, rest) := by
  have hpieces : ∀ cs : List Char, ∃ pieces,
      readPieces (cs.flatMap escapedChar ++ '"' :: rest) = some (pieces, rest) ∧
        ofPieces pieces = some cs := by
    intro cs
    induction cs with
    | nil => exact ⟨[], by rw [List.flatMap_nil, List.nil_append, readPieces], rfl⟩
    | cons c cs ih =>
      obtain ⟨pieces, hread, hchars⟩ := ih
      obtain ⟨piece, hread', hchars'⟩ := exists_piece c
      refine ⟨piece :: pieces, ?_, hchars' hchars⟩
      rw [List.flatMap_cons, List.append_assoc]
      exact hread' hread
  obtain ⟨pieces, hread, hchars⟩ := hpieces s.toList
  refine ⟨s.toList.flatMap escapedChar ++ '"' :: rest, ?_, ?_⟩
  · rw [toList_literal, List.cons_append, List.append_assoc]
    rfl
  · rw [readString, hread, Option.bind_eq_bind, Option.bind_some]
    dsimp only
    rw [hchars, Option.bind_eq_bind, Option.bind_some, String.ofList_toList]
    rfl

/-! ### Numbers -/

/-- A whole number that is kept whole is read back whole. -/
theorem value?_readNumeral_int {n : ℤ} (hlower : -9223372036854775808 ≤ n)
    (hupper : n < 18446744073709551616) {rest : List Char} (hrest : EndsNumber rest) :
    ∃ t, readNumeral ((toString n).toList ++ rest) = some (t, rest) ∧
      t.value? = some (.integer n) := by
  have hvalue : Numeral.integer? ⟨decide (n < 0), Nat.toDigits 10 n.natAbs, none, none⟩ =
      some n := by
    simp only [Numeral.integer?, digitsValue_toDigits, decide_eq_true_eq]
    split_ifs <;> congr 1 <;> omega
  have hkept : isKeptWhole n = true := by
    rw [isKeptWhole, decide_eq_true hlower, decide_eq_true hupper, Bool.and_self]
  refine ⟨_, readNumeral_int n hrest, ?_⟩
  rw [Numeral.value?_of_integer? hvalue, if_pos]
  refine ⟨hkept, ?_⟩
  rintro ⟨hnegative, hzero⟩
  have hneg := of_decide_eq_true hnegative
  have heq := Option.some.inj (hvalue.symm.trans hzero)
  omega

/-! ### Heads -/

/-- The text begins with a character that is neither blank nor a closing bracket. -/
def Opens (cs : List Char) : Prop := ∃ c tail, cs = c :: tail ∧ isSpace c = false ∧ c ≠ ']'

theorem Opens.skipSpaces {cs : List Char} (h : Opens cs) : skipSpaces cs = cs := by
  obtain ⟨c, tail, rfl, hc, -⟩ := h
  rw [Json.skipSpaces, List.dropWhile_cons_of_neg]
  simp [hc]

theorem opens_bracketed {bracket : Char} {opening : String} (row closing : String)
    (hopening : opening.toList = [bracket]) (hbracket : isSpace bracket = false ∧ bracket ≠ ']') :
    Opens (opening ++ row ++ closing).toList := by
  refine ⟨bracket, row.toList ++ closing.toList, ?_, hbracket⟩
  rw [String.toList_append, String.toList_append, hopening]
  rfl

theorem Opens.append {cs : List Char} (h : Opens cs) (rest : List Char) : Opens (cs ++ rest) := by
  obtain ⟨c, tail, rfl, hc⟩ := h
  exact ⟨c, tail ++ rest, rfl, hc⟩

/-- What begins a number begins no other value and is no blank. -/
theorem ne_of_begins_number {c d : Char} (hc : c = '-' ∨ c.isDigit = true)
    (hd : d.isDigit = false ∧ d ≠ '-') : c ≠ d := by
  rintro rfl
  rcases hc with hc | hc
  · exact hd.2 hc
  · rw [hd.1] at hc
    cases hc

theorem opens_of_readNumeral {cs rest : List Char} {t : Numeral}
    (h : readNumeral cs = some (t, rest)) : Opens cs := by
  obtain ⟨c, tail, rfl, hc⟩ := head_of_readNumeral h
  refine ⟨c, tail, rfl, ?_, ne_of_begins_number hc (by decide)⟩
  simp only [isSpace, Bool.or_eq_false_iff, beq_eq_false_iff_ne]
  exact ⟨⟨⟨ne_of_begins_number hc (by decide), ne_of_begins_number hc (by decide)⟩,
    ne_of_begins_number hc (by decide)⟩, ne_of_begins_number hc (by decide)⟩

/-- A number is read where no other value begins. -/
theorem readSpelling_number {cs rest : List Char} {t : Numeral}
    (h : readNumeral cs = some (t, rest)) (fuel depth : ℕ) :
    readSpelling (fuel + 1) depth cs = some (.number t, rest) := by
  obtain ⟨c, tail, hcs, hc⟩ := head_of_readNumeral h
  rw [readSpelling, (opens_of_readNumeral h).skipSpaces]
  split
  case h_7 =>
    rw [h]
    rfl
  all_goals
    exact absurd (List.cons.inj hcs).1.symm (ne_of_begins_number hc (by decide))

theorem readSpelling_string {cs tail rest : List Char} {s : String} (hcs : cs = '"' :: tail)
    (h : readString tail = some (s, rest)) (fuel depth : ℕ) :
    readSpelling (fuel + 1) depth cs = some (.string s, rest) := by
  have hskip : skipSpaces cs = '"' :: tail := by
    rw [hcs]
    rfl
  simp only [readSpelling, hskip, h]
  rfl

theorem readSpelling_array {cs rest : List Char} {elements : List Spelling} {fuel depth : ℕ}
    (hopens : Opens cs) (h : readElements fuel depth cs = some (elements, rest)) :
    readSpelling (fuel + 1) (depth + 1) ('[' :: cs) = some (.array elements, rest) := by
  obtain ⟨c, tail, hcs, -, hc⟩ := id hopens
  have hskip : skipSpaces ('[' :: cs) = '[' :: cs := rfl
  simp only [readSpelling, hskip, hopens.skipSpaces]
  split
  · exact absurd (List.cons.inj hcs).1.symm hc
  · rw [h]
    rfl

theorem readSpelling_object {cs tail rest : List Char} {members : List (String × Spelling)}
    {fuel depth : ℕ} (hcs : cs = '"' :: tail)
    (h : readMembers fuel depth cs = some (members, rest)) :
    readSpelling (fuel + 1) (depth + 1) ('\x7b' :: cs) = some (.object members, rest) := by
  have hskip : skipSpaces ('\x7b' :: cs) = '\x7b' :: cs := rfl
  have hskip' : skipSpaces cs = cs := by
    rw [hcs]
    rfl
  simp only [readSpelling, hskip, hskip']
  split
  · cases hcs
  · rw [h]
    rfl

/-! ### Blanks -/

section Blanks

variable {blanks : List Char} (hblanks : ∀ b ∈ blanks, isSpace b = true) (cs : List Char)
include hblanks

theorem skipSpaces_append : skipSpaces (blanks ++ cs) = skipSpaces cs :=
  List.dropWhile_append_of_pos hblanks

theorem readSpelling_blanks (fuel depth : ℕ) :
    readSpelling fuel depth (blanks ++ cs) = readSpelling fuel depth cs := by
  cases fuel with
  | zero => rw [readSpelling, readSpelling]
  | succ fuel => simp only [readSpelling, skipSpaces_append hblanks]

theorem readElements_blanks (fuel depth : ℕ) :
    readElements fuel depth (blanks ++ cs) = readElements fuel depth cs := by
  cases fuel with
  | zero => rw [readElements, readElements]
  | succ fuel => simp only [readElements, readSpelling_blanks hblanks]

theorem readMembers_blanks (fuel depth : ℕ) :
    readMembers fuel depth (blanks ++ cs) = readMembers fuel depth cs := by
  cases fuel with
  | zero => rw [readMembers, readMembers]
  | succ fuel => simp only [readMembers, skipSpaces_append hblanks]

end Blanks

/-- A comma or a colon as it is written between neighbours, with any number of blanks behind it. -/
def IsMark (c : Char) (mark : String) : Prop :=
  ∃ blanks, mark.toList = c :: blanks ∧ ∀ b ∈ blanks, isSpace b = true

theorem isMark_comma : IsMark ',' "," := ⟨[], rfl, List.forall_mem_nil _⟩

theorem isMark_colon : IsMark ':' ":" := ⟨[], rfl, List.forall_mem_nil _⟩

theorem IsMark.length_pos {c : Char} {mark : String} (h : IsMark c mark) : 0 < mark.length := by
  obtain ⟨blanks, hmark, -⟩ := h
  rw [← String.length_toList, hmark]
  exact Nat.succ_pos _

/-! ### Values -/

/-- The text is read as the value, with its length as a bound on the fuel and on the depth, and
what follows is left. -/
def Reads (text : String) (j : Json) : Prop :=
  ∀ {fuel depth rest}, 2 * text.length ≤ fuel → text.length ≤ depth → EndsNumber rest →
    ∃ s, readSpelling fuel depth (text.toList ++ rest) = some (s, rest) ∧ s.value? = some j

/-- A value without brackets is read in one step. -/
theorem reads_of_leaf {text : String} {j : Json} (hopens : Opens text.toList)
    (h : ∀ fuel depth rest, EndsNumber rest →
      ∃ s, readSpelling (fuel + 1) depth (text.toList ++ rest) = some (s, rest) ∧
        s.value? = some j) :
    Reads text j := by
  intro fuel depth rest hfuel _ hrest
  obtain ⟨c, tail, hcs, -⟩ := hopens
  have hlength : 0 < text.length := by
    rw [← String.length_toList, hcs]
    exact Nat.succ_pos _
  obtain ⟨fuel, rfl⟩ := Nat.exists_eq_add_one.mpr (by omega : 0 < fuel)
  exact h fuel depth rest hrest

theorem reads_of_readNumeral {text : String} {j : Json}
    (h : ∀ {rest}, EndsNumber rest →
      ∃ t, readNumeral (text.toList ++ rest) = some (t, rest) ∧ t.value? = some j) :
    Opens text.toList ∧ Reads text j := by
  obtain ⟨_, ht, -⟩ := h endsNumber_nil
  have hopens : Opens text.toList := opens_of_readNumeral (List.append_nil text.toList ▸ ht)
  refine ⟨hopens, reads_of_leaf hopens fun fuel depth rest hrest => ?_⟩
  obtain ⟨t, ht, hvalue⟩ := h hrest
  exact ⟨.number t, readSpelling_number ht fuel depth, hvalue⟩

theorem reads_bool (b : Bool) :
    Opens (if b then "true" else "false").toList ∧
      Reads (if b then "true" else "false") (bool b) := by
  cases b with
  | true =>
    have hopens : Opens "true".toList := ⟨'t', _, rfl, by decide, by decide⟩
    exact ⟨hopens, reads_of_leaf hopens fun _ _ _ _ => ⟨.bool true, rfl, rfl⟩⟩
  | false =>
    have hopens : Opens "false".toList := ⟨'f', _, rfl, by decide, by decide⟩
    exact ⟨hopens, reads_of_leaf hopens fun _ _ _ _ => ⟨.bool false, rfl, rfl⟩⟩

theorem reads_literal (s : String) : Opens (literal s).toList ∧ Reads (literal s) (string s) := by
  have hopens : Opens (literal s).toList := ⟨'"', _, toList_literal s, by decide, by decide⟩
  refine ⟨hopens, reads_of_leaf hopens fun fuel depth rest _ => ?_⟩
  obtain ⟨tail, htail, hread⟩ := readString_literal s rest
  exact ⟨.string s, readSpelling_string htail hread fuel depth, rfl⟩

/-- What follows an element or a member in its row. -/
theorem endsNumber_cons {c : Char} (rest : List Char)
    (hc : c.isDigit = false ∧ c ≠ '.' ∧ c ≠ 'e' ∧ c ≠ 'E') : EndsNumber (c :: rest) := by
  rintro d ⟨⟩
  exact hc

theorem readElements_last {cs rest : List Char} {s : Spelling} {fuel depth : ℕ}
    (h : readSpelling fuel depth cs = some (s, ']' :: rest)) :
    readElements (fuel + 1) depth cs = some ([s], rest) := by
  rw [readElements, h]
  rfl

theorem readElements_cons {cs blanks ds rest : List Char} {s : Spelling} {ss : List Spelling}
    {fuel depth : ℕ} (hblanks : ∀ b ∈ blanks, isSpace b = true)
    (h : readSpelling fuel depth cs = some (s, ',' :: (blanks ++ ds)))
    (hrest : readElements fuel depth ds = some (ss, rest)) :
    readElements (fuel + 1) depth cs = some (s :: ss, rest) := by
  have hskip : skipSpaces (',' :: (blanks ++ ds)) = ',' :: (blanks ++ ds) := rfl
  have hrest' := readElements_blanks hblanks ds fuel depth
  simp only [readElements, h, hskip, hrest', hrest, Option.bind_eq_bind, Option.bind_some]
  rfl

/-- The text of a member of an object, with `colon` between its key and the text of its value. -/
def memberText (colon : String) (textOf : Json → String) (m : String × Json) : String :=
  literal m.1 ++ colon ++ textOf m.2

/-- The value of a member, with its key. -/
def memberValue? (m : String × Spelling) : Option (String × Json) :=
  m.2.value?.map fun j => (m.1, j)

section Member

variable {cs tail blanks ds rest : List Char} {key : String} {s : Spelling} {fuel depth : ℕ}
  (hcs : cs = '"' :: tail) (hblanks : ∀ b ∈ blanks, isSpace b = true)
  (hkey : readString tail = some (key, ':' :: (blanks ++ ds)))
include hcs hblanks hkey

theorem readMembers_last (h : readSpelling fuel depth ds = some (s, '\x7d' :: rest)) :
    readMembers (fuel + 1) depth cs = some ([(key, s)], rest) := by
  subst hcs
  have hquote : skipSpaces ('"' :: tail) = '"' :: tail := rfl
  have hcolon : skipSpaces (':' :: (blanks ++ ds)) = ':' :: (blanks ++ ds) := rfl
  have hbrace : skipSpaces ('\x7d' :: rest) = '\x7d' :: rest := rfl
  have h' := readSpelling_blanks hblanks ds fuel depth
  simp only [readMembers, hquote, hkey, hcolon, h', h, hbrace, Option.bind_eq_bind,
    Option.bind_some]

theorem readMembers_cons {blanks' es : List Char} {members : List (String × Spelling)}
    (hblanks' : ∀ b ∈ blanks', isSpace b = true)
    (h : readSpelling fuel depth ds = some (s, ',' :: (blanks' ++ es)))
    (hrest : readMembers fuel depth es = some (members, rest)) :
    readMembers (fuel + 1) depth cs = some ((key, s) :: members, rest) := by
  subst hcs
  have hquote : skipSpaces ('"' :: tail) = '"' :: tail := rfl
  have hcolon : skipSpaces (':' :: (blanks ++ ds)) = ':' :: (blanks ++ ds) := rfl
  have hcomma : skipSpaces (',' :: (blanks' ++ es)) = ',' :: (blanks' ++ es) := rfl
  have h' := readSpelling_blanks hblanks ds fuel depth
  have hrest' := readMembers_blanks hblanks' es fuel depth
  simp only [readMembers, hquote, hkey, hcolon, h', h, hcomma, hrest', hrest,
    Option.bind_eq_bind, Option.bind_some]
  rfl

end Member

section Rows

variable {comma colon : String} (hcomma : IsMark ',' comma) (hcolon : IsMark ':' colon)
  {textOf : Json → String}
include hcomma

/-- Elements are read one by one, each up to the comma or the bracket after it. -/
theorem readElements_intercalate (j : Json) (js : List Json)
    (h : ∀ j' ∈ j :: js, Opens (textOf j').toList ∧ Reads (textOf j') j') :
    ∀ {fuel depth}, 2 * (comma.intercalate ((j :: js).map textOf)).length < fuel →
      (comma.intercalate ((j :: js).map textOf)).length ≤ depth → ∀ rest,
      Opens ((comma.intercalate ((j :: js).map textOf)).toList ++ ']' :: rest) ∧
        ∃ ss, readElements fuel depth
            ((comma.intercalate ((j :: js).map textOf)).toList ++ ']' :: rest) = some (ss, rest) ∧
          ss.mapM Spelling.value? = some (j :: js) := by
  induction js generalizing j with
  | nil =>
    intro fuel depth hfuel hdepth rest
    rw [List.map_singleton, String.intercalate_singleton] at *
    obtain ⟨fuel, rfl⟩ := Nat.exists_eq_add_one.mpr (by omega : 0 < fuel)
    have hfuel' : 2 * (textOf j).length ≤ fuel := by omega
    obtain ⟨hopens, hreads⟩ := h j (List.mem_singleton_self j)
    obtain ⟨s, hs, hvalue⟩ := hreads hfuel' hdepth (endsNumber_cons (c := ']') rest (by decide))
    refine ⟨hopens.append _, [s], readElements_last hs, ?_⟩
    rw [List.mapM_cons, hvalue]
    rfl
  | cons j' js ih =>
    intro fuel depth hfuel hdepth rest
    rw [List.map_cons, List.map_cons, String.intercalate_cons_cons, ← List.map_cons] at *
    simp only [String.length_append, String.toList_append, List.append_assoc] at *
    obtain ⟨fuel, rfl⟩ := Nat.exists_eq_add_one.mpr (by omega : 0 < fuel)
    obtain ⟨⟨hopens, hreads⟩, hjs⟩ := List.forall_mem_cons.mp h
    have hlength := hcomma.length_pos
    have hfuel' : 2 * (textOf j).length ≤ fuel := by omega
    have hdepth' : (textOf j).length ≤ depth := by omega
    have hfuels : 2 * (comma.intercalate ((j' :: js).map textOf)).length < fuel := by omega
    have hdepths : (comma.intercalate ((j' :: js).map textOf)).length ≤ depth := by omega
    obtain ⟨-, ss, hss, hvalues⟩ := ih j' hjs hfuels hdepths rest
    obtain ⟨blanks, hmark, hblanks⟩ := hcomma
    obtain ⟨s, hs, hvalue⟩ := hreads hfuel' hdepth' (endsNumber_cons (c := ',') _ (by decide))
    rw [hmark, List.cons_append]
    refine ⟨hopens.append _, s :: ss, readElements_cons hblanks hs hss, ?_⟩
    rw [List.mapM_cons, hvalue, hvalues]
    rfl

/-- The text of an array is read when the elements are. -/
theorem reads_array {elements : List Json}
    (h : ∀ j ∈ elements, Opens (textOf j).toList ∧ Reads (textOf j) j) :
    let text := "[" ++ comma.intercalate (elements.map textOf) ++ "]"
    Opens text.toList ∧ Reads text (array elements) := by
  refine ⟨opens_bracketed _ _ rfl (by decide), fun {fuel depth rest} hfuel hdepth _ => ?_⟩
  have hopening : "[".length = 1 := rfl
  have hclosing : "]".length = 1 := rfl
  simp only [String.length_append, String.toList_append, List.append_assoc] at *
  obtain ⟨fuel, rfl⟩ := Nat.exists_eq_add_one.mpr (by omega : 0 < fuel)
  obtain ⟨depth, rfl⟩ := Nat.exists_eq_add_one.mpr (by omega : 0 < depth)
  cases elements with
  | nil => exact ⟨.array [], rfl, rfl⟩
  | cons j js =>
    have hfuel' : 2 * (comma.intercalate ((j :: js).map textOf)).length < fuel := by omega
    have hdepth' : (comma.intercalate ((j :: js).map textOf)).length ≤ depth := by omega
    obtain ⟨hopens, ss, hss, hvalues⟩ :=
      readElements_intercalate hcomma j js h hfuel' hdepth' rest
    refine ⟨.array ss, readSpelling_array hopens hss, ?_⟩
    rw [Spelling.value?, elementValues?_eq_mapM, hvalues]
    rfl

include hcolon

/-- Members are read one by one, each up to the comma or the brace after it. -/
theorem readMembers_intercalate (m : String × Json) (ms : List (String × Json))
    (h : ∀ m' ∈ m :: ms, Reads (textOf m'.2) m'.2) :
    ∀ {row : String}, row = comma.intercalate ((m :: ms).map (memberText colon textOf)) →
      ∀ {fuel depth}, 2 * row.length < fuel → row.length ≤ depth → ∀ rest,
      (∃ tail, row.toList ++ '\x7d' :: rest = '"' :: tail) ∧
        ∃ ss, readMembers fuel depth (row.toList ++ '\x7d' :: rest) = some (ss, rest) ∧
          ss.mapM memberValue? = some (m :: ms) := by
  have hcommaLength := hcomma.length_pos
  obtain ⟨blanks, hmark, hblanks⟩ := hcolon
  have hvalue? : ∀ {s j}, s.value? = some j → ∀ key, memberValue? (key, s) = some (key, j) :=
    fun h key => by rw [memberValue?, h]; rfl
  induction ms generalizing m with
  | nil =>
    rintro row rfl fuel depth hfuel hdepth rest
    rw [List.map_singleton, String.intercalate_singleton, memberText] at *
    simp only [String.length_append, String.toList_append, List.append_assoc] at *
    obtain ⟨fuel, rfl⟩ := Nat.exists_eq_add_one.mpr (by omega : 0 < fuel)
    have hfuel' : 2 * (textOf m.2).length ≤ fuel := by omega
    have hdepth' : (textOf m.2).length ≤ depth := by omega
    obtain ⟨s, hs, hvalue⟩ := h m (List.mem_singleton_self m) hfuel' hdepth'
      (endsNumber_cons (c := '\x7d') rest (by decide))
    obtain ⟨tail, htail, hkey⟩ := readString_literal m.1
      (':' :: (blanks ++ ((textOf m.2).toList ++ '\x7d' :: rest)))
    rw [hmark, List.cons_append]
    refine ⟨⟨tail, htail⟩, [(m.1, s)], readMembers_last htail hblanks hkey hs, ?_⟩
    rw [List.mapM_cons, hvalue? hvalue]
    rfl
  | cons m' ms ih =>
    rintro row rfl fuel depth hfuel hdepth rest
    rw [List.map_cons, List.map_cons, String.intercalate_cons_cons, ← List.map_cons,
      memberText] at *
    simp only [String.length_append, String.toList_append, List.append_assoc] at *
    obtain ⟨fuel, rfl⟩ := Nat.exists_eq_add_one.mpr (by omega : 0 < fuel)
    obtain ⟨hm, hms⟩ := List.forall_mem_cons.mp h
    have hfuel' : 2 * (textOf m.2).length ≤ fuel := by omega
    have hdepth' : (textOf m.2).length ≤ depth := by omega
    have hfuels : 2 * (comma.intercalate ((m' :: ms).map (memberText colon textOf))).length <
        fuel := by omega
    have hdepths : (comma.intercalate ((m' :: ms).map (memberText colon textOf))).length ≤
        depth := by omega
    obtain ⟨-, ss, hss, hvalues⟩ := ih m' hms rfl hfuels hdepths rest
    obtain ⟨blanks', hmark', hblanks'⟩ := hcomma
    obtain ⟨s, hs, hvalue⟩ := hm hfuel' hdepth' (endsNumber_cons (c := ',') _ (by decide))
    obtain ⟨tail, htail, hkey⟩ :=
      readString_literal m.1 (':' :: (blanks ++ ((textOf m.2).toList ++ _)))
    rw [hmark, hmark', List.cons_append, List.cons_append]
    refine ⟨⟨tail, htail⟩, (m.1, s) :: ss, readMembers_cons htail hblanks hkey hblanks' hs hss, ?_⟩
    rw [List.mapM_cons, hvalue? hvalue, hvalues]
    rfl

/-- The text of an object is read when the values of its members are. -/
theorem reads_object {members : List (String × Json)}
    (h : ∀ m ∈ members, Reads (textOf m.2) m.2) :
    let text := "\x7b" ++ comma.intercalate (members.map (memberText colon textOf)) ++ "\x7d"
    Opens text.toList ∧ Reads text (object members) := by
  refine ⟨opens_bracketed _ _ rfl (by decide), fun {fuel depth rest} hfuel hdepth _ => ?_⟩
  have hopening : "\x7b".length = 1 := rfl
  have hclosing : "\x7d".length = 1 := rfl
  simp only [String.length_append, String.toList_append, List.append_assoc] at *
  obtain ⟨fuel, rfl⟩ := Nat.exists_eq_add_one.mpr (by omega : 0 < fuel)
  obtain ⟨depth, rfl⟩ := Nat.exists_eq_add_one.mpr (by omega : 0 < depth)
  cases members with
  | nil => exact ⟨.object [], rfl, rfl⟩
  | cons m ms =>
    have hfuel' : 2 * (comma.intercalate ((m :: ms).map (memberText colon textOf))).length <
        fuel := by omega
    have hdepth' : (comma.intercalate ((m :: ms).map (memberText colon textOf))).length ≤
        depth := by omega
    obtain ⟨⟨tail, htail⟩, ss, hss, hvalues⟩ :=
      readMembers_intercalate hcomma hcolon m ms h rfl hfuel' hdepth' rest
    refine ⟨.object ss, readSpelling_object htail hss, ?_⟩
    rw [Spelling.value?, memberValues?_eq_mapM]
    show (ss.mapM memberValue?).bind _ = _
    rw [hvalues]
    rfl

end Rows

/-! ### Texts of values -/

theorem elementTexts_eq_map (elements : List Json) : elementTexts elements = elements.map text := by
  induction elements with
  | nil => rfl
  | cons j rest ih => rw [elementTexts, ih, List.map_cons]

theorem memberTexts_eq_map (members : List (String × Json)) :
    memberTexts members = members.map (memberText ":" text) := by
  induction members with
  | nil => rfl
  | cons m rest ih => rw [memberTexts, ih, List.map_cons, memberText]

theorem text_array (elements : List Json) :
    (array elements).text = "[" ++ ",".intercalate (elements.map text) ++ "]" := by
  rw [text, elementTexts_eq_map, Text.joinWith_eq_intercalate]

theorem text_object (members : List (String × Json)) :
    (object members).text =
      "\x7b" ++ ",".intercalate (members.map (memberText ":" text)) ++ "\x7d" := by
  rw [text, memberTexts_eq_map, Text.joinWith_eq_intercalate]

/-- The text of a value whose numbers are kept opens as a value does and is read as the value. -/
theorem reads_text {j : Json} (h : j.IsKept) : Opens j.text.toList ∧ Reads j.text j := by
  induction h with
  | null =>
    have hopens : Opens "null".toList := ⟨'n', _, rfl, by decide, by decide⟩
    exact ⟨hopens, reads_of_leaf hopens fun _ _ _ _ => ⟨.null, rfl, rfl⟩⟩
  | bool b =>
    rw [text]
    exact reads_bool b
  | integer lower upper =>
    exact reads_of_readNumeral fun hrest => value?_readNumeral_int lower upper hrest
  | float finite =>
    rename_i x
    rw [text, if_pos finite]
    exact reads_of_readNumeral fun hrest => numberStyle.value?_text finite hrest
  | string s =>
    rw [text]
    exact reads_literal s
  | array _ ih =>
    rw [text_array]
    exact reads_array isMark_comma ih
  | object _ ih =>
    rw [text_object]
    exact reads_object isMark_comma isMark_colon fun m hm => (ih m hm).2

/-- What is read as a value is a text of the value, with brackets nested as deep as it is long. -/
theorem parseWithin_of_reads {text : String} {j : Json} (h : Reads text j) {depth : ℕ}
    (hdepth : text.length ≤ depth) : parseWithin depth text = some j := by
  have hfuel : 2 * text.length ≤ 2 * text.toList.length + 1 := by
    rw [String.length_toList]
    omega
  obtain ⟨s, hs, hvalue⟩ := h hfuel hdepth endsNumber_nil
  rw [List.append_nil] at hs
  have hspelling : spellingOf? depth text.toList = some s := by
    rw [spellingOf?, hs]
    rfl
  rw [parseWithin, hspelling]
  exact hvalue

/-- **The text of a value is read back as the value**, with brackets nested as deep as the text is
long. -/
theorem parseWithin_text {j : Json} (h : j.IsKept) {depth : ℕ} (hdepth : j.text.length ≤ depth) :
    parseWithin depth j.text = some j :=
  parseWithin_of_reads (reads_text h).2 hdepth

theorem parse_text {j : Json} (h : j.IsKept) : parse j.text = some j :=
  parseWithin_text h le_rfl

end Json

end QueryComposer
