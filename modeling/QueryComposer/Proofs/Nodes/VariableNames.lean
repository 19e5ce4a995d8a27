import QueryComposer.Proofs.Nodes.Declarations
import QueryComposer.Proofs.Rendering.Canonical
import QueryComposer.Request

/-!
# One variable under many spellings

A variable is declared, referred to and supplied with a value, and each time it may be named with or
without its dollar sign.  The three agree because a name with its dollar sign is the bare name
behind a dollar sign (`VariableName.declared_eq_append`): an operation declares the variable under
the text of a reference to it, and a request files its value under what follows the dollar sign of
that text.

Main statement: `VariableName.agree`.
-/

namespace QueryComposer

/-! ### Names -/

namespace VariableName

theorem declared_eq_append (name : String) : declared name = "$" ++ bare name := by
  unfold declared bare
  split
  · rename_i rest h
    have hrest : (String.ofList rest).toList = rest := String.toList_ofList
    apply String.toList_injective
    rw [h, String.toList_append, hrest]
    rfl
  · rfl

/-- A name that has its dollar sign is not changed. -/
theorem declared_declared (name : String) : declared (declared name) = declared name := by
  obtain ⟨rest, h⟩ := toList_declared name
  rw [declared, h]
  rfl

theorem dollar_append_inj_iff {s t : String} : "$" ++ s = "$" ++ t ↔ s = t := by
  rw [← String.toList_inj, String.toList_append, String.toList_append, List.append_right_inj,
    String.toList_inj]

theorem declared_inj_iff {n m : String} : declared n = declared m ↔ bare n = bare m := by
  rw [declared_eq_append, declared_eq_append, dollar_append_inj_iff]

/-- The text of a reference to the variable. -/
def referenceText (name : String) : String := (Value.ofVariable name).toGraphQL

theorem referenceText_eq (name : String) : referenceText name = declared name := by
  rw [referenceText, Value.ofVariable, Value.toGraphQL_reference, declared_eq_append]

end VariableName

/-! ### Declarations -/

namespace Operation

namespace Draft

variable {d : Draft} {o : Operation}

/-- One variable more is declared under its name with the dollar sign, unless something is declared
under that name. -/
theorem build_addVariable (h : d.build = .ok o) (name : String) (t : InputType) :
    (d.addVariable name (.placeholder t)).build =
      if VariableName.declared name ∈ o.declarations.keys then
        .error (.structuralViolation
          (.duplicateVariableDeclaration d.name (VariableName.declared name)))
      else .ok { o with
        declarations := o.declarations.insert (VariableName.declared name) (.placeholder t) } := by
  obtain ⟨hselections, m, hm, rfl⟩ := build_eq_ok_iff.mp h
  have hselections' : AllNamed (d.addVariable name (.placeholder t)).selections := hselections
  have hdeclare : declareFrom d.name ∅ (d.declarations ++ [(name, .placeholder t)]) =
      declareFrom d.name m [(name, .placeholder t)] := by
    rw [declareFrom_append, hm]
    rfl
  rw [build_of_allNamed hselections']
  show (declareFrom d.name ∅ (d.declarations ++ [(name, .placeholder t)]) >>= _) = _
  rw [hdeclare, declareFrom_placeholder]
  by_cases hmem : VariableName.declared name ∈ m.keys
  · rw [if_pos hmem, if_pos hmem]
    rfl
  · rw [if_neg hmem, if_neg hmem]
    rfl

/-- The names under which variables are declared are those of the draft, with dollar signs. -/
theorem mem_keys_iff (h : d.build = .ok o) {key : String} :
    key ∈ o.declarations.keys ↔
      ∃ declaration ∈ d.declarations, VariableName.declared declaration.1 = key := by
  obtain ⟨-, m, hm, rfl⟩ := build_eq_ok_iff.mp h
  have hkeys : m.keys = declaredNames d.declarations := by
    rw [OrderedMap.keys, entries_of_declareFrom d.name hm, keys_declaredEntries]
  show key ∈ m.keys ↔ _
  rw [hkeys, declaredNames, List.mem_map]

/-- Next to a variable `n`, a variable `m` that is none of the others is refused exactly if it is
`n` under another name. -/
theorem build_addVariable_of_mem (h : d.build = .ok o) {n m : String} {v : Value} (t : InputType)
    (hn : (n, v) ∈ d.declarations)
    (hothers : ∀ declaration ∈ d.declarations, declaration.1 ≠ n →
      VariableName.declared declaration.1 ≠ VariableName.declared m) :
    (VariableName.declared n = VariableName.declared m ∧
      (d.addVariable m (.placeholder t)).build = .error (.structuralViolation
        (.duplicateVariableDeclaration d.name (VariableName.declared m)))) ∨
    (VariableName.declared n ≠ VariableName.declared m ∧
      ∃ o', (d.addVariable m (.placeholder t)).build = .ok o') := by
  have hkeys : VariableName.declared m ∈ o.declarations.keys ↔
      VariableName.declared n = VariableName.declared m := by
    rw [mem_keys_iff h]
    constructor
    · rintro ⟨declaration, hmem, hname⟩
      by_cases hsame : declaration.1 = n
      · exact hsame ▸ hname
      · exact absurd hname (hothers declaration hmem hsame)
    · exact fun hname => ⟨_, hn, hname⟩
  have hbuild := build_addVariable h m t
  by_cases hsame : VariableName.declared n = VariableName.declared m
  · rw [if_pos (hkeys.mpr hsame)] at hbuild
    exact .inl ⟨hsame, hbuild⟩
  · rw [if_neg fun hmem => hsame (hkeys.mp hmem)] at hbuild
    exact .inr ⟨hsame, _, hbuild⟩

/-- What is declared has its dollar sign. -/
theorem declared_of_mem_keys (h : d.build = .ok o) {name : String}
    (hname : name ∈ o.declarations.keys) : VariableName.declared name = name := by
  obtain ⟨declaration, -, rfl⟩ := (mem_keys_iff h).mp hname
  exact VariableName.declared_declared declaration.1

/-- Declaring what is declared already, and nothing else, makes the same operation. -/
theorem build_redeclared (h : d.build = .ok o) :
    ({ d with declarations := o.declarations.entries } : Draft).build = .ok o := by
  have hkept : declaredEntries o.declarations.entries = o.declarations.entries := by
    refine (List.map_congr_left fun entry hentry => ?_).trans (List.map_id _)
    rw [declared_of_mem_keys h (List.mem_map_of_mem hentry)]
    rfl
  have htypes : ∀ declaration ∈ o.declarations.entries, ∃ t, declaration.2 = .placeholder t :=
    fun declaration hmem => ((isLawful_of_build h).1.declarations declaration hmem).2
  have hnodup : (declaredNames o.declarations.entries).Nodup := by
    rw [← keys_declaredEntries, hkept]
    exact o.declarations.nodup_keys
  obtain ⟨m, hm, hdeclare⟩ := declareFrom_of_forall_not_isRefused d.name
    (forall_not_isRefused_iff.mpr ⟨htypes, hnodup⟩)
  obtain ⟨hselections, m', -, rfl⟩ := build_eq_ok_iff.mp h
  refine build_eq_ok_iff.mpr ⟨hselections, m, hdeclare, ?_⟩
  obtain ⟨entries, _⟩ := m
  obtain rfl : entries = m'.entries := hm.trans hkept
  rfl

end Draft

end Operation

/-! ### Values -/

namespace Request

/-- The value that is sent under the key. -/
def value? (r : Request) (key : String) : Option Json :=
  r.variableValues.bind fun values => values.get? key

theorem value?_addVariable (r : Request) (name key : String) (value : Json) :
    (r.addVariable name value).value? key =
      if VariableName.bare name = key then some value else r.value? key := by
  show Entries.find? key (Entries.put (VariableName.bare name) value
    (r.variableValues.getD ∅).entries) = _
  rw [Entries.find?_put]
  cases h : r.variableValues with
  | none => rw [value?, h]; rfl
  | some values => rw [value?, h]; rfl

/-- A variable has the value that was added last for it. -/
theorem value?_addVariable_addVariable (r : Request) (n m : String) (v w : Json) :
    ((r.addVariable n v).addVariable m w).value? (VariableName.bare n) =
      some (if VariableName.bare n = VariableName.bare m then w else v) := by
  rw [value?_addVariable, value?_addVariable, if_pos rfl]
  by_cases h : VariableName.bare n = VariableName.bare m
  · rw [if_pos h.symm, if_pos h]
  · rw [if_neg fun h' => h h'.symm, if_neg h]

/-- A second value for a variable takes the place of the first. -/
theorem addVariable_addVariable (r : Request) {n m : String}
    (h : VariableName.bare n = VariableName.bare m) (v w : Json) :
    (r.addVariable n v).addVariable m w = r.addVariable n w := by
  simp only [addVariable, Option.getD_some, OrderedMap.insert, h, Entries.put_put]

end Request

/-! ### Agreement -/

namespace VariableName

open Operation (Draft)

/-- How a variable of the first name is declared and supplied, and when the second name is another
spelling of the same variable. -/
structure Agree (n m : String) : Prop where
  /-- A type is declared under the text of a reference to the variable, once. -/
  declares : ∀ {d : Draft} {o} (t), d.build = .ok o →
    (d.addVariable n (.placeholder t)).build =
      if referenceText n ∈ o.declarations.keys then
        .error (.structuralViolation (.duplicateVariableDeclaration d.name (referenceText n)))
      else .ok { o with
        declarations := o.declarations.insert (referenceText n) (.placeholder t) }
  /-- A value is filed under what follows the dollar sign of that text. -/
  supplies : ∃ key, "$" ++ key = referenceText n ∧ ∀ (r : Request) v,
    r.addVariable n v =
      { r with variableValues := some ((r.variableValues.getD ∅).insert key v) }
  /-- Where the first is declared, and no other name means the second, declaring the second too is
  refused as a repetition exactly when references to the two are the same text, -/
  repeated_iff : ∀ {d : Draft} {o v} (t), d.build = .ok o → (n, v) ∈ d.declarations →
    (∀ declaration ∈ d.declarations, declaration.1 ≠ n →
      referenceText declaration.1 ≠ referenceText m) →
    ((d.addVariable m (.placeholder t)).build =
        .error (.structuralViolation (.duplicateVariableDeclaration d.name (referenceText m))) ↔
      referenceText n = referenceText m)
  /-- and otherwise both are declared. -/
  both_iff : ∀ {d : Draft} {o v} (t), d.build = .ok o → (n, v) ∈ d.declarations →
    (∀ declaration ∈ d.declarations, declaration.1 ≠ n →
      referenceText declaration.1 ≠ referenceText m) →
    ((∃ o', (d.addVariable m (.placeholder t)).build = .ok o') ↔
      referenceText n ≠ referenceText m)
  /-- In the same cases a value for the second is found where the one for the first was, -/
  overwrites_iff : ∀ (r : Request) {key v w}, "$" ++ key = referenceText n → v ≠ w →
    (((r.addVariable n v).addVariable m w).value? key = some w ↔
      referenceText n = referenceText m)
  /-- as if the first value had never been given, -/
  overwrites : referenceText n = referenceText m → ∀ (r : Request) v w,
    (r.addVariable n v).addVariable m w = r.addVariable n w
  /-- and otherwise the first value stays. -/
  keeps : referenceText n ≠ referenceText m → ∀ (r : Request) {key} (v w),
    "$" ++ key = referenceText n → ((r.addVariable n v).addVariable m w).value? key = some v
  /-- A name that is read back from an operation is declared as it is, -/
  redeclares : ∀ {d d' : Draft} {o o'} (t), d.build = .ok o → n ∈ o.declarations.keys →
    d'.build = .ok o' → n ∉ o'.declarations.keys →
    (d'.addVariable n (.placeholder t)).build =
      .ok { o' with declarations := o'.declarations.insert n (.placeholder t) }
  /-- so that the variables of an operation, read back, make the same operation. -/
  rebuilds : ∀ {d : Draft} {o}, d.build = .ok o →
    ({ d with declarations := o.declarations.entries } : Draft).build = .ok o

theorem bare_eq_of_append_eq {n key : String} (h : "$" ++ key = referenceText n) :
    bare n = key := by
  rw [referenceText_eq, declared_eq_append, dollar_append_inj_iff] at h
  exact h.symm

/-- **Declaring, referring to and supplying a variable agree on which variable it is**, whether
the name is written with its dollar sign or without. -/
theorem agree (n m : String) : Agree n m := by
  constructor
  case declares =>
    intro d o t hd
    rw [referenceText_eq]
    exact Operation.Draft.build_addVariable hd n t
  case supplies =>
    exact ⟨bare n, by rw [referenceText_eq, declared_eq_append], fun _ _ => rfl⟩
  case repeated_iff =>
    intro d o v t hd hn hothers
    simp only [referenceText_eq] at hothers ⊢
    obtain ⟨hsame, hbuild⟩ | ⟨hdifferent, o', hbuild⟩ :=
      Operation.Draft.build_addVariable_of_mem hd t hn hothers
    · exact iff_of_true hbuild hsame
    · exact iff_of_false (fun herror => by cases herror.symm.trans hbuild) hdifferent
  case both_iff =>
    intro d o v t hd hn hothers
    simp only [referenceText_eq] at hothers ⊢
    obtain ⟨hsame, hbuild⟩ | ⟨hdifferent, hbuild⟩ :=
      Operation.Draft.build_addVariable_of_mem hd t hn hothers
    · exact iff_of_false (fun ⟨o', hok⟩ => by cases hok.symm.trans hbuild) fun h => h hsame
    · exact iff_of_true hbuild hdifferent
  case overwrites_iff =>
    intro r key v w hkey hvw
    obtain rfl := bare_eq_of_append_eq hkey
    rw [referenceText_eq, referenceText_eq, declared_inj_iff,
      Request.value?_addVariable_addVariable]
    by_cases hsame : bare n = bare m
    · rw [if_pos hsame]
      exact iff_of_true rfl hsame
    · rw [if_neg hsame]
      exact iff_of_false (fun h => hvw (Option.some.inj h)) hsame
  case overwrites =>
    intro hsame r v w
    rw [referenceText_eq, referenceText_eq, declared_inj_iff] at hsame
    exact Request.addVariable_addVariable r hsame v w
  case keeps =>
    intro hdifferent r key v w hkey
    obtain rfl := bare_eq_of_append_eq hkey
    rw [referenceText_eq, referenceText_eq, Ne, declared_inj_iff] at hdifferent
    rw [Request.value?_addVariable_addVariable, if_neg hdifferent]
  case redeclares =>
    intro d d' o o' t hd hn hd' hnew
    have hn : declared n = n := Operation.Draft.declared_of_mem_keys hd hn
    rw [Operation.Draft.build_addVariable hd', hn, if_neg hnew]
  case rebuilds => exact Operation.Draft.build_redeclared

/-- The empty name and a lone dollar sign are one variable; a second dollar sign makes another. -/
theorem agree_dollars :
    let t : InputType := ⟨.int, true⟩
    let d : Draft := ⟨.query, "A", [Field.ofName "name"], [("id", .placeholder t)]⟩
    Agree "" "$" ∧ referenceText "" = "$" ∧ referenceText "$" = "$" ∧
      ((d.addVariable "" (.placeholder t)).addVariable "$" (.placeholder t)).build =
        .error (.structuralViolation (.duplicateVariableDeclaration "A" "$")) ∧
      Agree "$$id" "$id" ∧ referenceText "$$id" = "$$id" ∧ referenceText "$id" = "$id" ∧
      ((d.addVariable "$$id" (.placeholder t)).build.toOption.map fun o => o.declarations.keys) =
        some ["$id", "$$id"] ∧
      (((Request.ofQuery "").addVariable "$$id" .null).addVariable "id" (.bool true)).value? "$id" =
        some .null :=
  ⟨agree "" "$", by decide, by decide, rfl, agree "$$id" "$id", by decide, by decide, by decide,
    rfl⟩

end VariableName

end QueryComposer
