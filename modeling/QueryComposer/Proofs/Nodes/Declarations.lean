import Mathlib.Data.List.Nodup
import Mathlib.Data.Nat.Find
import Mathlib.Order.Bounds.Basic
import QueryComposer.Proofs.Nodes.Changes

/-!
# Declarations of variables

The declarations of an operation are taken one after the other.  What has been declared at any time
are the declarations before, under their names with dollar signs (`Operation.declareFrom_of_nodup`).
So the first declaration that holds no type or repeats a name before it is the one that is refused,
and without such a declaration all are kept in order.

Main statement: `Operation.Draft.declaresVariables`.
-/

namespace QueryComposer

theorem Value.exists_of_kind_placeholder {v : Value} (h : v.kind = .placeholder) :
    ∃ t, v = .placeholder t := by
  cases v with
  | placeholder t => exact ⟨t, rfl⟩
  | _ => cases h

theorem Value.kind_eq_placeholder_iff {v : Value} :
    v.kind = .placeholder ↔ ∃ t, v = .placeholder t :=
  ⟨exists_of_kind_placeholder, by rintro ⟨t, rfl⟩; rfl⟩

namespace Operation

/-! ### One declaration -/

/-- The names of the declarations, with dollar signs. -/
def declaredNames (declarations : List (String × Value)) : List String :=
  declarations.map fun declaration => VariableName.declared declaration.1

theorem keys_declaredEntries (declarations : List (String × Value)) :
    Entries.keys (declaredEntries declarations) = declaredNames declarations := List.map_map

/-- Why a declaration is refused: because of its value if that is no type, whatever the name is, and
otherwise because of the name. -/
def refusal (operationName name : String) (value : Value) : BuildError :=
  if value.kind = .placeholder then
    .structuralViolation
      (.duplicateVariableDeclaration operationName (VariableName.declared name))
  else .unsupportedValue (VariableName.declared name) (.notDeclaration value.kind)

variable (operationName : String)

/-- A declaration with anything but a type is refused for the kind of what it has. -/
theorem declareFrom_of_kind_ne (declared : Arguments) (name : String)
    {value : Value} (rest : List (String × Value)) (h : value.kind ≠ .placeholder) :
    declareFrom operationName declared ((name, value) :: rest) =
      .error (.unsupportedValue (VariableName.declared name) (.notDeclaration value.kind)) := by
  cases value with
  | placeholder => exact absurd rfl h
  | _ => rfl

theorem declareFrom_refused {declared : Arguments} {name : String} {value : Value}
    (rest : List (String × Value))
    (h : value.kind ≠ .placeholder ∨ VariableName.declared name ∈ declared.keys) :
    declareFrom operationName declared ((name, value) :: rest) =
      .error (refusal operationName name value) := by
  by_cases hkind : value.kind = .placeholder
  · obtain ⟨t, rfl⟩ := Value.exists_of_kind_placeholder hkind
    have hmem := h.resolve_left fun hne => hne hkind
    rw [declareFrom_placeholder, if_pos hmem, refusal, if_pos hkind]
  · rw [declareFrom_of_kind_ne _ _ _ _ hkind, refusal, if_neg hkind]

/-! ### Declarations in a row -/

/-- Declarations in a row are made in two parts. -/
theorem declareFrom_append (first second : List (String × Value)) :
    ∀ declared : Arguments, declareFrom operationName declared (first ++ second) =
      declareFrom operationName declared first >>= fun m => declareFrom operationName m second := by
  induction first with
  | nil => exact fun _ => rfl
  | cons declaration first ih =>
    obtain ⟨name, value⟩ := declaration
    intro declared
    rw [List.cons_append]
    by_cases hrefused :
        value.kind ≠ .placeholder ∨ VariableName.declared name ∈ declared.keys
    · rw [declareFrom_refused _ _ hrefused, declareFrom_refused _ _ hrefused]
      rfl
    · obtain ⟨hkind, hnew⟩ := not_or.mp hrefused
      obtain ⟨t, rfl⟩ := Value.exists_of_kind_placeholder (not_not.mp hkind)
      rw [declareFrom_placeholder, declareFrom_placeholder, if_neg hnew, if_neg hnew, ih]

/-- Types under names that are all different are declared in order. -/
theorem declareFrom_of_nodup {declarations : List (String × Value)}
    (htypes : ∀ declaration ∈ declarations, ∃ t, declaration.2 = .placeholder t) :
    ∀ {declared : Arguments}, (declared.keys ++ declaredNames declarations).Nodup →
      ∃ m : Arguments, m.entries = declared.entries ++ declaredEntries declarations ∧
        declareFrom operationName declared declarations = .ok m := by
  induction declarations with
  | nil => exact fun {declared} _ => ⟨declared, (List.append_nil _).symm, rfl⟩
  | cons declaration rest ih =>
    obtain ⟨name, value⟩ := declaration
    obtain ⟨⟨t, rfl⟩, hrest⟩ := List.forall_mem_cons.mp htypes
    intro declared hnodup
    have hnew : VariableName.declared name ∉ declared.keys := fun hmem =>
      (List.nodup_append.mp hnodup).2.2 _ hmem _ (List.mem_cons_self ..) rfl
    have hnodup' : ((declared.insert (VariableName.declared name) (.placeholder t)).keys ++
        declaredNames rest).Nodup := by
      rw [OrderedMap.keys_insert_of_not_mem _ hnew, List.append_assoc]
      exact hnodup
    obtain ⟨m, hm, hdeclare⟩ := ih hrest hnodup'
    refine ⟨m, ?_, ?_⟩
    · rw [hm, OrderedMap.entries_insert_of_not_mem _ hnew, List.append_assoc]
      rfl
    · rw [declareFrom_placeholder, if_neg hnew, hdeclare]

/-! ### The first declaration that is refused -/

/-- The declaration at the index holds no type, or its name stands at a smaller index. -/
def IsRefused (declarations : List (String × Value)) (i : ℕ) : Prop :=
  ∃ name value, declarations[i]? = some (name, value) ∧
    (value.kind ≠ .placeholder ∨
      ∃ j < i, (declaredNames declarations)[j]? = some (VariableName.declared name))

section FirstRefused

variable {declarations : List (String × Value)}

theorem isRefused_of_take {k i : ℕ} (h : IsRefused (declarations.take k) i) :
    i < k ∧ IsRefused declarations i := by
  obtain ⟨name, value, hi, hrefused⟩ := h
  have hik : i < k := by
    by_contra hik
    rw [List.getElem?_take, if_neg hik] at hi
    cases hi
  rw [List.getElem?_take_of_lt hik] at hi
  refine ⟨hik, name, value, hi, hrefused.imp_right ?_⟩
  rintro ⟨j, hji, hj⟩
  rw [declaredNames, List.map_take, List.getElem?_take_of_lt (Nat.lt_trans hji hik)] at hj
  exact ⟨j, hji, hj⟩

/-- No declaration is refused when all hold types and no name is there twice. -/
theorem forall_not_isRefused_iff :
    (∀ i, ¬IsRefused declarations i) ↔
      (∀ declaration ∈ declarations, ∃ t, declaration.2 = .placeholder t) ∧
        (declaredNames declarations).Nodup := by
  constructor
  · intro h
    constructor
    · intro declaration hdeclaration
      obtain ⟨i, hi⟩ := List.getElem?_of_mem hdeclaration
      by_contra htype
      exact h i ⟨declaration.1, declaration.2, hi,
        .inl fun hkind => htype (Value.exists_of_kind_placeholder hkind)⟩
    · rw [List.nodup_iff_getElem?_ne_getElem?]
      intro j i hji hi hsame
      rw [declaredNames, List.length_map] at hi
      have hname : (declaredNames declarations)[i]? =
          some (VariableName.declared declarations[i].1) := by
        rw [declaredNames, List.getElem?_map, List.getElem?_eq_getElem hi, Option.map_some]
      exact h i ⟨_, _, List.getElem?_eq_getElem hi, .inr ⟨j, hji, hsame.trans hname⟩⟩
  · rintro ⟨htypes, hnodup⟩ i ⟨name, value, hi, hvalue | ⟨j, hji, hj⟩⟩
    · obtain ⟨t, ht⟩ := htypes _ (List.mem_of_getElem? hi)
      exact hvalue (Value.kind_eq_placeholder_iff.mpr ⟨t, ht⟩)
    · have hname : (declaredNames declarations)[i]? = some (VariableName.declared name) := by
        rw [declaredNames, List.getElem?_map, hi, Option.map_some]
      obtain ⟨hlength, -⟩ := List.getElem?_eq_some_iff.mp hname
      exact List.nodup_iff_getElem?_ne_getElem?.mp hnodup j i hji hlength (hj.trans hname.symm)

/-- Where none is refused all are declared. -/
theorem declareFrom_of_forall_not_isRefused (h : ∀ i, ¬IsRefused declarations i) :
    ∃ m : Arguments, m.entries = declaredEntries declarations ∧
      declareFrom operationName ∅ declarations = .ok m := by
  obtain ⟨htypes, hnodup⟩ := forall_not_isRefused_iff.mp h
  have hnodup' : ((∅ : Arguments).keys ++ declaredNames declarations).Nodup := hnodup
  exact declareFrom_of_nodup operationName htypes hnodup'

/-- The first that is refused ends the work. -/
theorem declareFrom_of_isLeast {k : ℕ} (h : IsLeast {i | IsRefused declarations i} k) :
    ∃ name value, declarations[k]? = some (name, value) ∧
      declareFrom operationName ∅ declarations = .error (refusal operationName name value) := by
  obtain ⟨⟨name, value, hk, hrefused⟩, hleast⟩ := h
  refine ⟨name, value, hk, ?_⟩
  -- All declarations before it are accepted, so they are what it is compared with.
  have hbefore : ∀ i, ¬IsRefused (declarations.take k) i := by
    intro i hi
    obtain ⟨hik, hi⟩ := isRefused_of_take hi
    exact absurd (hleast hi) (Nat.not_le.mpr hik)
  obtain ⟨htypes, hnodup⟩ := forall_not_isRefused_iff.mp hbefore
  have hnodup' : ((∅ : Arguments).keys ++ declaredNames (declarations.take k)).Nodup := hnodup
  obtain ⟨m, hm, hrun⟩ := declareFrom_of_nodup operationName htypes hnodup'
  have hsplit : declarations =
      declarations.take k ++ (name, value) :: declarations.drop (k + 1) := by
    obtain ⟨hlength, hget⟩ := List.getElem?_eq_some_iff.mp hk
    rw [← hget, ← List.drop_eq_getElem_cons hlength, List.take_append_drop]
  rw [hsplit, declareFrom_append, hrun]
  refine declareFrom_refused _ _ (hrefused.imp_right ?_)
  rintro ⟨j, hjk, hj⟩
  have hkeys : m.keys = (declaredNames declarations).take k := by
    rw [OrderedMap.keys, hm]
    show Entries.keys (declaredEntries (declarations.take k)) = _
    rw [keys_declaredEntries, declaredNames, List.map_take]
    rfl
  rw [hkeys]
  refine List.mem_of_getElem? (i := j) ?_
  rw [List.getElem?_take_of_lt hjk, hj]

theorem exists_isLeast_isRefused (h : ¬∀ i, ¬IsRefused declarations i) :
    ∃ k, IsLeast {i | IsRefused declarations i} k := by
  classical
  have hsome : ∃ i, IsRefused declarations i := not_forall_not.mp h
  exact ⟨Nat.find hsome, Nat.find_spec hsome, fun i hi => Nat.find_min' hsome hi⟩

end FirstRefused

/-! ### Building -/

/-- How an operation of this name comes out that is to declare the variables. -/
structure DeclaresVariables (operationName : String) (declarations : List (String × Value))
    (result : Except BuildError Operation) : Prop where
  /-- It is built when all declarations hold types and no name is declared twice. -/
  built_iff : (∃ o, result = .ok o) ↔
    (∀ declaration ∈ declarations, ∃ t, declaration.2 = .placeholder t) ∧
      (declaredNames declarations).Nodup
  /-- Then it has the declarations as they are, in order, their names with dollar signs. -/
  entries_eq : ∀ {o}, result = .ok o → o.declarations.entries = declaredEntries declarations
  /-- Otherwise the error is about the first declaration that is refused. -/
  error_iff : ∀ {e}, result = .error e ↔ ∃ i name value,
    IsLeast {i | IsRefused declarations i} i ∧ declarations[i]? = some (name, value) ∧
      e = refusal operationName name value

/-- Where all selections are named only the declarations can fail. -/
theorem Draft.build_of_allNamed {d : Draft} (h : AllNamed d.selections) :
    d.build = declareFrom d.name ∅ d.declarations >>= fun m =>
      .ok ⟨d.kind, d.name, d.selections, m⟩ := by
  rw [build, checkSelections_eq_ok_iff.mpr h]
  rfl

theorem Draft.declaresVariables_of_allNamed {d : Draft} (h : AllNamed d.selections) :
    DeclaresVariables d.name d.declarations d.build := by
  rw [build_of_allNamed h]
  constructor
  case entries_eq =>
    intro o ho
    obtain ⟨m, hm, ho⟩ := bind_eq_ok_iff.mp ho
    obtain rfl := Except.ok.inj ho
    exact entries_of_declareFrom d.name hm
  case built_iff =>
    rw [← forall_not_isRefused_iff]
    by_cases hall : ∀ i, ¬IsRefused d.declarations i
    · obtain ⟨m, -, hdeclare⟩ := declareFrom_of_forall_not_isRefused d.name hall
      rw [hdeclare]
      exact iff_of_true ⟨_, rfl⟩ hall
    · obtain ⟨k, hleast⟩ := exists_isLeast_isRefused hall
      obtain ⟨name, value, -, hdeclare⟩ := declareFrom_of_isLeast d.name hleast
      rw [hdeclare]
      exact iff_of_false (fun ⟨_, h⟩ => by cases h) hall
  case error_iff =>
    intro e
    rw [bind_ok_eq_error_iff]
    constructor
    · intro he
      have hsome : ¬∀ i, ¬IsRefused d.declarations i := by
        intro hall
        obtain ⟨m, -, hdeclare⟩ := declareFrom_of_forall_not_isRefused d.name hall
        cases he.symm.trans hdeclare
      obtain ⟨k, hleast⟩ := exists_isLeast_isRefused hsome
      obtain ⟨name, value, hget, hdeclare⟩ := declareFrom_of_isLeast d.name hleast
      exact ⟨k, name, value, hleast, hget, Except.error.inj (he.symm.trans hdeclare)⟩
    · rintro ⟨k, name, value, hleast, hget, rfl⟩
      obtain ⟨name', value', hget', hdeclare⟩ := declareFrom_of_isLeast d.name hleast
      obtain ⟨rfl, rfl⟩ := Prod.mk.inj (Option.some.inj (hget.symm.trans hget'))
      exact hdeclare

/-- **What is declared is kept in order, and the first declaration that cannot stand is reported.**
An operation whose selections are named, made by any steps, is built exactly when all its
declarations hold types and their names, with dollar signs, are different.  Otherwise the first
declaration is reported that holds no type or repeats the name of one before it, for its value if
that is no type. -/
theorem Draft.declaresVariables (kind : OperationKind) (changes : List Draft.Change)
    (h : AllNamed (Draft.addedSelections changes)) :
    DeclaresVariables (Draft.lastName changes) (Draft.addedDeclarations changes)
      (changes.foldl Draft.change (draft kind)).build := by
  rw [Draft.foldl_change]
  exact Draft.declaresVariables_of_allNamed (d := ⟨kind, _, _, _⟩) h

/-- The dollar sign of a name may be left out, but one that is written twice makes another name.  A
string is reported for its kind also where its name is declared already. -/
theorem Draft.declaresVariables_dollar :
    let int : Value := .placeholder ⟨.int, false⟩
    let changes : List Draft.Change := [.addVariable "id" int, .setName "A",
      .addSelections [Field.ofName "name"], .addVariable "$$id" int]
    let withString := changes ++ [.addVariable "$id" (.string "1"), .addVariable "id" int]
    let again := changes ++ [.addVariable "$id" int]
    AllNamed (Draft.addedSelections changes) ∧
      DeclaresVariables "A" [("id", int), ("$$id", int)]
        (changes.foldl Draft.change (draft .query)).build ∧
      declaredEntries [("id", int), ("$$id", int)] = [("$id", int), ("$$id", int)] ∧
      (∃ o, (changes.foldl Draft.change (draft .query)).build = .ok o) ∧
      (withString.foldl Draft.change (draft .query)).build =
        .error (.unsupportedValue "$id" (.notDeclaration .string)) ∧
      (again.foldl Draft.change (draft .query)).build =
        .error (.structuralViolation (.duplicateVariableDeclaration "A" "$id")) := by
  intro int changes withString again
  have hnamed : AllNamed (Draft.addedSelections changes) :=
    List.forall_mem_singleton.mpr (by decide)
  exact ⟨hnamed, Draft.declaresVariables .query changes hnamed,
    by simp [declaredEntries, VariableName.declared], ⟨_, rfl⟩, rfl, rfl⟩

end Operation

end QueryComposer
