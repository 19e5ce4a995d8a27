import QueryComposer.Proofs.Nodes.Lawful
import QueryComposer.Proofs.Places

/-!
# Which argument is refused

The check for literal forms goes through a value in the order of the text and stops at the first
number that is not finite or the first type (`Value.settles_checkLiteral`).  A map of arguments is
checked as an object would be that has them as members (`Arguments.settles_check`).

Main statement: the draft of a field and the directive with arguments accept the same arguments,
keep them as they are, and refuse all others for the same place
(`Field.Draft.validates_arguments`).
-/

namespace QueryComposer

/-! ### Values -/

namespace Value

/-- What is found if the value itself, whatever stands in it, has no literal form. -/
def finding? : Value → Option Finding
  | float x => if x.isFinite then none else some (.nonFiniteFloat x)
  | placeholder t => some (.placeholder t)
  | _ => none

/-- What has a place among members has it behind the key of one of them. -/
theorem exists_key_of_mem_memberPlaces {members : List (String × Value)} {p : List Step}
    {x : Value} (h : (p, x) ∈ memberPlaces members) : ∃ key q, p = .key key :: q := by
  obtain ⟨m, -, q, rfl, -⟩ := mem_memberPlaces.mp h
  exact ⟨m.1, q, rfl⟩

theorem settles_checkElements {elements : List Value} (path : String)
    (h : ∀ v ∈ elements, ∀ path,
      Settles (fun _ => True) (v.checkLiteral path) (complaints finding? path v.places)) :
    ∀ index, Settles (fun _ => True) (checkElements path index elements)
      (complaints finding? path (elementPlaces index elements)) := by
  induction elements with
  | nil => exact fun _ => .ok trivial
  | cons v rest ih =>
    obtain ⟨hv, hrest⟩ := List.forall_mem_cons.mp h
    intro index
    rw [checkElements, elementPlaces, complaints_append, complaints_placeAfter]
    exact (hv _).bind fun _ _ => ih hrest (index + 1)

theorem settles_checkMembers {members : List (String × Value)} (path : String)
    (h : ∀ m ∈ members, ∀ path,
      Settles (fun _ => True) (m.2.checkLiteral path) (complaints finding? path m.2.places)) :
    Settles (fun _ => True) (checkMembers path members)
      (complaints finding? path (memberPlaces members)) := by
  induction members with
  | nil => exact .ok trivial
  | cons m rest ih =>
    obtain ⟨hm, hrest⟩ := List.forall_mem_cons.mp h
    rw [checkMembers, memberPlaces, complaints_append, complaints_placeAfter]
    exact (hm _).bind fun _ _ => ih hrest

/-- **A value is refused for the first thing in it without literal form.** -/
theorem settles_checkLiteral (v : Value) : ∀ path,
    Settles (fun _ => True) (v.checkLiteral path) (complaints finding? path v.places) := by
  induction v using nestedInduction with
  | boolean | int | string | reference => exact fun _ => .ok trivial
  | placeholder t => exact fun _ => rfl
  | float x =>
    intro path
    have hplaces : (float x).places = [([], float x)] := rfl
    rw [checkLiteral, hplaces, complaints]
    by_cases hx : x.isFinite = true
    · simp only [finding?, hx, if_true, List.filterMap_cons, Option.map_none, List.filterMap_nil]
      exact .ok trivial
    · simp only [finding?, hx, List.filterMap_cons, List.filterMap_nil]
      rfl
  | list elements ih =>
    intro path
    rw [checkLiteral, places, complaints_cons]
    exact settles_checkElements path ih 0
  | object members ih =>
    intro path
    rw [checkLiteral, places, complaints_cons]
    exact settles_checkMembers path ih

end Value

/-! ### Arguments -/

namespace Arguments

/-- Everything that stands in the arguments, with the position that begins with the name of the
argument, in the order of the text. -/
def places (arguments : Arguments) : List (List Step × Value) :=
  Value.memberPlaces arguments.entries

/-- Arguments are checked as the members of an object, the name of each being the path to it. -/
theorem checkEntries_eq (entries : List (String × Value)) :
    check.checkEntries entries = Value.checkMembers "" entries := by
  induction entries with
  | nil => rfl
  | cons entry rest ih =>
    rw [check.checkEntries, Value.checkMembers, ih]
    rfl

theorem settles_check (arguments : Arguments) :
    Settles (fun _ => True) arguments.check (complaints Value.finding? "" arguments.places) := by
  rw [check, checkEntries_eq]
  exact Value.settles_checkMembers "" fun m _ => m.2.settles_checkLiteral

/-- The check names the first place without literal form, and the path to it from the argument. -/
theorem check_eq_error_iff {arguments : Arguments} {e : BuildError} :
    arguments.check = .error e ↔ ∃ name p found,
      FirstFound Value.finding? arguments.places (.key name :: p) found ∧
        e = .unsupportedValue (pathAt name p) found := by
  rw [arguments.settles_check.eq_error_iff, head?_complaints]
  constructor
  · rintro ⟨p, found, hfirst, rfl⟩
    obtain ⟨earlier, x, later, hplaces, -⟩ := id hfirst
    have hmem : (p, x) ∈ arguments.places := hplaces ▸ List.mem_append_right _ List.mem_cons_self
    obtain ⟨name, q, rfl⟩ := Value.exists_key_of_mem_memberPlaces hmem
    exact ⟨name, q, found, hfirst, rfl⟩
  · rintro ⟨name, p, found, hfirst, rfl⟩
    exact ⟨.key name :: p, found, hfirst, rfl⟩

/-- How a call that makes `node` of the arguments comes out. -/
structure Validates {α : Type} (arguments : Arguments) (node : α) (result : Except BuildError α) :
    Prop where
  /-- The node is made when everything in the arguments has a literal form. -/
  ok_iff {a : α} : result = .ok a ↔ a = node ∧ arguments.HaveLiterals
  /-- Otherwise the first place without literal form is reported, with its path and kind. -/
  error_iff {e : BuildError} : result = .error e ↔ ∃ name p found,
    FirstFound Value.finding? arguments.places (.key name :: p) found ∧
      e = .unsupportedValue (pathAt name p) found

theorem validates_of_check {α : Type} (arguments : Arguments) (node : α) :
    Validates arguments node (arguments.check >>= fun _ => .ok node) := by
  constructor
  · intro a
    rw [check_bind_eq_ok_iff, check_eq_ok_iff, Except.ok.injEq, and_comm, eq_comm]
  · intro e
    rw [← check_eq_error_iff]
    exact bind_ok_eq_error_iff

end Arguments

/-! ### Fields and directives -/

/-- **Fields and directives refuse the same arguments for the same reason.**  The draft of a named
field whose selections are named, and a directive, keep their arguments as they are when everything
in these has a literal form at every depth; otherwise both report the first place that has none. -/
theorem Field.Draft.validates_arguments {d : Draft} (hname : d.name ≠ "")
    (hselections : AllNamed d.selections) (directiveName : String) :
    d.arguments.Validates d.toField d.build ∧
      d.arguments.Validates (Directive.mk d.arguments directiveName)
        (Directive.withArguments directiveName d.arguments) := by
  have hroot : d.checkRoot = .ok () := if_neg hname
  have hbuild : d.build = d.arguments.check >>= fun _ => .ok d.toField := by
    rw [build, hroot, checkSelections_eq_ok_iff.mpr hselections]
    rfl
  constructor
  · rw [hbuild]
    exact d.arguments.validates_of_check d.toField
  · exact d.arguments.validates_of_check (Directive.mk d.arguments directiveName)

/-- Of two arguments that have no literal form the first is reported, where `nan` stands under an
empty key in a list of an object. -/
theorem Field.Draft.validates_arguments_nan :
    let filter : Value := .object [("in", .list [.int 1, .object [("", .float .nan)]])]
    let arguments : Arguments :=
      .ofList [("id", .int 12), ("filter", filter), ("type", .placeholder ⟨.string, true⟩)]
    let d : Draft := ⟨none, arguments, [], "user", [Field.ofName "name"]⟩
    d.name ≠ "" ∧ AllNamed d.selections ∧
      d.arguments.Validates d.toField d.build ∧
      d.arguments.Validates (Directive.mk d.arguments "include")
        (Directive.withArguments "include" d.arguments) ∧
      d.build = .error (.unsupportedValue "filter.in[1]." (.nonFiniteFloat .nan)) := by
  intro filter arguments d
  have hname : d.name ≠ "" := by decide
  have hselections : AllNamed d.selections := by simp [AllNamed, d, Field.ofName]
  obtain ⟨hfield, hdirective⟩ := validates_arguments hname hselections "include"
  refine ⟨hname, hselections, hfield, hdirective, ?_⟩
  have hfirst : FirstFound Value.finding? d.arguments.places
      (.key "filter" :: [.key "in", .index 1, .key ""]) (.nonFiniteFloat .nan) :=
    ⟨d.arguments.places.take 5, _, d.arguments.places.drop 6, rfl, by decide, rfl⟩
  exact hfield.error_iff.mpr ⟨_, _, _, hfirst, rfl⟩

end QueryComposer
