import Mathlib.Data.List.Basic
import QueryComposer.Proofs.Nodes.Lawful
import QueryComposer.Proofs.Nodes.Session
import QueryComposer.Proofs.OrderedMap
import QueryComposer.Proofs.Rendering.Compositional

/-!
# Drafts after many steps

A draft is what steps that are made one after the other leave.  Each step adds to one part of the
draft or sets one part, and a batch stands for the single additions of what is in it.  So a draft
holds what was added of each kind, in order, and what was set last (`Field.Draft.foldl_change` and
its fellows), and it makes no difference how steps of different kinds are mixed
(`sameBuild_of_sameAdditions`).
-/

namespace QueryComposer

/-! ### Rows of steps

A state of type `δ` changes by steps of type `γ`, some of which are batches.  `singles` takes a
batch apart, and `item?` is what a single step contributes to the part in question. -/

section Rows

variable {δ γ ι σ : Type}

/-- What the steps contribute, one by one. -/
def itemsOf (singles : γ → List γ) (item? : γ → Option ι) (changes : List γ) : List ι :=
  (changes.flatMap singles).filterMap item?

variable {step : δ → γ → δ} {singles : γ → List γ} {item? : γ → Option ι}

/-- If each step adds its items to a part, a row of steps adds the items of all of them in order. -/
theorem part_foldl (part : δ → σ) (add : σ → List ι → σ) (hnil : ∀ s, add s [] = s)
    (happend : ∀ s xs ys, add s (xs ++ ys) = add (add s xs) ys)
    (hstep : ∀ d c, part (step d c) = add (part d) ((singles c).filterMap item?)) (d : δ)
    (changes : List γ) :
    part (changes.foldl step d) = add (part d) (itemsOf singles item? changes) := by
  induction changes generalizing d with
  | nil => exact (hnil _).symm
  | cons c rest ih =>
    have hitems : itemsOf singles item? (c :: rest) =
        (singles c).filterMap item? ++ itemsOf singles item? rest := List.filterMap_append
    rw [List.foldl_cons, ih, hstep, hitems, happend]

/-- A part in which items stand behind each other. -/
theorem part_foldl_append (part : δ → List ι)
    (hstep : ∀ d c, part (step d c) = part d ++ (singles c).filterMap item?) (d : δ)
    (changes : List γ) :
    part (changes.foldl step d) = part d ++ itemsOf singles item? changes :=
  part_foldl part (· ++ ·) List.append_nil (fun _ _ _ => (List.append_assoc ..).symm) hstep d
    changes

/-- A part that is there when an item has been given, and is the last of them. -/
theorem part_foldl_last (part : δ → Option ι)
    (hstep : ∀ d c, part (step d c) = ((singles c).filterMap item?).getLast?.or (part d)) (d : δ)
    (changes : List γ) :
    part (changes.foldl step d) = (itemsOf singles item? changes).getLast?.or (part d) := by
  refine part_foldl part (fun s xs => xs.getLast?.or s) (fun _ => Option.none_or) ?_ hstep d
    changes
  intro s xs ys
  rw [List.getLast?_append, Option.or_assoc]

/-- Of a batch, the part that it is for gets everything. -/
theorem filterMap_batch {single : ι → γ} (h : ∀ x, item? (single x) = some x) (xs : List ι) :
    (xs.map single).filterMap item? = xs := by
  rw [List.filterMap_map]
  show xs.filterMap (fun x => item? (single x)) = xs
  rw [funext h, List.filterMap_some]

/-- Of a batch, the other parts get nothing. -/
theorem filterMap_batch_of_none {single : σ → γ} (h : ∀ x, item? (single x) = none)
    (xs : List σ) : (xs.map single).filterMap item? = [] := by
  rw [List.filterMap_map]
  exact List.filterMap_eq_nil_iff.mpr fun x _ => h x

/-- A part that no step changes. -/
theorem part_foldl_same (part : δ → σ) (hstep : ∀ d c, part (step d c) = part d) (d : δ)
    (changes : List γ) : part (changes.foldl step d) = part d := by
  induction changes generalizing d with
  | nil => rfl
  | cons c rest ih => rw [List.foldl_cons, ih, hstep]

end Rows

/-! ### Fields -/

namespace Field.Draft

namespace Change

/-- The single steps that a step stands for. -/
def singles : Change → List Change
  | addArguments arguments => arguments.entries.map fun entry => addArgument entry.1 entry.2
  | addSelections fields => fields.map addSelection
  | change => [change]

def selection? : Change → Option Field
  | addSelection field => some field
  | _ => none

def argument? : Change → Option (String × Value)
  | addArgument name value => some (name, value)
  | _ => none

def inlineFragment? : Change → Option InlineFragment
  | addInlineFragment fragment => some fragment
  | _ => none

def alias? : Change → Option String
  | setAlias aliasName => some aliasName
  | _ => none

end Change

/-- The fields that the steps add, one by one. -/
def addedSelections : List Change → List Field := itemsOf Change.singles Change.selection?

/-- The arguments that the steps give one by one, each as often as it is given. -/
def addedArguments : List Change → List (String × Value) := itemsOf Change.singles Change.argument?

def addedInlineFragments : List Change → List InlineFragment :=
  itemsOf Change.singles Change.inlineFragment?

/-- The alias that the steps set last. -/
def lastAlias (changes : List Change) : Option String :=
  (itemsOf Change.singles Change.alias? changes).getLast?

/-- The steps make the same single additions of each kind and set the same alias last. -/
structure SameAdditions (changes others : List Change) : Prop where
  selections : addedSelections changes = addedSelections others
  arguments : addedArguments changes = addedArguments others
  inlineFragments : addedInlineFragments changes = addedInlineFragments others
  aliasName : lastAlias changes = lastAlias others

section Parts

variable (d : Draft) (changes : List Change)

theorem aliasName_foldl_change :
    (changes.foldl change d).aliasName = (lastAlias changes).or d.aliasName := by
  refine part_foldl_last aliasName (fun d c => ?_) d changes
  cases c with
  | addArguments | addSelections =>
    rw [Change.singles, filterMap_batch_of_none fun _ => rfl]
    rfl
  | _ => rfl

theorem arguments_foldl_change :
    (changes.foldl change d).arguments = d.arguments.insertMany (addedArguments changes) := by
  refine part_foldl arguments OrderedMap.insertMany (fun _ => rfl) ?_ (fun d c => ?_) d changes
  · exact fun m xs ys => by simp only [OrderedMap.insertMany, Entries.putAll, List.foldl_append]
  · cases c with
    | addArguments =>
      rw [Change.singles, filterMap_batch]
      · rfl
      · exact fun _ => rfl
    | addSelections =>
      rw [Change.singles, filterMap_batch_of_none fun _ => rfl]
      rfl
    | _ => rfl

theorem inlineFragments_foldl_change :
    (changes.foldl change d).inlineFragments =
      d.inlineFragments ++ addedInlineFragments changes := by
  refine part_foldl_append inlineFragments (fun d c => ?_) d changes
  cases c with
  | addInlineFragment => rfl
  | addArguments | addSelections =>
    rw [Change.singles, filterMap_batch_of_none fun _ => rfl, List.append_nil]
    rfl
  | _ => exact (List.append_nil d.inlineFragments).symm

theorem selections_foldl_change :
    (changes.foldl change d).selections = d.selections ++ addedSelections changes := by
  refine part_foldl_append selections (fun d c => ?_) d changes
  cases c with
  | addSelection => rfl
  | addSelections =>
    rw [Change.singles, filterMap_batch]
    · rfl
    · exact fun _ => rfl
  | addArguments =>
    rw [Change.singles, filterMap_batch_of_none fun _ => rfl, List.append_nil]
    rfl
  | _ => exact (List.append_nil d.selections).symm

theorem name_foldl_change : (changes.foldl change d).name = d.name :=
  part_foldl_same Draft.name (fun d c => by cases c <;> rfl) d changes

end Parts

/-- The draft after the steps: what was added of each kind, and the alias that was set last. -/
theorem foldl_change (name : String) (changes : List Change) :
    changes.foldl change (draft name) =
      ⟨lastAlias changes, .ofList (addedArguments changes), addedInlineFragments changes, name,
        addedSelections changes⟩ := by
  have haliasName := aliasName_foldl_change (draft name) changes
  have harguments := arguments_foldl_change (draft name) changes
  have hfragments := inlineFragments_foldl_change (draft name) changes
  have hselections := selections_foldl_change (draft name) changes
  have hname := name_foldl_change (draft name) changes
  generalize changes.foldl change (draft name) = d at *
  obtain ⟨aliasName, arguments, inlineFragments, name', selections⟩ := d
  obtain rfl : name' = name := hname
  obtain rfl : inlineFragments = addedInlineFragments changes := hfragments
  obtain rfl : selections = addedSelections changes := hselections
  obtain rfl : arguments = .ofList (addedArguments changes) := harguments
  obtain rfl : aliasName = lastAlias changes := haliasName.trans Option.or_none
  rfl

/-- A field has what the steps have given it.  The arguments stand in the order in which their names
were given first, each with the value that it was given last, and what is selected is written in the
order in which it was added, the inline fragments after the selections. -/
structure HasAdditions (name : String) (changes : List Change) (f : Field) : Prop where
  name_eq : f.name = name
  aliasName_eq : f.aliasName = lastAlias changes
  keys_arguments : f.arguments.keys = (Entries.keys (addedArguments changes)).eraseDups
  get?_arguments : ∀ key, f.arguments.get? key = Entries.last? key (addedArguments changes)
  inlineFragments_eq : f.inlineFragments = addedInlineFragments changes
  selections_eq : f.selections = addedSelections changes
  toGraphQL_eq : f.toGraphQL = f.headText ++
    selectionText (if name = "" then "\x7b " else " \x7b ")
      ((addedSelections changes).map Field.toGraphQL ++
        (addedInlineFragments changes).map InlineFragment.toGraphQL)

theorem hasAdditions_of_build {name : String} {changes : List Change} {f : Field}
    (h : (changes.foldl change (draft name)).build = .ok f) : HasAdditions name changes f := by
  rw [foldl_change] at h
  obtain ⟨rfl, -⟩ := build_eq_ok_iff.mp h
  exact {
    name_eq := rfl
    aliasName_eq := rfl
    keys_arguments := Entries.keys_collect _
    get?_arguments := fun key => Entries.find?_collect key _
    inlineFragments_eq := rfl
    selections_eq := rfl
    toGraphQL_eq := Field.toGraphQL_eq _ }

end Field.Draft

/-! ### Inline fragments -/

namespace InlineFragment.Draft

namespace Change

/-- The single steps that a step stands for. -/
def singles : Change → List Change
  | addSelections fields => fields.map addSelection
  | change => [change]

def selection? : Change → Option Field
  | addSelection field => some field
  | _ => none

def directive? : Change → Option Directive
  | setDirective directive => some directive
  | _ => none

def typeCondition? : Change → Option String
  | setTypeCondition type => some type
  | _ => none

end Change

def addedSelections : List Change → List Field := itemsOf Change.singles Change.selection?

def lastDirective (changes : List Change) : Option Directive :=
  (itemsOf Change.singles Change.directive? changes).getLast?

def lastTypeCondition (changes : List Change) : Option String :=
  (itemsOf Change.singles Change.typeCondition? changes).getLast?

/-- The steps add the same selections and set the same directive and type condition last. -/
structure SameAdditions (changes others : List Change) : Prop where
  selections : addedSelections changes = addedSelections others
  directive : lastDirective changes = lastDirective others
  typeCondition : lastTypeCondition changes = lastTypeCondition others

/-- The draft after the steps. -/
theorem foldl_change (changes : List Change) :
    changes.foldl change draft =
      ⟨lastDirective changes, addedSelections changes, lastTypeCondition changes⟩ := by
  have hdirective : (changes.foldl change draft).directive = (lastDirective changes).or none := by
    refine part_foldl_last directive (fun d c => ?_) draft changes
    cases c with
    | addSelections =>
      rw [Change.singles, filterMap_batch_of_none fun _ => rfl]
      rfl
    | _ => rfl
  have hselections : (changes.foldl change draft).selections = [] ++ addedSelections changes := by
    refine part_foldl_append selections (fun d c => ?_) draft changes
    cases c with
    | addSelection => rfl
    | addSelections =>
      rw [Change.singles, filterMap_batch]
      · rfl
      · exact fun _ => rfl
    | _ => exact (List.append_nil d.selections).symm
  have htypeCondition : (changes.foldl change draft).typeCondition =
      (lastTypeCondition changes).or none := by
    refine part_foldl_last typeCondition (fun d c => ?_) draft changes
    cases c with
    | addSelections =>
      rw [Change.singles, filterMap_batch_of_none fun _ => rfl]
      rfl
    | _ => rfl
  rw [Option.or_none] at hdirective htypeCondition
  generalize changes.foldl change draft = d at *
  obtain ⟨directive, selections, typeCondition⟩ := d
  obtain rfl : directive = lastDirective changes := hdirective
  obtain rfl : selections = addedSelections changes := hselections
  obtain rfl : typeCondition = lastTypeCondition changes := htypeCondition
  rfl

theorem selections_of_build {changes : List Change} {f : InlineFragment}
    (h : (changes.foldl change draft).build = .ok f) : f.selections = addedSelections changes := by
  rw [foldl_change] at h
  obtain ⟨rfl, -⟩ := build_eq_ok_iff.mp h
  rfl

end InlineFragment.Draft

/-! ### Fragments -/

namespace Fragment.Draft

namespace Change

/-- The single steps that a step stands for. -/
def singles : Change → List Change
  | addSelections fields => fields.map addSelection
  | change => [change]

def selection? : Change → Option Field
  | addSelection field => some field
  | _ => none

def directive? : Change → Option Directive
  | setDirective directive => some directive
  | _ => none

end Change

def addedSelections : List Change → List Field := itemsOf Change.singles Change.selection?

def lastDirective (changes : List Change) : Option Directive :=
  (itemsOf Change.singles Change.directive? changes).getLast?

/-- The steps add the same selections and set the same directive last. -/
structure SameAdditions (changes others : List Change) : Prop where
  selections : addedSelections changes = addedSelections others
  directive : lastDirective changes = lastDirective others

/-- The draft after the steps. -/
theorem foldl_change (name typeCondition : String) (changes : List Change) :
    changes.foldl change (draft name typeCondition) =
      ⟨lastDirective changes, name, addedSelections changes, typeCondition⟩ := by
  have hdirective : (changes.foldl change (draft name typeCondition)).directive =
      (lastDirective changes).or none := by
    refine part_foldl_last directive (fun d c => ?_) _ changes
    cases c with
    | addSelections =>
      rw [Change.singles, filterMap_batch_of_none fun _ => rfl]
      rfl
    | _ => rfl
  have hname : (changes.foldl change (draft name typeCondition)).name = name :=
    part_foldl_same Draft.name (fun d c => by cases c <;> rfl) _ changes
  have hselections : (changes.foldl change (draft name typeCondition)).selections =
      [] ++ addedSelections changes := by
    refine part_foldl_append selections (fun d c => ?_) _ changes
    cases c with
    | addSelection => rfl
    | addSelections =>
      rw [Change.singles, filterMap_batch]
      · rfl
      · exact fun _ => rfl
    | _ => exact (List.append_nil d.selections).symm
  have htypeCondition :
      (changes.foldl change (draft name typeCondition)).typeCondition = typeCondition :=
    part_foldl_same Draft.typeCondition (fun d c => by cases c <;> rfl) _ changes
  rw [Option.or_none] at hdirective
  generalize changes.foldl change (draft name typeCondition) = d at *
  obtain ⟨directive, name', selections, typeCondition'⟩ := d
  obtain rfl : directive = lastDirective changes := hdirective
  obtain rfl : name' = name := hname
  obtain rfl : selections = addedSelections changes := hselections
  obtain rfl : typeCondition' = typeCondition := htypeCondition
  rfl

theorem selections_of_build {name typeCondition : String} {changes : List Change} {f : Fragment}
    (h : (changes.foldl change (draft name typeCondition)).build = .ok f) :
    f.selections = addedSelections changes := by
  rw [foldl_change] at h
  obtain ⟨rfl, -⟩ := build_eq_ok_iff.mp h
  rfl

end Fragment.Draft

/-! ### Operations -/

namespace Operation.Draft

namespace Change

/-- The single steps that a step stands for. -/
def singles : Change → List Change
  | addSelections fields => fields.map addSelection
  | change => [change]

def selection? : Change → Option Field
  | addSelection field => some field
  | _ => none

def declaration? : Change → Option (String × Value)
  | addVariable name value => some (name, value)
  | _ => none

def name? : Change → Option String
  | setName name => some name
  | _ => none

end Change

def addedSelections : List Change → List Field := itemsOf Change.singles Change.selection?

/-- The variables that the steps declare, with or without their dollar signs. -/
def addedDeclarations : List Change → List (String × Value) :=
  itemsOf Change.singles Change.declaration?

/-- The name that is set last; the empty name of an anonymous operation if none is. -/
def lastName (changes : List Change) : String :=
  (itemsOf Change.singles Change.name? changes).getLast?.getD ""

/-- The steps add the same selections, declare the same variables and set the same name last. -/
structure SameAdditions (changes others : List Change) : Prop where
  selections : addedSelections changes = addedSelections others
  declarations : addedDeclarations changes = addedDeclarations others
  name : lastName changes = lastName others

/-- The draft after the steps. -/
theorem foldl_change (kind : OperationKind) (changes : List Change) :
    changes.foldl change (draft kind) =
      ⟨kind, lastName changes, addedSelections changes, addedDeclarations changes⟩ := by
  have hkind : (changes.foldl change (draft kind)).kind = kind :=
    part_foldl_same Draft.kind (fun d c => by cases c <;> rfl) _ changes
  have hname : (changes.foldl change (draft kind)).name = lastName changes := by
    refine part_foldl Draft.name (fun s xs => xs.getLast?.getD s) (fun _ => rfl) ?_
      (fun d c => ?_) _ changes
    · exact fun s xs ys => by rw [List.getLast?_append, Option.getD_or]
    · cases c with
      | addSelections =>
        rw [Change.singles, filterMap_batch_of_none fun _ => rfl]
        rfl
      | _ => rfl
  have hselections :
      (changes.foldl change (draft kind)).selections = [] ++ addedSelections changes := by
    refine part_foldl_append selections (fun d c => ?_) _ changes
    cases c with
    | addSelection => rfl
    | addSelections =>
      rw [Change.singles, filterMap_batch]
      · rfl
      · exact fun _ => rfl
    | _ => exact (List.append_nil d.selections).symm
  have hdeclarations :
      (changes.foldl change (draft kind)).declarations = [] ++ addedDeclarations changes := by
    refine part_foldl_append declarations (fun d c => ?_) _ changes
    cases c with
    | addVariable => rfl
    | addSelections =>
      rw [Change.singles, filterMap_batch_of_none fun _ => rfl, List.append_nil]
      rfl
    | _ => exact (List.append_nil d.declarations).symm
  generalize changes.foldl change (draft kind) = d at *
  obtain ⟨kind', name, selections, declarations⟩ := d
  obtain rfl : kind' = kind := hkind
  obtain rfl : name = lastName changes := hname
  obtain rfl : selections = addedSelections changes := hselections
  obtain rfl : declarations = addedDeclarations changes := hdeclarations
  rfl

theorem additions_of_build {kind : OperationKind} {changes : List Change} {o : Operation}
    (h : (changes.foldl change (draft kind)).build = .ok o) :
    o.selections = addedSelections changes ∧
      o.declarations.entries = declaredEntries (addedDeclarations changes) := by
  rw [foldl_change] at h
  obtain ⟨-, m, hm, rfl⟩ := build_eq_ok_iff.mp h
  exact ⟨rfl, entries_of_declareFrom _ hm⟩

end Operation.Draft

/-! ### Steps of different kinds -/

/-- **Steps of different kinds commute, and a batch is as good as its single steps.**  Two rows of
steps from the same start build the same node, or fail with the same error, if they add the same
things of each kind in the same order and set the same things last, however the kinds are mixed and
gathered in batches.  A field that is built has each argument where its name was given first and
with the value that it was given last, and what a node selects stands in the order in which it was
added, the inline fragments of a field after its selections.  The variables of an operation that is
built stand in the order in which they were declared, under their names with dollar signs. -/
theorem sameBuild_of_sameAdditions :
    (∀ (name : String) {changes others : List Field.Draft.Change},
      Field.Draft.SameAdditions changes others →
        (changes.foldl Field.Draft.change (Field.draft name)).build =
          (others.foldl Field.Draft.change (Field.draft name)).build) ∧
    (∀ {changes others : List InlineFragment.Draft.Change},
      InlineFragment.Draft.SameAdditions changes others →
        (changes.foldl InlineFragment.Draft.change InlineFragment.draft).build =
          (others.foldl InlineFragment.Draft.change InlineFragment.draft).build) ∧
    (∀ (name typeCondition : String) {changes others : List Fragment.Draft.Change},
      Fragment.Draft.SameAdditions changes others →
        (changes.foldl Fragment.Draft.change (Fragment.draft name typeCondition)).build =
          (others.foldl Fragment.Draft.change (Fragment.draft name typeCondition)).build) ∧
    (∀ (kind : OperationKind) {changes others : List Operation.Draft.Change},
      Operation.Draft.SameAdditions changes others →
        (changes.foldl Operation.Draft.change (Operation.draft kind)).build =
          (others.foldl Operation.Draft.change (Operation.draft kind)).build) ∧
    (∀ {name : String} {changes : List Field.Draft.Change} {f : Field},
      (changes.foldl Field.Draft.change (Field.draft name)).build = .ok f →
        Field.Draft.HasAdditions name changes f) ∧
    (∀ {changes : List InlineFragment.Draft.Change} {f : InlineFragment},
      (changes.foldl InlineFragment.Draft.change InlineFragment.draft).build = .ok f →
        f.selections = InlineFragment.Draft.addedSelections changes) ∧
    (∀ {name typeCondition : String} {changes : List Fragment.Draft.Change} {f : Fragment},
      (changes.foldl Fragment.Draft.change (Fragment.draft name typeCondition)).build = .ok f →
        f.selections = Fragment.Draft.addedSelections changes) ∧
    ∀ {kind : OperationKind} {changes : List Operation.Draft.Change} {o : Operation},
      (changes.foldl Operation.Draft.change (Operation.draft kind)).build = .ok o →
        o.selections = Operation.Draft.addedSelections changes ∧
          o.declarations.entries =
            Operation.declaredEntries (Operation.Draft.addedDeclarations changes) := by
  refine ⟨?_, ?_, ?_, ?_, Field.Draft.hasAdditions_of_build,
    InlineFragment.Draft.selections_of_build, Fragment.Draft.selections_of_build,
    Operation.Draft.additions_of_build⟩
  · intro name changes others h
    rw [Field.Draft.foldl_change, Field.Draft.foldl_change, h.aliasName, h.arguments,
      h.inlineFragments, h.selections]
  · intro changes others h
    rw [InlineFragment.Draft.foldl_change, InlineFragment.Draft.foldl_change, h.directive,
      h.selections, h.typeCondition]
  · intro name typeCondition changes others h
    rw [Fragment.Draft.foldl_change, Fragment.Draft.foldl_change, h.directive, h.selections]
  · intro kind changes others h
    rw [Operation.Draft.foldl_change, Operation.Draft.foldl_change, h.name, h.selections,
      h.declarations]

/-- An argument that is given again in a batch, with an inline fragment between the selections, and
a query that is named late, with its variables between the steps. -/
theorem sameBuild_of_sameAdditions_batches :
    let friends : InlineFragment := ⟨none, [Field.ofName "age"], some "Friend"⟩
    let batch : Arguments := .ofList [("size", .int 2), ("id", .int 3)]
    let changes : List Field.Draft.Change := [.setAlias "me", .addArgument "id" (.int 1),
      .addInlineFragment friends, .addSelections [Field.ofName "name", Field.ofName "mail"],
      .addArguments batch]
    let others : List Field.Draft.Change := [.addSelection (Field.ofName "name"),
      .addArguments (.ofList [("id", .int 1), ("size", .int 2)]), .setAlias "you",
      .addArgument "id" (.int 3), .addSelection (Field.ofName "mail"), .setAlias "me",
      .addInlineFragment friends]
    let user : Field := ⟨some "me", .ofList [("id", .int 3), ("size", .int 2)], [friends], "user",
      [Field.ofName "name", Field.ofName "mail"]⟩
    let id : Value := .placeholder ⟨.int, true⟩
    let flag : Value := .placeholder ⟨.boolean, false⟩
    let steps : List Operation.Draft.Change := [.setName "A", .addVariable "id" id,
      .addSelections [user], .addVariable "$flag" flag, .setName "B"]
    let later : List Operation.Draft.Change := [.addVariable "id" id, .addVariable "$flag" flag,
      .setName "B", .addSelection user]
    (Field.Draft.SameAdditions changes others ∧
      (changes.foldl Field.Draft.change (Field.draft "user")).build =
        (others.foldl Field.Draft.change (Field.draft "user")).build) ∧
    (Operation.Draft.SameAdditions steps later ∧
      (steps.foldl Operation.Draft.change (Operation.draft .query)).build =
        (later.foldl Operation.Draft.change (Operation.draft .query)).build ∧
      ∃ o, (steps.foldl Operation.Draft.change (Operation.draft .query)).build = .ok o ∧
        o.selections = [user] ∧ o.declarations.entries = [("$id", id), ("$flag", flag)]) ∧
    (changes.foldl Field.Draft.change (Field.draft "user")).build = .ok user ∧
      Field.Draft.HasAdditions "user" changes user ∧
      user.toGraphQL =
        "me: user(id: 3, size: 2) \x7b name mail ... on Friend \x7b age \x7d \x7d" := by
  intro friends batch changes others user id flag steps later
  obtain ⟨hfield, -, -, hoperation, hadditions, -, -, hdeclared⟩ := sameBuild_of_sameAdditions
  have hsame : Field.Draft.SameAdditions changes others := ⟨rfl, rfl, rfl, rfl⟩
  have hsteps : Operation.Draft.SameAdditions steps later := ⟨rfl, rfl, rfl⟩
  have hbuild : (changes.foldl Field.Draft.change (Field.draft "user")).build = .ok user := rfl
  have hquery : ∃ o, (steps.foldl Operation.Draft.change (Operation.draft .query)).build = .ok o ∧
      o.selections = [user] ∧ o.declarations.entries = [("$id", id), ("$flag", flag)] := by
    have hentries : Operation.declaredEntries [("id", id), ("$flag", flag)] =
        [("$id", id), ("$flag", flag)] := by simp [Operation.declaredEntries, VariableName.declared]
    obtain ⟨o, hbuilt⟩ :
        ∃ o, (steps.foldl Operation.Draft.change (Operation.draft .query)).build = .ok o := ⟨_, rfl⟩
    exact ⟨o, hbuilt, (hdeclared hbuilt).1, (hdeclared hbuilt).2.trans hentries⟩
  exact ⟨⟨hsame, hfield "user" hsame⟩, ⟨hsteps, hoperation .query hsteps, hquery⟩, hbuild,
    hadditions hbuild, by decide +kernel⟩

end QueryComposer
