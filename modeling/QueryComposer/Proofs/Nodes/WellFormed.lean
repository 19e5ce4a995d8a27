import Mathlib.Tactic.Tauto
import QueryComposer.Proofs.Nodes.Lawful
import QueryComposer.Proofs.Nodes.Session

/-!
# Everything that a session returns is well-formed

The checks of the drafts look one level deep and several constructors check nothing, yet no session
returns a tree that breaks a rule at any depth (`Session.isLawful_below`).  The invariant is that
every product in the pool is *well-formed*: it is lawful itself, and so is every node below it.  One
call keeps this, because the parts of what it returns stood below what it was given
(`Call.parts_of_result`) and the product on top of them is lawful (`Call.isLawful_of_result`).
-/

namespace QueryComposer

namespace Product

theorem Below.trans {p q r : Product} (hpq : Below p q) (hqr : Below q r) : Below p r := by
  induction hqr with
  | here => exact hpq
  | part hpart _ ih => exact .part hpart ih

/-- The rules of the node itself; drafts and what only holds definitions have none. -/
def IsLawful : Product → Prop
  | directive d => d.IsLawful
  | field f => f.IsLawful
  | inlineFragment f => f.IsLawful
  | fragment f => f.IsLawful
  | operation o => o.IsLawful
  | definition _ | document _ => True
  | fieldDraft _ | inlineFragmentDraft _ | fragmentDraft _ | operationDraft _ => True

/-- The product and every node below it are lawful. -/
def WellFormed (p : Product) : Prop := ∀ q, Below q p → q.IsLawful

theorem WellFormed.isLawful {p : Product} (h : p.WellFormed) : p.IsLawful := h p .here

theorem WellFormed.part {p q : Product} (h : p.WellFormed) (hq : q ∈ p.parts) : q.WellFormed :=
  fun r hr => h r (.part hq hr)

end Product

open Product

/-! ### Parts -/

/-- The parts of a draft after a step are parts from before or what the step was given. -/
theorem Field.Draft.parts_change {d : Draft} {change : Change} :
    ∀ q ∈ (Product.fieldDraft (d.change change)).parts,
      q ∈ (Product.fieldDraft d).parts ∨ q ∈ change.operands := by
  intro q hq
  cases change <;>
    simp only [Draft.change, addArgument, addArguments, addInlineFragment, addSelection,
      addSelections, setAlias, Change.operands, Product.parts, List.map_append, List.mem_append,
      List.map_cons, List.map_nil] at hq ⊢ <;>
    tauto

theorem InlineFragment.Draft.parts_change {d : Draft} {change : Change} :
    ∀ q ∈ (Product.inlineFragmentDraft (d.change change)).parts,
      q ∈ (Product.inlineFragmentDraft d).parts ∨ q ∈ change.operands := by
  intro q hq
  cases change <;>
    simp only [Draft.change, addSelection, addSelections, setDirective, setTypeCondition,
      Change.operands, Product.parts, Product.ofDirective?, Option.toList, List.map_append,
      List.mem_append, List.map_cons, List.map_nil] at hq ⊢ <;>
    tauto

theorem Fragment.Draft.parts_change {d : Draft} {change : Change} :
    ∀ q ∈ (Product.fragmentDraft (d.change change)).parts,
      q ∈ (Product.fragmentDraft d).parts ∨ q ∈ change.operands := by
  intro q hq
  cases change <;>
    simp only [Draft.change, addSelection, addSelections, setDirective, Change.operands,
      Product.parts, Product.ofDirective?, Option.toList, List.map_append, List.mem_append,
      List.map_cons, List.map_nil] at hq ⊢ <;>
    tauto

theorem Operation.Draft.parts_change {d : Draft} {change : Change} :
    ∀ q ∈ (Product.operationDraft (d.change change)).parts,
      q ∈ (Product.operationDraft d).parts ∨ q ∈ change.operands := by
  intro q hq
  cases change <;>
    simp only [Draft.change, addSelection, addSelections, addVariable, setName, Change.operands,
      Product.parts, List.map_append, List.mem_append, List.map_cons, List.map_nil] at hq ⊢ <;>
    tauto

/-! ### One call -/

namespace Call

variable {call : Call} {p : Product}

/-- The parts of what a call returns stood below what it was given. -/
theorem parts_of_result (h : call.result = .ok p) :
    ∀ q ∈ p.parts, ∃ r ∈ call.operands, Below q r := by
  intro q hq
  cases call with
  -- What is returned has no parts.
  | nameDirective name | nameField name | draftField name | draftInlineFragment
  | draftFragment name type | draftOperation kind | spread f =>
    cases h
    cases hq
  | directive name arguments =>
    obtain ⟨d, -, rfl⟩ := map_eq_ok_iff.mp h
    cases hq
  -- The parts are what the call was given.
  | definition d | document definitions =>
    cases h
    exact ⟨q, hq, .here⟩
  | rootField selections =>
    obtain ⟨f, hf, rfl⟩ := map_eq_ok_iff.mp h
    obtain ⟨rfl, -⟩ := Field.root_eq_ok_iff.mp hf
    rw [Product.parts, List.map_nil, List.append_nil] at hq
    exact ⟨q, hq, .here⟩
  | inlineFragmentOnType type selections =>
    obtain ⟨f, hf, rfl⟩ := map_eq_ok_iff.mp h
    obtain ⟨rfl, -⟩ := InlineFragment.Draft.build_eq_ok_iff.mp hf
    exact ⟨q, hq, .here⟩
  | inlineFragmentUnderDirective d selections =>
    obtain ⟨f, hf, rfl⟩ := map_eq_ok_iff.mp h
    obtain ⟨rfl, -⟩ := InlineFragment.Draft.build_eq_ok_iff.mp hf
    exact ⟨q, hq, .here⟩
  | fragment name type selections =>
    obtain ⟨f, hf, rfl⟩ := map_eq_ok_iff.mp h
    obtain ⟨rfl, -⟩ := Fragment.Draft.build_eq_ok_iff.mp hf
    exact ⟨q, hq, .here⟩
  | operation kind name selections =>
    obtain ⟨o, ho, rfl⟩ := map_eq_ok_iff.mp h
    obtain ⟨-, hselections⟩ := Operation.Draft.isLawful_of_build ho
    rw [Product.parts, hselections] at hq
    exact ⟨q, hq, .here⟩
  -- The parts are those of what the call was given.
  | fieldOfOperation o aliasName =>
    cases h
    refine ⟨.operation o, List.mem_cons_self .., .part ?_ .here⟩
    simpa [Product.parts, Field.ofOperation] using hq
  | buildField d =>
    obtain ⟨f, hf, rfl⟩ := map_eq_ok_iff.mp h
    obtain ⟨rfl, -⟩ := Field.Draft.build_eq_ok_iff.mp hf
    exact ⟨.fieldDraft d, List.mem_cons_self .., .part hq .here⟩
  | buildInlineFragment d =>
    obtain ⟨f, hf, rfl⟩ := map_eq_ok_iff.mp h
    obtain ⟨rfl, -⟩ := InlineFragment.Draft.build_eq_ok_iff.mp hf
    exact ⟨.inlineFragmentDraft d, List.mem_cons_self .., .part hq .here⟩
  | buildFragment d =>
    obtain ⟨f, hf, rfl⟩ := map_eq_ok_iff.mp h
    obtain ⟨rfl, -⟩ := Fragment.Draft.build_eq_ok_iff.mp hf
    exact ⟨.fragmentDraft d, List.mem_cons_self .., .part hq .here⟩
  | buildOperation d =>
    obtain ⟨o, ho, rfl⟩ := map_eq_ok_iff.mp h
    obtain ⟨-, hselections⟩ := Operation.Draft.isLawful_of_build ho
    rw [Product.parts, hselections] at hq
    exact ⟨.operationDraft d, List.mem_cons_self .., .part hq .here⟩
  | readPart whole index =>
    cases h
    exact ⟨whole, List.mem_cons_self .., .part (List.get_mem ..) (.part hq .here)⟩
  -- Some parts are there already and others are added.
  | addDefinition d added =>
    cases h
    simp only [Product.parts, Document.addDefinition, List.map_append, List.mem_append] at hq
    rcases hq with hq | hq
    · exact ⟨.document d, List.mem_cons_self .., .part hq .here⟩
    · exact ⟨q, List.mem_cons_of_mem _ hq, .here⟩
  | changeField d change =>
    cases h
    rcases Field.Draft.parts_change q hq with hq | hq
    · exact ⟨.fieldDraft d, List.mem_cons_self .., .part hq .here⟩
    · exact ⟨q, List.mem_cons_of_mem _ hq, .here⟩
  | changeInlineFragment d change =>
    cases h
    rcases InlineFragment.Draft.parts_change q hq with hq | hq
    · exact ⟨.inlineFragmentDraft d, List.mem_cons_self .., .part hq .here⟩
    · exact ⟨q, List.mem_cons_of_mem _ hq, .here⟩
  | changeFragment d change =>
    cases h
    rcases Fragment.Draft.parts_change q hq with hq | hq
    · exact ⟨.fragmentDraft d, List.mem_cons_self .., .part hq .here⟩
    · exact ⟨q, List.mem_cons_of_mem _ hq, .here⟩
  | changeOperation d change =>
    cases h
    rcases Operation.Draft.parts_change q hq with hq | hq
    · exact ⟨.operationDraft d, List.mem_cons_self .., .part hq .here⟩
    · exact ⟨q, List.mem_cons_of_mem _ hq, .here⟩

/-- Given well-formed products, a call returns a lawful one. -/
theorem isLawful_of_result (hoperands : ∀ q ∈ call.operands, q.WellFormed)
    (h : call.result = .ok p) : p.IsLawful := by
  cases call with
  -- Drafts, definitions and documents have no rules of their own.
  | draftField name | draftInlineFragment | draftFragment name type | draftOperation kind
  | definition d | document definitions | addDefinition d added | changeField d change
  | changeInlineFragment d change | changeFragment d change | changeOperation d change =>
    cases h
    trivial
  -- Constructors that check nothing.
  | nameDirective name =>
    cases h
    exact Directive.isLawful_ofName name
  | nameField name =>
    cases h
    exact Field.isLawful_ofName name
  | spread f =>
    cases h
    exact Field.isLawful_ofName _
  | fieldOfOperation o aliasName =>
    cases h
    have ho : (Product.operation o).WellFormed := hoperands _ (List.mem_cons_self ..)
    exact Field.isLawful_ofOperation ho.isLawful.selections_named aliasName
  -- Constructors that check what they return.
  | directive name arguments =>
    obtain ⟨d, hd, rfl⟩ := map_eq_ok_iff.mp h
    obtain ⟨rfl, hlawful⟩ := Directive.withArguments_eq_ok_iff.mp hd
    exact hlawful
  | rootField selections =>
    obtain ⟨f, hf, rfl⟩ := map_eq_ok_iff.mp h
    obtain ⟨rfl, hnamed⟩ := Field.root_eq_ok_iff.mp hf
    exact Field.isLawful_of_selections hnamed
  | inlineFragmentOnType type selections =>
    obtain ⟨f, hf, rfl⟩ := map_eq_ok_iff.mp h
    obtain ⟨rfl, hlawful⟩ := InlineFragment.Draft.build_eq_ok_iff.mp hf
    exact hlawful
  | inlineFragmentUnderDirective d selections =>
    obtain ⟨f, hf, rfl⟩ := map_eq_ok_iff.mp h
    obtain ⟨rfl, hlawful⟩ := InlineFragment.Draft.build_eq_ok_iff.mp hf
    exact hlawful
  | fragment name type selections =>
    obtain ⟨f, hf, rfl⟩ := map_eq_ok_iff.mp h
    obtain ⟨rfl, hlawful⟩ := Fragment.Draft.build_eq_ok_iff.mp hf
    exact hlawful
  | operation kind name selections =>
    obtain ⟨o, ho, rfl⟩ := map_eq_ok_iff.mp h
    exact (Operation.Draft.isLawful_of_build ho).1
  | buildField d =>
    obtain ⟨f, hf, rfl⟩ := map_eq_ok_iff.mp h
    obtain ⟨rfl, hlawful⟩ := Field.Draft.build_eq_ok_iff.mp hf
    exact hlawful
  | buildInlineFragment d =>
    obtain ⟨f, hf, rfl⟩ := map_eq_ok_iff.mp h
    obtain ⟨rfl, hlawful⟩ := InlineFragment.Draft.build_eq_ok_iff.mp hf
    exact hlawful
  | buildFragment d =>
    obtain ⟨f, hf, rfl⟩ := map_eq_ok_iff.mp h
    obtain ⟨rfl, hlawful⟩ := Fragment.Draft.build_eq_ok_iff.mp hf
    exact hlawful
  | buildOperation d =>
    obtain ⟨o, ho, rfl⟩ := map_eq_ok_iff.mp h
    exact (Operation.Draft.isLawful_of_build ho).1
  -- What is read from a well-formed product is well-formed.
  | readPart whole index =>
    cases h
    have hwhole : whole.WellFormed := hoperands _ (List.mem_cons_self ..)
    exact (hwhole.part (List.get_mem ..)).isLawful

end Call

/-! ### Sessions -/

/-- **What each call keeps holds along a session.**  A property that a call returns whenever it is
given products that have it at every depth holds of everything below a product in the pool. -/
theorem Session.forall_below {P : Product → Prop} {calls : List Call} {pool : List Product}
    (h : Session calls pool)
    (hcalls : ∀ call ∈ calls, ∀ p, (∀ q ∈ call.operands, ∀ r, Below r q → P r) →
      call.result = .ok p → P p) :
    ∀ p ∈ pool, ∀ q, Below q p → P q := by
  induction h with
  | start => exact fun _ hp => absurd hp List.not_mem_nil
  | returns _ hoperands hresult ih =>
    have hpool := ih fun call hcall => hcalls call (List.mem_append_left _ hcall)
    have hgiven := fun q hq => hpool q (hoperands q hq)
    intro p hp q hq
    rcases List.mem_append.mp hp with hp | hp
    · exact hpool p hp q hq
    · obtain rfl := List.mem_singleton.mp hp
      cases hq with
      | here => exact hcalls _ (List.mem_append_right _ (List.mem_cons_self ..)) _ hgiven hresult
      -- A part stands below something that the call was given.
      | part hr hq =>
        obtain ⟨r', hr', hbelow⟩ := Call.parts_of_result hresult _ hr
        exact hgiven r' hr' q (hq.trans hbelow)
  | fails _ _ _ ih => exact ih fun call hcall => hcalls call (List.mem_append_left _ hcall)

/-- Along a session every product in the pool stays well-formed. -/
theorem Session.wellFormed {calls : List Call} {pool : List Product} (h : Session calls pool) :
    ∀ p ∈ pool, p.WellFormed :=
  h.forall_below fun _ _ _ hoperands hresult => Call.isLawful_of_result hoperands hresult

/-- **No session returns a tree that breaks a rule.**  Every node at any depth of a returned product
obeys the rules of its sort: selections are named, an unnamed field has neither alias nor arguments,
arguments have literal forms at every depth, an inline fragment has a directive or a type condition
that is not empty, a fragment has a name and a type condition, and an operation declares its
variables with types. -/
theorem Session.isLawful_below {calls : List Call} {pool : List Product} (h : Session calls pool) :
    ∀ p ∈ pool, ∀ q, Below q p → q.IsLawful :=
  fun p hp q hq => h.wellFormed p hp q hq

/-- A session in which a root field over an unnamed field is refused and one over a named field is
returned. -/
theorem Session.isLawful_below_root :
    let calls : List Call := [.nameField "", .rootField [Field.ofName ""], .nameField "id",
      .rootField [Field.ofName "id"]]
    let pool : List Product := [.field (Field.ofName ""), .field (Field.ofName "id"),
      .field ⟨none, ∅, [], "", [Field.ofName "id"]⟩]
    Session calls pool ∧ ∀ p ∈ pool, ∀ q, Below q p → q.IsLawful := by
  intro calls pool
  have unnamed : Session (calls.take 1) (pool.take 1) :=
    .returns .start (by simp [Call.operands]) rfl
  have refused : Session (calls.take 2) (pool.take 1) :=
    .fails unnamed (by simp [Call.operands, pool]) rfl
  have named : Session (calls.take 3) (pool.take 2) :=
    .returns refused (by simp [Call.operands]) rfl
  have root : Session calls pool :=
    .returns named (by simp [Call.operands, pool]) rfl
  exact ⟨root, Session.isLawful_below root⟩

/-- What can be obtained is well-formed. -/
theorem Obtainable.wellFormed {p : Product} (h : Obtainable p) : p.WellFormed := by
  obtain ⟨_, _, hsession, hp⟩ := h
  exact hsession.wellFormed p hp

end QueryComposer
