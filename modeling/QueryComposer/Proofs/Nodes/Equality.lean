import QueryComposer.Proofs.Nodes.WellFormed
import QueryComposer.Proofs.Value.Equality

/-!
# Equality of nodes

The equality of nodes goes down to the values of arguments and to the texts of fields.  On what can
be obtained it is an equivalence relation for every sort of node (`equality_isEquivalence`), because
a session checks the arguments of a directive for literal forms and keeps their keys distinct, and
declares variables with types alone.

A value may be any object, also one with a key twice, which no map has.  So the values that are
given to the calls of a session are taken to be keyed (`Obtained`), as those made from JSON are;
along the session the directives then stay so (`Obtained.isKeyed`).
-/

namespace QueryComposer

open Product

/-! ### Keyed arguments -/

/-- No object in the arguments has a key twice. -/
def Arguments.AreKeyed (arguments : Arguments) : Prop :=
  ∀ entry ∈ arguments.entries, entry.2.IsKeyed

/-- If the product is a directive, its arguments are keyed. -/
def Product.IsKeyed : Product → Prop
  | directive d => d.arguments.AreKeyed
  | _ => True

namespace Call

/-- The values that the call is given, products apart. -/
def values : Call → List Value
  | directive _ arguments => arguments.entries.map Prod.snd
  | changeField _ (.addArgument _ value) => [value]
  | changeField _ (.addArguments arguments) => arguments.entries.map Prod.snd
  | changeOperation _ (.addVariable _ value) => [value]
  | _ => []

/-- Given keyed values, and products with keyed directives alone, a call returns no other
directive. -/
theorem isKeyed_of_result {call : Call} {p : Product} (hvalues : ∀ v ∈ call.values, v.IsKeyed)
    (hoperands : ∀ q ∈ call.operands, ∀ r, Below r q → r.IsKeyed) (h : call.result = .ok p) :
    p.IsKeyed := by
  cases call with
  | directive name arguments =>
    obtain ⟨d, hd, rfl⟩ := map_eq_ok_iff.mp h
    obtain ⟨rfl, -⟩ := Directive.withArguments_eq_ok_iff.mp hd
    exact fun entry hentry => hvalues entry.2 (List.mem_map_of_mem hentry)
  | nameDirective name =>
    cases h
    exact fun entry hentry => absurd hentry List.not_mem_nil
  | readPart whole index =>
    cases h
    exact hoperands whole (List.mem_cons_self ..) _ (.part (List.get_mem ..) .here)
  -- No other call returns a directive.
  | nameField name | fieldOfOperation o aliasName | spread f | definition d | document definitions
  | addDefinition d added | draftField name | changeField d change | draftInlineFragment
  | changeInlineFragment d change | draftFragment name type | changeFragment d change
  | draftOperation kind | changeOperation d change =>
    cases h
    trivial
  | rootField selections | inlineFragmentOnType type selections
  | inlineFragmentUnderDirective d selections | fragment name type selections
  | operation kind name selections | buildField d | buildInlineFragment d | buildFragment d
  | buildOperation d =>
    obtain ⟨_, -, rfl⟩ := map_eq_ok_iff.mp h
    trivial

end Call

/-- Some session whose calls are given keyed values returns the product. -/
def Obtained (p : Product) : Prop :=
  ∃ calls pool, Session calls pool ∧ (∀ call ∈ calls, ∀ v ∈ call.values, v.IsKeyed) ∧ p ∈ pool

namespace Obtained

variable {p q : Product}

/-- What is obtained obeys the rules at every depth. -/
theorem isLawful (h : Obtained p) (hq : Below q p) : q.IsLawful := by
  obtain ⟨calls, pool, hsession, -, hp⟩ := h
  exact hsession.wellFormed p hp q hq

/-- What is obtained has keyed directives alone. -/
theorem isKeyed (h : Obtained p) (hq : Below q p) : q.IsKeyed := by
  obtain ⟨calls, pool, hsession, hcalls, hp⟩ := h
  exact hsession.forall_below
    (fun call hcall _ hgiven hresult => Call.isKeyed_of_result (hcalls call hcall) hgiven hresult)
    p hp q hq

end Obtained

/-! ### From the parts to the node -/

/-- Arguments are compared as the objects that hold them. -/
theorem Arguments.equivalentFrom {arguments : Arguments}
    (h : ∀ entry ∈ arguments.entries, EquivalentFrom Value.equal entry.2) :
    EquivalentFrom equal arguments :=
  EquivalentFrom.comap (f := fun arguments : Arguments => Value.object arguments.entries)
    (Value.equivalentFrom_object arguments.nodup_keys h)

/-- Every node below the product is lawful, and every directive keyed. -/
def Product.IsComparable (p : Product) : Prop := ∀ q, Below q p → q.IsLawful ∧ q.IsKeyed

theorem Product.IsComparable.part {p q : Product} (h : p.IsComparable) (hq : q ∈ p.parts) :
    q.IsComparable :=
  fun r hr => h r (hr.trans (.part hq .here))

theorem Obtained.isComparable {p : Product} (h : Obtained p) : p.IsComparable :=
  fun _ hq => ⟨h.isLawful hq, h.isKeyed hq⟩

theorem Directive.equivalentFrom {d : Directive} (h : (directive d).IsComparable) :
    EquivalentFrom equal d := by
  obtain ⟨hlawful, hkeyed⟩ := h _ .here
  have harguments : EquivalentFrom (fun a b : Arguments => a == b) d.arguments :=
    Arguments.equivalentFrom fun entry hentry =>
      Value.equivalentFrom (hlawful.literals entry hentry) (hkeyed entry hentry)
  exact harguments.comap.and (EquivalentFrom.of_lawful d.name).comap

theorem equivalentFrom_directive? {directive : Option Directive}
    (h : ∀ q ∈ ofDirective? directive, q.IsComparable) :
    EquivalentFrom (fun a b : Option Directive => a == b) directive :=
  EquivalentFrom.option fun _ hd => Directive.equivalentFrom <| h _ <|
    List.mem_map_of_mem (Option.mem_toList.mpr hd)

/-- Fields are compared by their texts. -/
theorem Field.equivalentFrom (f : Field) : EquivalentFrom equal f :=
  (EquivalentFrom.of_lawful f.toGraphQL).comap

theorem equivalentFrom_selections (selections : List Field) :
    EquivalentFrom (fun a b : List Field => a == b) selections :=
  EquivalentFrom.list fun f _ => f.equivalentFrom

theorem InlineFragment.equivalentFrom {f : InlineFragment} (h : (inlineFragment f).IsComparable) :
    EquivalentFrom equal f := by
  have hdirective := equivalentFrom_directive? fun q hq => h.part (List.mem_append_left _ hq)
  exact (hdirective.comap.and (equivalentFrom_selections f.selections).comap).and
    (EquivalentFrom.of_lawful f.typeCondition).comap

theorem Fragment.equivalentFrom {f : Fragment} (h : (fragment f).IsComparable) :
    EquivalentFrom equal f := by
  have hdirective := equivalentFrom_directive? fun q hq => h.part (List.mem_append_left _ hq)
  have hname := EquivalentFrom.of_lawful f.name
  exact ((hdirective.comap.and hname.comap).and (equivalentFrom_selections f.selections).comap).and
    (EquivalentFrom.of_lawful f.typeCondition).comap

theorem Operation.equivalentFrom {o : Operation} (h : (operation o).IsComparable) :
    EquivalentFrom equal o := by
  have hdeclarations : EquivalentFrom (fun a b : Arguments => a == b) o.declarations := by
    refine Arguments.equivalentFrom fun entry hentry => ?_
    obtain ⟨-, t, ht⟩ := (h _ .here).1.declarations entry hentry
    rw [ht]
    exact Value.equivalentFrom_placeholder t
  have hkind := EquivalentFrom.of_lawful o.kind
  have hname := EquivalentFrom.of_lawful o.name
  exact ((hkind.comap.and hname.comap).and (equivalentFrom_selections o.selections).comap).and
    hdeclarations.comap

/-- Definitions of different sorts are not equal. -/
theorem Definition.equivalentFrom {d : Definition} (h : (definition d).IsComparable) :
    EquivalentFrom equal d := by
  have hpart := h.part (List.mem_cons_self ..)
  cases d with
  | field f =>
    refine f.equivalentFrom.lift fun f d => ?_
    cases d <;> simp [equal]
    rfl
  | fragment f =>
    refine (Fragment.equivalentFrom hpart).lift fun f d => ?_
    cases d <;> simp [equal]
    rfl
  | operation o =>
    refine (Operation.equivalentFrom hpart).lift fun o d => ?_
    cases d <;> simp [equal]
    rfl

theorem Document.equivalentFrom {d : Document} (h : (document d).IsComparable) :
    EquivalentFrom equal d := by
  have hdefinitions : EquivalentFrom (fun a b : List Definition => a == b) d.definitions :=
    EquivalentFrom.list fun definition hdefinition =>
      Definition.equivalentFrom (h.part (List.mem_map_of_mem hdefinition))
  exact hdefinitions.comap

/-! ### What can be obtained -/

/-- On what can be obtained of a sort, `==` is reflexive, symmetric and transitive. -/
def EqualityIsEquivalence {α : Type} [BEq α] (sort : α → Product) : Prop :=
  Equivalence fun a b : {a : α // Obtained (sort a)} => (a.val == b.val) = true

/-- **Equality is an equivalence relation** on the directives, inline fragments, fragments,
operations, definitions and documents that can be obtained. -/
theorem equality_isEquivalence :
    EqualityIsEquivalence directive ∧ EqualityIsEquivalence inlineFragment ∧
      EqualityIsEquivalence fragment ∧ EqualityIsEquivalence operation ∧
        EqualityIsEquivalence definition ∧ EqualityIsEquivalence document := by
  refine ⟨?directive, ?inlineFragment, ?fragment, ?operation, ?definition, ?document⟩
  case directive =>
    exact EquivalentFrom.equivalence fun _ h => Directive.equivalentFrom h.isComparable
  case inlineFragment =>
    exact EquivalentFrom.equivalence fun _ h => InlineFragment.equivalentFrom h.isComparable
  case fragment =>
    exact EquivalentFrom.equivalence fun _ h => Fragment.equivalentFrom h.isComparable
  case operation =>
    exact EquivalentFrom.equivalence fun _ h => Operation.equivalentFrom h.isComparable
  case definition =>
    exact EquivalentFrom.equivalence fun _ h => Definition.equivalentFrom h.isComparable
  case document =>
    exact EquivalentFrom.equivalence fun _ h => Document.equivalentFrom h.isComparable

end QueryComposer
