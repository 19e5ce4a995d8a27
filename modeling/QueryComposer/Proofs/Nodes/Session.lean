import QueryComposer.Definition.Basic

/-!
# Sessions

A caller makes nodes step by step: each call of the library is given products of earlier calls,
besides plain texts and values, and returns a new product or an error.  A `Product` is a node or a
draft of one, a `Call` is one use of a constructor, a conversion, a step of a draft or an accessor,
and `Session calls pool` says that `calls`, made in this order, have returned the products in
`pool`.  What some session returns is `Obtainable`.
-/

namespace QueryComposer

/-! ### Products -/

/-- What a call can return. -/
inductive Product where
  | directive (d : Directive)
  | field (f : Field)
  | inlineFragment (f : InlineFragment)
  | fragment (f : Fragment)
  | operation (o : Operation)
  | definition (d : Definition)
  | document (d : Document)
  | fieldDraft (d : Field.Draft)
  | inlineFragmentDraft (d : InlineFragment.Draft)
  | fragmentDraft (d : Fragment.Draft)
  | operationDraft (d : Operation.Draft)

namespace Product

/-- The products of a directive that may be absent. -/
def ofDirective? (directive : Option Directive) : List Product :=
  directive.toList.map .directive

/-- The product inside a definition. -/
def ofDefinition : Definition → Product
  | .field f => .field f
  | .fragment f => .fragment f
  | .operation o => .operation o

/-- The products that stand directly below a product. -/
def parts : Product → List Product
  | directive _ => []
  | field f => f.selections.map .field ++ f.inlineFragments.map .inlineFragment
  | inlineFragment f => ofDirective? f.directive ++ f.selections.map .field
  | fragment f => ofDirective? f.directive ++ f.selections.map .field
  | operation o => o.selections.map .field
  | definition d => [ofDefinition d]
  | document d => d.definitions.map .definition
  | fieldDraft d => d.selections.map .field ++ d.inlineFragments.map .inlineFragment
  | inlineFragmentDraft d => ofDirective? d.directive ++ d.selections.map .field
  | fragmentDraft d => ofDirective? d.directive ++ d.selections.map .field
  | operationDraft d => d.selections.map .field

/-- The first product stands somewhere below the second, or is it. -/
inductive Below (q : Product) : Product → Prop where
  | here : Below q q
  | part {r p : Product} : r ∈ p.parts → Below q r → Below q p

end Product

/-! ### Steps of drafts -/

/-- A step of the draft of a field. -/
inductive Field.Draft.Change where
  | addArgument (name : String) (value : Value)
  | addArguments (arguments : Arguments)
  | addInlineFragment (fragment : InlineFragment)
  | addSelection (field : Field)
  | addSelections (fields : List Field)
  | setAlias (aliasName : String)

/-- The draft after the step. -/
def Field.Draft.change (d : Draft) : Change → Draft
  | .addArgument name value => d.addArgument name value
  | .addArguments arguments => d.addArguments arguments
  | .addInlineFragment fragment => d.addInlineFragment fragment
  | .addSelection field => d.addSelection field
  | .addSelections fields => d.addSelections fields
  | .setAlias aliasName => d.setAlias aliasName

/-- The products that the step is given. -/
def Field.Draft.Change.operands : Change → List Product
  | .addInlineFragment fragment => [.inlineFragment fragment]
  | .addSelection field => [.field field]
  | .addSelections fields => fields.map .field
  | _ => []

/-- A step of the draft of an inline fragment. -/
inductive InlineFragment.Draft.Change where
  | addSelection (field : Field)
  | addSelections (fields : List Field)
  | setDirective (directive : Directive)
  | setTypeCondition (type : String)

/-- The draft after the step. -/
def InlineFragment.Draft.change (d : Draft) : Change → Draft
  | .addSelection field => d.addSelection field
  | .addSelections fields => d.addSelections fields
  | .setDirective directive => d.setDirective directive
  | .setTypeCondition type => d.setTypeCondition type

/-- The products that the step is given. -/
def InlineFragment.Draft.Change.operands : Change → List Product
  | .addSelection field => [.field field]
  | .addSelections fields => fields.map .field
  | .setDirective directive => [.directive directive]
  | .setTypeCondition _ => []

/-- A step of the draft of a fragment. -/
inductive Fragment.Draft.Change where
  | addSelection (field : Field)
  | addSelections (fields : List Field)
  | setDirective (directive : Directive)

/-- The draft after the step. -/
def Fragment.Draft.change (d : Draft) : Change → Draft
  | .addSelection field => d.addSelection field
  | .addSelections fields => d.addSelections fields
  | .setDirective directive => d.setDirective directive

/-- The products that the step is given. -/
def Fragment.Draft.Change.operands : Change → List Product
  | .addSelection field => [.field field]
  | .addSelections fields => fields.map .field
  | .setDirective directive => [.directive directive]

/-- A step of the draft of an operation. -/
inductive Operation.Draft.Change where
  | addSelection (field : Field)
  | addSelections (fields : List Field)
  | addVariable (name : String) (value : Value)
  | setName (name : String)

/-- The draft after the step. -/
def Operation.Draft.change (d : Draft) : Change → Draft
  | .addSelection field => d.addSelection field
  | .addSelections fields => d.addSelections fields
  | .addVariable name value => d.addVariable name value
  | .setName name => d.setName name

/-- The products that the step is given. -/
def Operation.Draft.Change.operands : Change → List Product
  | .addSelection field => [.field field]
  | .addSelections fields => fields.map .field
  | .addVariable .. => []
  | .setName _ => []

/-! ### Calls -/

/-- One call of the library, with everything that it is given. -/
inductive Call where
  /-- A directive of this name alone. -/
  | nameDirective (name : String)
  | directive (name : String) (arguments : Arguments)
  /-- A field of this name alone. -/
  | nameField (name : String)
  | rootField (selections : List Field)
  | fieldOfOperation (operation : Operation) (aliasName : Option String)
  | spread (fragment : Fragment)
  | inlineFragmentOnType (type : String) (selections : List Field)
  | inlineFragmentUnderDirective (directive : Directive) (selections : List Field)
  | fragment (name typeCondition : String) (selections : List Field)
  | operation (kind : OperationKind) (name : String) (selections : List Field)
  | definition (definition : Definition)
  | document (definitions : List Definition)
  | addDefinition (document : Document) (definition : Definition)
  | draftField (name : String)
  | changeField (draft : Field.Draft) (change : Field.Draft.Change)
  | buildField (draft : Field.Draft)
  | draftInlineFragment
  | changeInlineFragment (draft : InlineFragment.Draft) (change : InlineFragment.Draft.Change)
  | buildInlineFragment (draft : InlineFragment.Draft)
  | draftFragment (name typeCondition : String)
  | changeFragment (draft : Fragment.Draft) (change : Fragment.Draft.Change)
  | buildFragment (draft : Fragment.Draft)
  | draftOperation (kind : OperationKind)
  | changeOperation (draft : Operation.Draft) (change : Operation.Draft.Change)
  | buildOperation (draft : Operation.Draft)
  /-- A part of a product, read through an accessor. -/
  | readPart (whole : Product) (index : Fin whole.parts.length)

namespace Call

/-- The products that the call is given. -/
def operands : Call → List Product
  | rootField selections => selections.map .field
  | fieldOfOperation o _ => [.operation o]
  | spread f => [.fragment f]
  | inlineFragmentOnType _ selections => selections.map .field
  | inlineFragmentUnderDirective d selections => .directive d :: selections.map .field
  | fragment _ _ selections => selections.map .field
  | operation _ _ selections => selections.map .field
  | definition d => [Product.ofDefinition d]
  | document definitions => definitions.map .definition
  | addDefinition d added => [.document d, .definition added]
  | changeField draft change => .fieldDraft draft :: change.operands
  | buildField draft => [.fieldDraft draft]
  | changeInlineFragment draft change => .inlineFragmentDraft draft :: change.operands
  | buildInlineFragment draft => [.inlineFragmentDraft draft]
  | changeFragment draft change => .fragmentDraft draft :: change.operands
  | buildFragment draft => [.fragmentDraft draft]
  | changeOperation draft change => .operationDraft draft :: change.operands
  | buildOperation draft => [.operationDraft draft]
  | readPart whole _ => [whole]
  | nameDirective _ | directive .. | nameField _ | draftField _ | draftInlineFragment
  | draftFragment .. | draftOperation _ => []

/-- What the call returns. -/
def result : Call → Except BuildError Product
  | nameDirective name => .ok (.directive (Directive.ofName name))
  | directive name arguments => (Directive.withArguments name arguments).map .directive
  | nameField name => .ok (.field (Field.ofName name))
  | rootField selections => (Field.root selections).map .field
  | fieldOfOperation o aliasName => .ok (.field (Field.ofOperation o aliasName))
  | spread f => .ok (.field (Field.spread f))
  | inlineFragmentOnType type selections =>
    (InlineFragment.onType type selections).map .inlineFragment
  | inlineFragmentUnderDirective d selections =>
    (InlineFragment.underDirective d selections).map .inlineFragment
  | fragment name typeCondition selections =>
    (Fragment.ofSelections name typeCondition selections).map .fragment
  | operation kind name selections =>
    (Operation.ofSelections kind name selections).map .operation
  | definition d => .ok (.definition d)
  | document definitions => .ok (.document ⟨definitions⟩)
  | addDefinition d added => .ok (.document (d.addDefinition added))
  | draftField name => .ok (.fieldDraft (Field.draft name))
  | changeField draft change => .ok (.fieldDraft (draft.change change))
  | buildField draft => draft.build.map .field
  | draftInlineFragment => .ok (.inlineFragmentDraft InlineFragment.draft)
  | changeInlineFragment draft change => .ok (.inlineFragmentDraft (draft.change change))
  | buildInlineFragment draft => draft.build.map .inlineFragment
  | draftFragment name typeCondition => .ok (.fragmentDraft (Fragment.draft name typeCondition))
  | changeFragment draft change => .ok (.fragmentDraft (draft.change change))
  | buildFragment draft => draft.build.map .fragment
  | draftOperation kind => .ok (.operationDraft (Operation.draft kind))
  | changeOperation draft change => .ok (.operationDraft (draft.change change))
  | buildOperation draft => draft.build.map .operation
  | readPart whole index => .ok (whole.parts.get index)

end Call

/-! ### Sessions -/

/-- The calls, made in this order from nothing, have returned the products in the pool: each is
given products that are there, and one that fails leaves the pool as it is. -/
inductive Session : List Call → List Product → Prop where
  | start : Session [] []
  | returns {calls : List Call} {pool : List Product} {call : Call} {p : Product} :
      Session calls pool → (∀ q ∈ call.operands, q ∈ pool) → call.result = .ok p →
      Session (calls ++ [call]) (pool ++ [p])
  | fails {calls : List Call} {pool : List Product} {call : Call} {e : BuildError} :
      Session calls pool → (∀ q ∈ call.operands, q ∈ pool) → call.result = .error e →
      Session (calls ++ [call]) pool

/-- Some session returns the product. -/
def Obtainable (p : Product) : Prop := ∃ calls pool, Session calls pool ∧ p ∈ pool

end QueryComposer
