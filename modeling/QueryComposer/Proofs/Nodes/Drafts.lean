import QueryComposer.Proofs.Nodes.Declarations
import QueryComposer.Proofs.Nodes.Equality
import QueryComposer.Proofs.Rendering.Layout
import QueryComposer.Proofs.Value.Order

/-!
# What equal drafts build

Drafts are compared part by part, maps regardless of order and fields by their texts.  Building
looks at more than that.  A root field may have the text of a named one, and only the root field is
refused.  A field that is built is compared by its text, which shows the order of arguments and the
sign of zero.  Where equal drafts agree in these respects, they build equal nodes or are refused for
the same reason (`buildsAlike_of_equal`).
-/

namespace QueryComposer

open Product

/-! ### Results -/

section Results

variable {α β : Type} [BEq β]

/-- Both are results that are equal, or both are the same error. -/
inductive SameResult : Except BuildError β → Except BuildError β → Prop where
  | ok {a b : β} : (a == b) = true → SameResult (.ok a) (.ok b)
  | error (e : BuildError) : SameResult (.error e) (.error e)

instance (x y : Except BuildError β) : Decidable (SameResult x y) :=
  match x, y with
  | .ok a, .ok b => decidable_of_iff ((a == b) = true) ⟨.ok, fun | .ok h => h⟩
  | .error e, .error e' =>
    decidable_of_iff (e = e') ⟨fun h => h ▸ .error e, fun | .error _ => rfl⟩
  | .ok _, .error _ => isFalse (by rintro ⟨⟩)
  | .error _, .ok _ => isFalse (by rintro ⟨⟩)

theorem SameResult.bind {x : Except BuildError α} {f g : α → Except BuildError β}
    (h : ∀ a, x = .ok a → SameResult (f a) (g a)) : SameResult (x >>= f) (x >>= g) := by
  cases x with
  | error e => exact .error e
  | ok a => exact h a rfl

end Results

/-! ### Selections -/

/-- Whether a field is named is all that the check of selections looks at. -/
theorem checkSelections_congr (parent : Parent) {fs gs : List Field}
    (h : AllNamed fs ↔ AllNamed gs) : checkSelections parent fs = checkSelections parent gs := by
  have hany : fs.any Field.isRoot = gs.any Field.isRoot := by
    rw [Bool.eq_iff_iff, ← not_iff_not, Bool.not_eq_true, Bool.not_eq_true,
      any_isRoot_eq_false_iff, any_isRoot_eq_false_iff]
    exact h
  rw [checkSelections, checkSelections, hany]

theorem map_toGraphQL_of_beq {fs gs : List Field} (h : (fs == gs) = true) :
    fs.map Field.toGraphQL = gs.map Field.toGraphQL := by
  have hall := beq_iff_forall₂.mp h
  clear h
  induction hall with
  | nil => rfl
  | @cons f g _ _ hfg _ ih =>
    have htext : f.toGraphQL = g.toGraphQL := beq_iff_eq.mp hfg
    rw [List.map_cons, List.map_cons, htext, ih]

/-! ### Inline fragments and fragments -/

theorem InlineFragment.Draft.sameResult_build {a b : Draft} (h : (a == b) = true)
    (hnamed : AllNamed a.selections ↔ AllNamed b.selections) : SameResult a.build b.build := by
  obtain ⟨directive, selections, typeCondition⟩ := a
  obtain ⟨directive', selections', typeCondition'⟩ := b
  have hparts : Draft.equal _ _ = true := h
  simp only [Draft.equal, Bool.and_eq_true, beq_iff_eq] at hparts
  obtain ⟨⟨hdirective, hselections⟩, rfl⟩ := hparts
  -- The checks look at no more of the directive than whether it is there.
  have hnone : directive.isNone = directive'.isNone := by
    cases directive <;> cases directive' <;> first | rfl | cases hdirective
  rw [build, build]
  simp only [hnone, checkSelections_congr _ hnamed]
  split
  · exact .error _
  · refine .bind fun _ _ => .ok ?_
    show InlineFragment.equal _ _ = true
    simp [InlineFragment.equal, hdirective, hselections]

theorem Fragment.Draft.sameResult_build {a b : Draft} (h : (a == b) = true)
    (hnamed : AllNamed a.selections ↔ AllNamed b.selections) : SameResult a.build b.build := by
  obtain ⟨directive, name, selections, typeCondition⟩ := a
  obtain ⟨directive', name', selections', typeCondition'⟩ := b
  have hparts : Draft.equal _ _ = true := h
  simp only [Draft.equal, Bool.and_eq_true, beq_iff_eq] at hparts
  obtain ⟨⟨⟨hdirective, rfl⟩, hselections⟩, rfl⟩ := hparts
  rw [build, build]
  simp only [checkSelections_congr _ hnamed]
  split
  · exact .error _
  split
  · exact .error _
  · refine .bind fun _ _ => .ok ?_
    show Fragment.equal _ _ = true
    simp [Fragment.equal, hdirective, hselections]

/-! ### Operations -/

namespace Operation

/-- Equal declarations are the same map, or are refused for the same reason. -/
theorem declareFrom_congr (operationName : String) {declarations others : List (String × Value)}
    (h : (declarations == others) = true) :
    ∀ declared : Arguments,
      declareFrom operationName declared declarations =
        declareFrom operationName declared others := by
  have hall := beq_iff_forall₂.mp h
  clear h
  induction hall with
  | nil => exact fun _ => rfl
  | @cons declaration other rest rest' hfirst _ ih =>
    obtain ⟨name, value⟩ := declaration
    obtain ⟨name', value'⟩ := other
    intro declared
    obtain ⟨hname, hvalue⟩ : (name == name') = true ∧ value.equal value' = true :=
      Bool.and_eq_true_iff.mp hfirst
    obtain rfl := beq_iff_eq.mp hname
    have hkind := Value.kind_of_equal hvalue
    by_cases hplaceholder : value.kind = .placeholder
    · obtain ⟨t, rfl⟩ := Value.exists_of_kind_placeholder hplaceholder
      obtain ⟨u, rfl⟩ := Value.exists_of_kind_placeholder (hkind ▸ hplaceholder)
      obtain rfl : t = u := beq_iff_eq.mp hvalue
      simp only [declareFrom, ih]
    · rw [declareFrom_of_kind_ne _ _ _ _ hplaceholder,
        declareFrom_of_kind_ne _ _ _ _ (hkind ▸ hplaceholder), hkind]

theorem Draft.sameResult_build {a b : Draft} (h : (a == b) = true)
    (hnamed : AllNamed a.selections ↔ AllNamed b.selections) : SameResult a.build b.build := by
  obtain ⟨kind, name, selections, declarations⟩ := a
  obtain ⟨kind', name', selections', declarations'⟩ := b
  have hparts : Draft.equal _ _ = true := h
  simp only [Draft.equal, Bool.and_eq_true, beq_iff_eq] at hparts
  obtain ⟨⟨⟨rfl, rfl⟩, hselections⟩, hdeclarations⟩ := hparts
  rw [build, build]
  simp only [checkSelections_congr _ hnamed, declareFrom_congr name hdeclarations]
  refine .bind fun _ _ => .bind fun m hm => .ok ?_
  have hempty : ∀ entry ∈ (∅ : Arguments).entries, IsDeclaration entry :=
    fun _ h => absurd h List.not_mem_nil
  -- What is declared are types alone, and each of them is equal to itself.
  have hrefl : EquivalentFrom Arguments.equal m := Arguments.equivalentFrom fun entry hentry => by
    obtain ⟨-, t, ht⟩ := isDeclaration_of_declareFrom declarations' hempty hm entry hentry
    rw [ht]
    exact Value.equivalentFrom_placeholder t
  have hself : (m == m) = true := hrefl.refl
  show Operation.equal _ _ = true
  simp [Operation.equal, hselections, hself]

end Operation

/-! ### Drafts with keyed arguments -/

/-- If the product is the draft of a field, its arguments are keyed. -/
def Product.DraftIsKeyed : Product → Prop
  | fieldDraft d => d.arguments.AreKeyed
  | _ => True

/-- Given keyed values, a step keeps the arguments of a draft keyed. -/
theorem Field.Draft.areKeyed_change {d : Draft} {change : Change} (hd : d.arguments.AreKeyed)
    (hvalues : ∀ v ∈ (Call.changeField d change).values, v.IsKeyed) :
    (d.change change).arguments.AreKeyed := by
  cases change with
  | addArgument name value =>
    intro entry hentry
    rcases Entries.mem_put hentry with rfl | hentry
    · exact hvalues value (List.mem_singleton_self value)
    · exact hd entry hentry
  | addArguments arguments =>
    intro entry hentry
    rcases Entries.mem_putAll hentry with hentry | hentry
    · exact hd entry hentry
    · exact hvalues entry.2 (List.mem_map_of_mem hentry)
  | addInlineFragment fragment | addSelection f | addSelections fields | setAlias aliasName =>
    exact hd

/-- Given keyed values and keyed drafts, a call returns no other draft. -/
theorem Call.draftIsKeyed_of_result {call : Call} {p : Product}
    (hvalues : ∀ v ∈ call.values, v.IsKeyed)
    (hoperands : ∀ q ∈ call.operands, ∀ r, Below r q → r.DraftIsKeyed)
    (h : call.result = .ok p) : p.DraftIsKeyed := by
  cases p with
  | fieldDraft d =>
    cases call with
    | draftField name =>
      cases h
      exact fun entry hentry => absurd hentry List.not_mem_nil
    | changeField d change =>
      cases h
      have hd : d.arguments.AreKeyed := hoperands _ (List.mem_cons_self ..) _ .here
      exact Field.Draft.areKeyed_change hd hvalues
    | readPart whole index =>
      have hpart : whole.parts.get index = .fieldDraft d := Except.ok.inj h
      rw [← hpart]
      exact hoperands whole (List.mem_cons_self ..) _ (.part (List.get_mem ..) .here)
    -- No other call returns the draft of a field.
    | nameDirective name | nameField name | fieldOfOperation o aliasName | spread f
    | definition d | document definitions | addDefinition d added | draftInlineFragment
    | changeInlineFragment d change | draftFragment name type | changeFragment d change
    | draftOperation kind | changeOperation d change =>
      cases h
    | directive name arguments | rootField selections | inlineFragmentOnType type selections
    | inlineFragmentUnderDirective d selections | fragment name type selections
    | operation kind name selections | buildField d | buildInlineFragment d | buildFragment d
    | buildOperation d =>
      obtain ⟨_, -, h⟩ := map_eq_ok_iff.mp h
      cases h
  | _ => trivial

/-- The draft of a field that is obtained has keyed arguments. -/
theorem Obtained.areKeyed {d : Field.Draft} (h : Obtained (.fieldDraft d)) :
    d.arguments.AreKeyed := by
  obtain ⟨calls, pool, hsession, hcalls, hp⟩ := h
  exact hsession.forall_below (P := Product.DraftIsKeyed)
    (fun call hcall _ hgiven hresult =>
      Call.draftIsKeyed_of_result (hcalls call hcall) hgiven hresult) _ hp _ .here

/-- The directives of its inline fragments have keyed arguments as well. -/
theorem Obtained.areKeyed_directive {d : Field.Draft} (h : Obtained (.fieldDraft d)) :
    ∀ f ∈ d.inlineFragments, ∀ e ∈ f.directive, e.arguments.AreKeyed := by
  intro f hf e he
  have hdirective : directive e ∈ (inlineFragment f).parts :=
    List.mem_append_left _ (List.mem_map_of_mem (Option.mem_toList.mpr he))
  have hfragment : inlineFragment f ∈ (fieldDraft d).parts :=
    List.mem_append_right _ (List.mem_map_of_mem hf)
  exact h.isKeyed (.part hfragment (.part hdirective .here))

/-! ### Fields -/

/-- The arguments are given in the same order, and what is in them as well. -/
def Arguments.InSameOrder (m n : Arguments) : Prop :=
  (Value.object m.entries).InSameOrder (.object n.entries)

/-- The object of keyed arguments is keyed, since each name is there once. -/
theorem Arguments.AreKeyed.isKeyed_object {m : Arguments} (h : m.AreKeyed) :
    (Value.object m.entries).IsKeyed :=
  Value.isKeyed_object.mpr ⟨m.nodup_keys, h⟩

theorem Arguments.eq_of_beq {m n : Arguments} (hkeyed : m.AreKeyed) (h : (m == n) = true)
    (horder : m.InSameOrder n) : m = n := by
  have hentries := Value.object.inj (Value.eq_of_equal hkeyed.isKeyed_object h horder)
  obtain ⟨entries, _⟩ := m
  obtain ⟨entries', _⟩ := n
  obtain rfl : entries = entries' := hentries
  rfl

/-- Equal arguments have literal forms together. -/
theorem Arguments.haveLiterals_iff_of_beq {m n : Arguments} (hkeyed : m.AreKeyed)
    (h : (m == n) = true) : m.HaveLiterals ↔ n.HaveLiterals := by
  have hobject : ∀ m : Arguments, (Value.object m.entries).HasLiteral ↔ m.HaveLiterals :=
    fun m => Value.hasLiteral_object m.entries
  rw [← hobject, ← hobject]
  constructor
  · intro hm
    have hsymm : (Value.object n.entries).equal (.object m.entries) = true :=
      (Value.equivalentFrom hm hkeyed.isKeyed_object).symm h
    exact Value.HasLiteral.of_equal hsymm hm
  · exact Value.HasLiteral.of_equal h

theorem Directive.eq_of_beq {d d' : Directive} (hkeyed : d.arguments.AreKeyed)
    (h : (d == d') = true) (horder : d.arguments.InSameOrder d'.arguments) : d = d' := by
  obtain ⟨arguments, name⟩ := d
  obtain ⟨arguments', name'⟩ := d'
  have hparts : Directive.equal _ _ = true := h
  simp only [Directive.equal, Bool.and_eq_true, beq_iff_eq] at hparts
  obtain ⟨harguments, rfl⟩ := hparts
  obtain rfl : arguments = arguments' := Arguments.eq_of_beq hkeyed harguments horder
  rfl

/-- Where both fragments have a directive, its arguments are in the same order. -/
def InlineFragment.InSameOrder (f g : InlineFragment) : Prop :=
  ∀ d ∈ f.directive, ∀ d' ∈ g.directive, d.arguments.InSameOrder d'.arguments

theorem InlineFragment.toGraphQL_of_beq {f g : InlineFragment}
    (hkeyed : ∀ d ∈ f.directive, d.arguments.AreKeyed) (h : (f == g) = true)
    (horder : f.InSameOrder g) : f.toGraphQL = g.toGraphQL := by
  obtain ⟨directive, selections, typeCondition⟩ := f
  obtain ⟨directive', selections', typeCondition'⟩ := g
  have hparts : InlineFragment.equal _ _ = true := h
  simp only [InlineFragment.equal, Bool.and_eq_true, beq_iff_eq] at hparts
  obtain ⟨⟨hdirective, hselections⟩, rfl⟩ := hparts
  have hsame : directive = directive' := by
    cases directive with
    | none => cases directive' <;> first | rfl | cases hdirective
    | some d =>
      cases directive' with
      | none => cases hdirective
      | some d' => rw [Directive.eq_of_beq (hkeyed d rfl) hdirective (horder d rfl d' rfl)]
  rw [toGraphQL_eq_layout, toGraphQL_eq_layout, layout_eq, layout_eq, hsame,
    map_toGraphQL_of_beq hselections]

theorem map_toGraphQL_of_inSameOrder {fs gs : List InlineFragment}
    (hkeyed : ∀ f ∈ fs, ∀ d ∈ f.directive, d.arguments.AreKeyed) (h : (fs == gs) = true)
    (horder : List.Forall₂ InlineFragment.InSameOrder fs gs) :
    fs.map InlineFragment.toGraphQL = gs.map InlineFragment.toGraphQL := by
  induction horder with
  | nil => rfl
  | cons hfirst _ ih =>
    rw [List.cons_beq_cons, Bool.and_eq_true] at h
    obtain ⟨hf, hrest⟩ := List.forall_mem_cons.mp hkeyed
    rw [List.map_cons, List.map_cons, InlineFragment.toGraphQL_of_beq hf h.1 hfirst,
      ih hrest h.2]

/-- The text of a field depends on what is below it through the texts of that. -/
theorem Field.toGraphQL_congr {f g : Field} (halias : f.aliasName = g.aliasName)
    (hname : f.name = g.name) (harguments : f.arguments = g.arguments)
    (hfragments : f.inlineFragments.map InlineFragment.toGraphQL =
      g.inlineFragments.map InlineFragment.toGraphQL)
    (hselections : f.selections.map toGraphQL = g.selections.map toGraphQL) :
    f.toGraphQL = g.toGraphQL := by
  rw [toGraphQL_eq_layout, toGraphQL_eq_layout, layout_eq, layout_eq, halias, hname, harguments,
    hfragments, hselections]

namespace Field.Draft

/-- The arguments of both drafts are in the same order, and so are those of the directives of their
inline fragments. -/
structure InSameOrder (a b : Draft) : Prop where
  arguments : a.arguments.InSameOrder b.arguments
  inlineFragments : List.Forall₂ InlineFragment.InSameOrder a.inlineFragments b.inlineFragments

/-- How two drafts of fields compare when they are built. -/
structure BuildsAlike (a b : Draft) : Prop where
  /-- Both are built or both are refused. -/
  built_iff : (∃ f, a.build = .ok f) ↔ ∃ g, b.build = .ok g
  /-- Both are refused for the same reason, or each for the first of its arguments that has no
  literal form. -/
  refused {e e' : BuildError} : a.build = .error e → b.build = .error e' →
    e = e' ∨ a.arguments.check = .error e ∧ b.arguments.check = .error e'
  /-- The parts of what is built are equal. -/
  parts {f g : Field} : a.build = .ok f → b.build = .ok g →
    f.aliasName = g.aliasName ∧ f.name = g.name ∧ (f.arguments == g.arguments) = true ∧
      (f.inlineFragments == g.inlineFragments) = true ∧ (f.selections == g.selections) = true
  /-- With the arguments in the same order the results are the same. -/
  sameResult : a.InSameOrder b → SameResult a.build b.build

/-- Apart from the arguments, a draft is checked by its name, alias and selections. -/
theorem build_eq (d : Draft) :
    d.build = (d.checkRoot >>= fun _ => checkSelections (.field d.name) d.selections) >>=
      fun _ => d.arguments.check >>= fun _ => .ok d.toField := by
  rw [build]
  cases d.checkRoot <;> rfl

/-- Equal drafts pass the checks before that of the arguments alike. -/
theorem checkRoot_congr {a b : Draft} (halias : a.aliasName = b.aliasName) (hname : a.name = b.name)
    (harguments : (a.arguments == b.arguments) = true) : a.checkRoot = b.checkRoot := by
  have hempty : a.arguments.isEmpty = b.arguments.isEmpty := by
    obtain ⟨hlength, -⟩ := Value.equalObjects_iff.mp harguments
    rw [OrderedMap.isEmpty, OrderedMap.isEmpty, Bool.eq_iff_iff, List.isEmpty_iff_length_eq_zero,
      List.isEmpty_iff_length_eq_zero, hlength]
  rw [checkRoot, checkRoot, halias, hname, hempty]

theorem buildsAlike_of_beq {a b : Draft} (ha : Obtained (.fieldDraft a)) (h : (a == b) = true)
    (hnamed : AllNamed a.selections ↔ AllNamed b.selections) : a.BuildsAlike b := by
  have hparts : Draft.equal a b = true := h
  simp only [Draft.equal, Bool.and_eq_true, beq_iff_eq] at hparts
  obtain ⟨⟨⟨⟨halias, harguments⟩, hfragments⟩, hname⟩, hselections⟩ := hparts
  have hchecks : (a.checkRoot >>= fun _ => checkSelections (.field a.name) a.selections) =
      b.checkRoot >>= fun _ => checkSelections (.field b.name) b.selections := by
    rw [checkRoot_congr halias hname harguments, checkSelections_congr _ hnamed, hname]
  constructor
  case built_iff =>
    have hliterals : a.arguments.HaveLiterals ↔ b.arguments.HaveLiterals :=
      Arguments.haveLiterals_iff_of_beq ha.areKeyed harguments
    rw [build_eq, build_eq, hchecks]
    simp only [check_bind_eq_ok_iff, Arguments.check_eq_ok_iff, hliterals, Except.ok.injEq,
      exists_and_left, exists_eq', and_true]
  case refused =>
    intro e e' he he'
    rw [build_eq, hchecks] at he
    rw [build_eq] at he'
    cases hb : b.checkRoot >>= fun _ => checkSelections (.field b.name) b.selections with
    | error e'' =>
      rw [hb] at he he'
      exact .inl ((Except.error.inj he).symm.trans (Except.error.inj he'))
    | ok u =>
      rw [hb] at he he'
      have hcheck : (a.arguments.check >>= fun _ => .ok a.toField) = .error e := he
      have hcheck' : (b.arguments.check >>= fun _ => .ok b.toField) = .error e' := he'
      exact .inr ⟨bind_ok_eq_error_iff.mp hcheck, bind_ok_eq_error_iff.mp hcheck'⟩
  case parts =>
    -- What is built has the parts of the draft.
    intro f g hf hg
    obtain ⟨rfl, -⟩ := build_eq_ok_iff.mp hf
    obtain ⟨rfl, -⟩ := build_eq_ok_iff.mp hg
    exact ⟨halias, hname, harguments, hfragments, hselections⟩
  case sameResult =>
    intro horder
    have hsame := Arguments.eq_of_beq ha.areKeyed harguments horder.arguments
    -- With the same arguments all checks agree, and the texts are made of equal texts.
    rw [build_eq, build_eq, hchecks, hsame]
    refine .bind fun _ _ => .bind fun _ _ => .ok ?_
    have htexts :=
      map_toGraphQL_of_inSameOrder ha.areKeyed_directive hfragments horder.inlineFragments
    have htext : a.toField.toGraphQL = b.toField.toGraphQL :=
      Field.toGraphQL_congr halias hname hsame htexts (map_toGraphQL_of_beq hselections)
    show (a.toField.toGraphQL == b.toField.toGraphQL) = true
    exact beq_iff_eq.mpr htext

end Field.Draft

/-! ### Sessions that are put together -/

theorem Session.append {calls more : List Call} {pool others : List Product}
    (h : Session calls pool) (hmore : Session more others) :
    Session (calls ++ more) (pool ++ others) := by
  induction hmore with
  | start => rwa [List.append_nil, List.append_nil]
  | returns _ hoperands hresult ih =>
    rw [← List.append_assoc, ← List.append_assoc]
    exact .returns ih (fun q hq => List.mem_append_right _ (hoperands q hq)) hresult
  | fails _ hoperands hresult ih =>
    rw [← List.append_assoc]
    exact .fails ih (fun q hq => List.mem_append_right _ (hoperands q hq)) hresult

namespace Obtained

/-- What is obtained by several sessions is returned by a single one. -/
theorem exists_session {ps : List Product} (h : ∀ p ∈ ps, Obtained p) :
    ∃ calls pool, Session calls pool ∧ (∀ call ∈ calls, ∀ v ∈ call.values, v.IsKeyed) ∧
      ∀ p ∈ ps, p ∈ pool := by
  induction ps with
  | nil => exact ⟨[], [], .start, List.forall_mem_nil _, List.forall_mem_nil _⟩
  | cons p ps ih =>
    obtain ⟨⟨calls, pool, hsession, hkeyed, hp⟩, hps⟩ := List.forall_mem_cons.mp h
    obtain ⟨more, others, hmore, hkeyed', hothers⟩ := ih hps
    refine ⟨calls ++ more, pool ++ others, hsession.append hmore, ?_, ?_⟩
    · exact List.forall_mem_append.mpr ⟨hkeyed, hkeyed'⟩
    · exact List.forall_mem_cons.mpr ⟨List.mem_append_left _ hp,
        fun q hq => List.mem_append_right _ (hothers q hq)⟩

/-- What a call returns is obtained if what it is given is. -/
theorem of_call (call : Call) {p : Product} (hoperands : ∀ q ∈ call.operands, Obtained q)
    (hvalues : ∀ v ∈ call.values, v.IsKeyed) (h : call.result = .ok p) : Obtained p := by
  obtain ⟨calls, pool, hsession, hkeyed, hpool⟩ := exists_session hoperands
  refine ⟨calls ++ [call], pool ++ [p], .returns hsession hpool h, ?_, ?_⟩
  · exact List.forall_mem_append.mpr ⟨hkeyed, List.forall_mem_singleton.mpr hvalues⟩
  · exact List.mem_append_right _ (List.mem_singleton_self p)

/-- The draft of a field with one argument more. -/
theorem addArgument {d : Field.Draft} (hd : Obtained (.fieldDraft d)) (name : String)
    {value : Value} (hvalue : value.IsKeyed) : Obtained (.fieldDraft (d.addArgument name value)) :=
  .of_call (.changeField d (.addArgument name value)) (List.forall_mem_singleton.mpr hd)
    (List.forall_mem_singleton.mpr hvalue) rfl

theorem draftField (name : String) : Obtained (.fieldDraft (Field.draft name)) :=
  .of_call (.draftField name) (List.forall_mem_nil _) (List.forall_mem_nil _) rfl

theorem nameField (name : String) : Obtained (.field (Field.ofName name)) :=
  .of_call (.nameField name) (List.forall_mem_nil _) (List.forall_mem_nil _) rfl

/-- The draft of an inline fragment on a type with one selection. -/
theorem draftOnType (type : String) {f : Field} (hf : Obtained (.field f)) :
    Obtained (.inlineFragmentDraft
      ((InlineFragment.draft.setTypeCondition type).addSelection f)) := by
  have hdraft : Obtained (.inlineFragmentDraft InlineFragment.draft) :=
    .of_call .draftInlineFragment (List.forall_mem_nil _) (List.forall_mem_nil _) rfl
  have htype : Obtained (.inlineFragmentDraft (InlineFragment.draft.setTypeCondition type)) :=
    .of_call (.changeInlineFragment _ (.setTypeCondition type))
      (List.forall_mem_singleton.mpr hdraft) (List.forall_mem_nil _) rfl
  exact .of_call (.changeInlineFragment _ (.addSelection f))
    (List.forall_mem_cons.mpr ⟨htype, List.forall_mem_singleton.mpr hf⟩) (List.forall_mem_nil _) rfl

/-- The draft of a field with an inline fragment under a directive with arguments. -/
theorem draftUnderDirective (name directiveName : String) {arguments : Arguments} {f : Field}
    (hvalues : ∀ v ∈ arguments.entries.map Prod.snd, v.IsKeyed)
    (hliterals : arguments.HaveLiterals) (hf : Obtained (.field f)) (hname : f.name ≠ "") :
    Obtained (.fieldDraft ((Field.draft name).addInlineFragment
      ⟨some ⟨arguments, directiveName⟩, [f], none⟩)) := by
  have hdirective : Obtained (.directive ⟨arguments, directiveName⟩) := by
    refine .of_call (.directive directiveName arguments) (List.forall_mem_nil _) hvalues ?_
    have hmade : Directive.withArguments directiveName arguments =
        .ok ⟨arguments, directiveName⟩ :=
      Directive.withArguments_eq_ok_iff.mpr ⟨rfl, ⟨hliterals⟩⟩
    exact map_eq_ok_iff.mpr ⟨_, hmade, rfl⟩
  have hfragment : Obtained (.inlineFragment ⟨some ⟨arguments, directiveName⟩, [f], none⟩) := by
    refine .of_call (.inlineFragmentUnderDirective ⟨arguments, directiveName⟩ [f])
      (List.forall_mem_cons.mpr ⟨hdirective, List.forall_mem_singleton.mpr hf⟩)
      (List.forall_mem_nil _) ?_
    have hlawful : (InlineFragment.mk (some ⟨arguments, directiveName⟩) [f] none).IsLawful :=
      ⟨.inl (by simp), by simp, List.forall_mem_singleton.mpr hname⟩
    exact map_eq_ok_iff.mpr ⟨_, InlineFragment.Draft.build_eq_ok_iff.mpr ⟨rfl, hlawful⟩, rfl⟩
  exact .of_call (.changeField _ (.addInlineFragment _))
    (List.forall_mem_cons.mpr ⟨draftField name, List.forall_mem_singleton.mpr hfragment⟩)
    (List.forall_mem_nil _) rfl

end Obtained

/-! ### What equal drafts build -/

/-- **Equal drafts build the same**, if either both select a root field or neither does.  Drafts of
inline fragments, fragments and operations give equal nodes or the same error.  Of drafts of fields
both are built or both are refused, the parts of what is built are equal, and so is the text if the
arguments are in the same order. -/
theorem buildsAlike_of_equal :
    (∀ {a b : InlineFragment.Draft}, (a == b) = true →
      (AllNamed a.selections ↔ AllNamed b.selections) → SameResult a.build b.build) ∧
    (∀ {a b : Fragment.Draft}, (a == b) = true →
      (AllNamed a.selections ↔ AllNamed b.selections) → SameResult a.build b.build) ∧
    (∀ {a b : Operation.Draft}, (a == b) = true →
      (AllNamed a.selections ↔ AllNamed b.selections) → SameResult a.build b.build) ∧
    ∀ {a b : Field.Draft}, Obtained (.fieldDraft a) → (a == b) = true →
      (AllNamed a.selections ↔ AllNamed b.selections) → a.BuildsAlike b :=
  ⟨InlineFragment.Draft.sameResult_build, Fragment.Draft.sameResult_build,
    Operation.Draft.sameResult_build, Field.Draft.buildsAlike_of_beq⟩

/-- A variable may be given as a string with a dollar sign or as a reference, and arguments in any
order. -/
theorem buildsAlike_of_equal_variable :
    let given : Field := ⟨none, .ofList [("id", .string "$x")], [], "user", []⟩
    let referred : Field := ⟨none, .ofList [("id", .reference "x")], [], "user", []⟩
    let onQuery (f : Field) : InlineFragment.Draft := ⟨none, [f], some "Query"⟩
    let users (f : Field) : Fragment.Draft := ⟨none, "Users", [f], "Query"⟩
    let declaration := ("x", Value.placeholder ⟨.int, true⟩)
    let query (f : Field) : Operation.Draft := ⟨.query, "", [f], [declaration]⟩
    let a := ((Field.draft "user").addArgument "id" (.int 1)).addArgument "size" (.int 2)
    let b := ((Field.draft "user").addArgument "size" (.int 2)).addArgument "id" (.int 1)
    ((onQuery given == onQuery referred) = true ∧
      SameResult (onQuery given).build (onQuery referred).build) ∧
    ((users given == users referred) = true ∧
      SameResult (users given).build (users referred).build) ∧
    ((query given == query referred) = true ∧
      SameResult (query given).build (query referred).build) ∧
    Obtained (.fieldDraft a) ∧ (a == b) = true ∧ a.BuildsAlike b := by
  intro given referred onQuery users declaration query a b
  obtain ⟨hinline, hfragment, hoperation, hfield⟩ := buildsAlike_of_equal
  have hgiven : AllNamed [given] := by simp [AllNamed, given]
  have hreferred : AllNamed [referred] := by simp [AllNamed, referred]
  have hnamed : AllNamed [given] ↔ AllNamed [referred] := iff_of_true hgiven hreferred
  have honQuery : (onQuery given == onQuery referred) = true := by decide +kernel
  have husers : (users given == users referred) = true := by decide +kernel
  have hquery : (query given == query referred) = true := by decide +kernel
  have hab : (a == b) = true := by decide +kernel
  have ha : Obtained (.fieldDraft a) :=
    ((Obtained.draftField "user").addArgument "id" (Value.isKeyed_int 1)).addArgument "size"
      (Value.isKeyed_int 2)
  exact ⟨⟨honQuery, hinline honQuery hnamed⟩, ⟨husers, hfragment husers hnamed⟩,
    ⟨hquery, hoperation hquery hnamed⟩, ha, hab, hfield ha hab Iff.rfl⟩

/-- The order of arguments, also of those of a directive, the sign of zero, and whether a field is a
root field make a difference that equality does not see: each time the drafts are equal and the
results are not. -/
theorem not_sameResult_of_equal :
    let a := ((Field.draft "user").addArgument "id" (.int 1)).addArgument "size" (.int 2)
    let b := ((Field.draft "user").addArgument "size" (.int 2)).addArgument "id" (.int 1)
    let under (arguments : Arguments) := (Field.draft "user").addInlineFragment
      ⟨some ⟨arguments, "page"⟩, [Field.ofName "id"], none⟩
    let c := under (.ofList [("size", .int 2), ("after", .int 1)])
    let d := under (.ofList [("after", .int 1), ("size", .int 2)])
    let north := (Field.draft "tide").addArgument "level" (.float (.ofRank false 0))
    let south := (Field.draft "tide").addArgument "level" (.float (.ofRank true 0))
    let root : Field := ⟨none, ∅, [], "", [Field.ofName "id"]⟩
    let onUser (f : Field) := (InlineFragment.draft.setTypeCondition "User").addSelection f
    (Obtained (.fieldDraft a) ∧ Obtained (.fieldDraft b) ∧ (a == b) = true ∧
      ¬SameResult a.build b.build) ∧
    (Obtained (.fieldDraft c) ∧ Obtained (.fieldDraft d) ∧ (c == d) = true ∧
      ¬SameResult c.build d.build) ∧
    (Obtained (.fieldDraft north) ∧ Obtained (.fieldDraft south) ∧ (north == south) = true ∧
      ¬SameResult north.build south.build) ∧
    (Obtained (.inlineFragmentDraft (onUser root)) ∧
      Obtained (.inlineFragmentDraft (onUser (Field.ofName "\x7b id \x7d"))) ∧
      (onUser root == onUser (Field.ofName "\x7b id \x7d")) = true ∧
      ¬SameResult (onUser root).build (onUser (Field.ofName "\x7b id \x7d")).build) := by
  intro a b under c d north south root onUser
  have hint := Value.isKeyed_int
  have hfloat := Value.isKeyed_float
  have hid : Obtained (.field (Field.ofName "id")) := .nameField "id"
  have hroot : Obtained (.field root) :=
    .of_call (.rootField [Field.ofName "id"]) (List.forall_mem_singleton.mpr hid)
      (List.forall_mem_nil _) rfl
  have hname : (Field.ofName "id").name ≠ "" := by decide
  refine ⟨⟨?_, ?_, ?_, ?_⟩, ⟨?_, ?_, ?_, ?_⟩, ⟨?_, ?_, ?_, ?_⟩, ⟨?_, ?_, ?_, ?_⟩⟩
  · exact ((Obtained.draftField "user").addArgument "id" (hint 1)).addArgument "size" (hint 2)
  · exact ((Obtained.draftField "user").addArgument "size" (hint 2)).addArgument "id" (hint 1)
  · decide +kernel
  · decide +kernel
  · exact Obtained.draftUnderDirective "user" "page"
      (List.forall_mem_cons.mpr ⟨hint 2, List.forall_mem_singleton.mpr (hint 1)⟩)
      (Arguments.check_eq_ok_iff _ |>.mp rfl) hid hname
  · exact Obtained.draftUnderDirective "user" "page"
      (List.forall_mem_cons.mpr ⟨hint 1, List.forall_mem_singleton.mpr (hint 2)⟩)
      (Arguments.check_eq_ok_iff _ |>.mp rfl) hid hname
  · decide +kernel
  · decide +kernel
  · exact (Obtained.draftField "tide").addArgument "level" (hfloat _)
  · exact (Obtained.draftField "tide").addArgument "level" (hfloat _)
  · decide +kernel
  · decide +kernel
  · exact Obtained.draftOnType "User" hroot
  · exact Obtained.draftOnType "User" (Obtained.nameField _)
  · decide +kernel
  · decide +kernel

end QueryComposer
