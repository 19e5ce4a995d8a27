import QueryComposer.Proofs.Description.Violations
import QueryComposer.Proofs.Json.Numeral
import QueryComposer.Proofs.Nodes.Equality
import QueryComposer.Proofs.Nodes.Validation
import QueryComposer.Proofs.Rendering.Apart
import QueryComposer.Proofs.Value.Conversion

/-!
# Paths as addresses

The path in an error tells where something stands, if the path can be taken apart again.  A step to
an element adds the index in brackets and a step to a member adds a point and the key, so a path is
told step by step if no key is empty or has a point or an opening bracket in it
(`Step.flatMap_chars_inj`).  At its beginning a path lacks the point before a key; it is put back
first (`withPoint_pathAt`).

Main statement: `pathAt_addresses`, for the check of arguments and for the conversion of JSON values
alike.
-/

namespace QueryComposer

/-! ### Positions told from their paths -/

/-- A character that begins no step: neither a point nor an opening bracket. -/
def isKeyChar (c : Char) : Bool := c != '.' && c != '['

/-- A key that is not empty and in which no step seems to begin. -/
structure IsPlainKey (key : String) : Prop where
  ne_empty : key ≠ ""
  chars : ∀ c ∈ key.toList, isKeyChar c = true

instance (key : String) : Decidable (IsPlainKey key) :=
  decidable_of_iff (key ≠ "" ∧ key.toList.all isKeyChar = true)
    ⟨fun h => ⟨h.1, List.all_eq_true.mp h.2⟩, fun h => ⟨h.1, List.all_eq_true.mpr h.2⟩⟩

namespace Step

/-- The key of the step, if it has one, is plain. -/
def IsPlain : Step → Prop
  | index _ => True
  | key name => IsPlainKey name

/-- What the step adds to a path that is not empty. -/
def chars : Step → List Char
  | index i => '[' :: Nat.toDigits 10 i ++ [']']
  | key name => '.' :: name.toList

theorem toList_extend {path : String} {step : Step} (h : path = "" → ∃ i, step = index i) :
    (step.extend path).toList = path.toList ++ step.chars := by
  cases step with
  | index i =>
    show (path ++ "[" ++ Nat.repr i ++ "]").toList = _
    simp only [String.toList_append, Nat.toList_repr, chars, List.append_assoc]
    rfl
  | key name =>
    have hpath : path ≠ "" := by
      intro hempty
      obtain ⟨i, hi⟩ := h hempty
      cases hi
    show (if path = "" then name else path ++ "." ++ name).toList = _
    rw [if_neg hpath, String.toList_append, String.toList_append, List.append_assoc]
    rfl

theorem extend_ne_empty {path : String} {step : Step} (h : path = "" → ∃ i, step = index i) :
    step.extend path ≠ "" := by
  intro hempty
  have hchars := (toList_extend h).symm.trans (congrArg String.toList hempty)
  obtain ⟨-, hstep⟩ := List.append_eq_nil_iff.mp hchars
  cases step <;> cases hstep

/-- Behind a plain step follows nothing or another step. -/
theorem leaves_flatMap_chars (p : List Step) : Leaves isKeyChar (p.flatMap chars) := by
  cases p with
  | nil => exact leaves_nil _
  | cons step p =>
    cases step with
    | index i => exact leaves_cons _ (by decide)
    | key name => exact leaves_cons _ (by decide)

/-- A plain step is told from what it adds. -/
theorem chars_append_inj {s t : Step} (hs : s.IsPlain) (ht : t.IsPlain) {a b : List Char}
    (ha : Leaves isKeyChar a) (hb : Leaves isKeyChar b) (h : s.chars ++ a = t.chars ++ b) :
    s = t ∧ a = b := by
  cases s with
  | index i =>
    cases t with
    | index k =>
      -- The digits end at the closing bracket.
      have hdigits : Nat.toDigits 10 i ++ ']' :: a = Nat.toDigits 10 k ++ ']' :: b := by
        simpa [chars] using h
      obtain ⟨hvalue, hrest⟩ := append_inj_of_leaves (Json.allDigits_toDigits i)
        (Json.allDigits_toDigits k) (leaves_cons a (by decide)) (leaves_cons b (by decide)) hdigits
      have hik : i = k := by
        rw [← Json.digitsValue_toDigits i, hvalue, Json.digitsValue_toDigits]
      exact ⟨by rw [hik], (List.cons.inj hrest).2⟩
    | key name => exact absurd (List.cons.inj h).1 (by decide)
  | key name =>
    cases t with
    | index k => exact absurd (List.cons.inj h).1 (by decide)
    | key other =>
      obtain ⟨hname, hrest⟩ :=
        append_inj_of_leaves hs.chars ht.chars ha hb (List.cons.inj h).2
      exact ⟨by rw [String.toList_injective hname], hrest⟩

theorem flatMap_chars_inj {p : List Step} (hp : ∀ step ∈ p, step.IsPlain) :
    ∀ {q : List Step}, (∀ step ∈ q, step.IsPlain) → p.flatMap chars = q.flatMap chars → p = q := by
  induction p with
  | nil =>
    intro q _ h
    cases q with
    | nil => rfl
    | cons step q => cases step <;> cases h
  | cons step p ih =>
    obtain ⟨hstep, hp⟩ := List.forall_mem_cons.mp hp
    intro q hq h
    cases q with
    | nil => cases step <;> cases h
    | cons step' q =>
      obtain ⟨hstep', hrest⟩ := List.forall_mem_cons.mp hq
      obtain ⟨rfl, hchars⟩ := chars_append_inj hstep hstep' (leaves_flatMap_chars p)
        (leaves_flatMap_chars q) h
      rw [ih hp hrest hchars]

end Step

theorem toList_pathAt {path : String} (h : path ≠ "") (p : List Step) :
    (pathAt path p).toList = path.toList ++ p.flatMap Step.chars := by
  induction p generalizing path with
  | nil => exact (List.append_nil _).symm
  | cons step p ih =>
    have hpath : path = "" → ∃ i, step = .index i := fun hempty => absurd hempty h
    show (pathAt (step.extend path) p).toList = _
    rw [ih (Step.extend_ne_empty hpath), Step.toList_extend hpath, List.append_assoc,
      List.flatMap_cons]

/-- The path with the point that a key at its beginning lacks. -/
def withPoint : List Char → List Char
  | [] => []
  | '[' :: rest => '[' :: rest
  | c :: rest => '.' :: c :: rest

theorem withPoint_cons {c : Char} (rest : List Char) (h : isKeyChar c = true) :
    withPoint (c :: rest) = '.' :: c :: rest := by
  rw [withPoint]
  rintro rfl
  exact absurd h (by decide)

/-- With the point put back, the path to a plain position is what its steps add. -/
theorem withPoint_pathAt {p : List Step} (hp : ∀ step ∈ p, step.IsPlain) :
    withPoint (pathAt "" p).toList = p.flatMap Step.chars := by
  cases p with
  | nil => rfl
  | cons step p =>
    have hstep := List.forall_mem_cons.mp hp
    cases step with
    | index i =>
      have hpath : "" = "" → ∃ k, Step.index i = .index k := fun _ => ⟨i, rfl⟩
      show withPoint (pathAt (Step.extend "" (.index i)) p).toList = _
      rw [toList_pathAt (Step.extend_ne_empty hpath), Step.toList_extend hpath]
      rfl
    | key name =>
      obtain ⟨⟨hne, hchars⟩, -⟩ := hstep
      show withPoint (pathAt name p).toList = '.' :: name.toList ++ p.flatMap Step.chars
      rw [toList_pathAt hne]
      cases hname : name.toList with
      | nil => exact absurd (String.toList_eq_nil_iff.mp hname) hne
      | cons c cs => exact withPoint_cons _ (hchars c (hname ▸ List.mem_cons_self))

/-- **Plain positions with the same path are the same.** -/
theorem eq_of_pathAt_eq {path : String} {p q : List Step} (hp : ∀ step ∈ p, step.IsPlain)
    (hq : ∀ step ∈ q, step.IsPlain) (h : pathAt path p = pathAt path q) : p = q := by
  refine Step.flatMap_chars_inj hp hq ?_
  by_cases hpath : path = ""
  · subst hpath
    rw [← withPoint_pathAt hp, h, withPoint_pathAt hq]
  · have hchars := congrArg String.toList h
    rw [toList_pathAt hpath, toList_pathAt hpath] at hchars
    exact List.append_cancel_left hchars

/-- A key with a point in it is not told from two keys. -/
example : pathAt "a" [.key "b.c"] = pathAt "a" [.key "b", .key "c"] := by decide

/-! ### What stands at the positions -/

/-- The keys, if the value is an object. -/
def Json.keys : Json → List String
  | object members => Entries.keys members
  | _ => []

/-- The keys, if the value is an object. -/
def Value.keys : Value → List String
  | object members => Entries.keys members
  | _ => []

/-- What stands in the values of the map, at positions that begin with a key of the map. -/
def OrderedMap.at? {α : Type} (at? : List Step → α → Option α) (m : OrderedMap α) :
    List Step → Option α
  | .key name :: p => (m.get? name).bind (at? p)
  | _ => none

section Positions

variable {α : Type} {keys : α → List String} {p : List Step} {x : α}

/-- All keys are plain, at each position at which something stands. -/
def HasPlainKeys (keys : α → List String) (at? : List Step → Option α) : Prop :=
  ∀ p x, at? p = some x → ∀ key ∈ keys x, IsPlainKey key

/-- If all keys are plain, so are the positions at which something stands. -/
theorem isPlain_of_descend? {child? : Step → α → Option α}
    (hkeys : ∀ {a c name}, child? (.key name) a = some c → name ∈ keys a) :
    ∀ {a}, HasPlainKeys keys (fun p => descend? child? p a) → descend? child? p a = some x →
      ∀ step ∈ p, step.IsPlain := by
  induction p with
  | nil => exact fun _ _ _ h => absurd h List.not_mem_nil
  | cons step p ih =>
    intro a hplain hx
    obtain ⟨c, hc, hx⟩ := Option.bind_eq_some_iff.mp hx
    have hstep : step.IsPlain := by
      cases step with
      | index i => trivial
      | key name => exact hplain [] a rfl name (hkeys hc)
    have hbelow : HasPlainKeys keys (fun q => descend? child? q c) := by
      intro q y hy
      exact hplain (step :: q) y (Option.bind_eq_some_iff.mpr ⟨c, hc, hy⟩)
    exact List.forall_mem_cons.mpr ⟨hstep, ih hbelow hx⟩

/-- It is enough to look at the places. -/
theorem HasPlainKeys.of_places {at? : List Step → Option α} {places : List (List Step × α)}
    (hplaces : ∀ {p x}, (p, x) ∈ places ↔ at? p = some x)
    (h : ∀ place ∈ places, ∀ key ∈ keys place.2, IsPlainKey key) : HasPlainKeys keys at? :=
  fun p x hx => h (p, x) (hplaces.mpr hx)

variable {at? : List Step → α → Option α} {m : OrderedMap α}

theorem OrderedMap.isPlain_of_at?
    (hvalues : ∀ {q a}, HasPlainKeys keys (fun q => at? q a) → at? q a = some x →
      ∀ step ∈ q, step.IsPlain)
    (hnames : ∀ name ∈ m.keys, IsPlainKey name) (hplain : HasPlainKeys keys (m.at? at?))
    (hx : m.at? at? p = some x) : ∀ step ∈ p, step.IsPlain := by
  match p, hx with
  | .key name :: p, hx =>
    obtain ⟨a, ha, hx⟩ := Option.bind_eq_some_iff.mp hx
    have hbelow : HasPlainKeys keys (fun q => at? q a) := fun q y hy =>
      hplain (.key name :: q) y (Option.bind_eq_some_iff.mpr ⟨a, ha, hy⟩)
    have hname : name ∈ m.keys := List.mem_map_of_mem (Entries.mem_of_find? ha)
    exact List.forall_mem_cons.mpr ⟨hnames name hname, hvalues hbelow hx⟩

/-- The places in the values of a map are its positions, if this is so of each value. -/
theorem OrderedMap.exists_place_iff {places : α → List (List Step × α)}
    (h : ∀ entry ∈ m.entries, ∀ {q x}, (q, x) ∈ places entry.2 ↔ at? q entry.2 = some x) :
    (∃ entry ∈ m.entries, ∃ q, p = .key entry.1 :: q ∧ (q, x) ∈ places entry.2) ↔
      m.at? at? p = some x := by
  constructor
  · rintro ⟨entry, hentry, q, rfl, hq⟩
    have hfound := Entries.find?_of_mem m.nodup_keys hentry
    exact Option.bind_eq_some_iff.mpr ⟨entry.2, hfound, (h entry hentry).mp hq⟩
  · intro hx
    match p, hx with
    | .key name :: q, hx =>
      obtain ⟨a, ha, hx⟩ := Option.bind_eq_some_iff.mp hx
      have hentry := Entries.mem_of_find? ha
      exact ⟨(name, a), hentry, q, rfl, (h _ hentry).mpr hx⟩

end Positions

/-! #### JSON values -/

namespace Json

theorem mem_keys_of_child? {j c : Json} {name : String} (h : j.child? (.key name) = some c) :
    name ∈ j.keys := by
  cases j with
  | object members =>
    by_contra hname
    rw [child?, Entries.last?_eq_none hname] at h
    cases h
  | _ => cases h

/-- The places in the members of a map of proper values are the positions in the map. -/
theorem mem_memberPlaces_iff {m : OrderedMap Json} (h : ∀ entry ∈ m.entries, entry.2.IsProper)
    {p : List Step} {x : Json} : (p, x) ∈ memberPlaces m.entries ↔ m.at? at? p = some x :=
  mem_memberPlaces.trans (OrderedMap.exists_place_iff fun entry hentry =>
    mem_places_iff (h entry hentry))

end Json

/-! #### Argument values -/

namespace Value

theorem mem_keys_of_child? {v c : Value} {name : String} (h : v.child? (.key name) = some c) :
    name ∈ v.keys := by
  cases v with
  | object members => exact List.mem_map_of_mem (Entries.mem_of_find? h)
  | _ => cases h

/-- In a keyed value, what has a place behind a step has it in what stands after the step. -/
theorem mem_places_cons {v x : Value} (h : v.IsKeyed) {step : Step} {p : List Step} :
    (step :: p, x) ∈ v.places ↔ ∃ c, v.child? step = some c ∧ (p, x) ∈ c.places := by
  cases v with
  | list elements =>
    have hplaces : (step :: p, x) ∈ (list elements).places ↔
        (step :: p, x) ∈ elementPlaces 0 elements := by simp [places]
    rw [hplaces, mem_elementPlaces, exists_indexed_iff, child?_list]
  | object members =>
    have hplaces : (step :: p, x) ∈ (object members).places ↔
        (step :: p, x) ∈ memberPlaces members := by simp [places]
    rw [hplaces, mem_memberPlaces, exists_keyed_iff (isKeyed_object.mp h).1, child?_object]
  | _ => cases step <;> simp [places, child?]

theorem IsKeyed.child? {v c : Value} (h : v.IsKeyed) {step : Step} (hc : v.child? step = some c) :
    c.IsKeyed := by
  cases v with
  | list elements =>
    cases step with
    | key name => cases hc
    | index i => exact isKeyed_list.mp h c (List.mem_of_getElem? hc)
  | object members =>
    cases step with
    | index i => cases hc
    | key name => exact (isKeyed_object.mp h).2 _ (Entries.mem_of_find? hc)
  | _ => cases step <;> cases hc

/-- In a keyed value the places are the positions at which something stands. -/
theorem mem_places_iff {v x : Value} (h : v.IsKeyed) {p : List Step} :
    (p, x) ∈ v.places ↔ v.at? p = some x :=
  mem_places_iff_descend? mem_places_nil mem_places_cons IsKeyed.child? h

end Value

theorem Arguments.mem_places_iff {arguments : Arguments} (h : arguments.AreKeyed) {p : List Step}
    {x : Value} : (p, x) ∈ arguments.places ↔ arguments.at? Value.at? p = some x :=
  Value.mem_memberPlaces.trans (OrderedMap.exists_place_iff fun entry hentry =>
    Value.mem_places_iff (h entry hentry))

/-! ### Addresses -/

section Addresses

variable {α α' β β' : Type} {finding? : α → Option Finding} {places : List (List Step × α)}
  {finding'? : α' → Option Finding} {places' : List (List Step × α')} {path : String}
  {result : Except BuildError β} {result' : Except BuildError β'}

/-- The paths of what is found in the places are addresses of what stands at the positions. -/
structure Addresses (finding? : α → Option Finding) (at? : List Step → Option α)
    (places : List (List Step × α)) (path : String) (result : Except BuildError β) : Prop where
  /-- Two positions at which something stands have different paths. -/
  injective {p q : List Step} {x y : α} : at? p = some x → at? q = some y →
    pathAt path p = pathAt path q → p = q
  /-- What is reported is the path to the first place in which something is found. -/
  error_iff {e : BuildError} : result = .error e ↔
    ∃ p found, FirstFound finding? places p found ∧ e = .unsupportedValue (pathAt path p) found
  /-- Of everything that stands in the value, a path that is reported determines one. -/
  determines {s : String} {found : Finding} : result = .error (.unsupportedValue s found) →
    ∃ p x, (at? p = some x ∧ pathAt path p = s ∧ finding? x = some found) ∧
      ∀ q y, at? q = some y → pathAt path q = s → q = p ∧ y = x

/-- If something is found first at the same position by both, both report the same path. -/
def ReportAlike (finding? : α → Option Finding) (places : List (List Step × α))
    (result : Except BuildError β) (finding'? : α' → Option Finding)
    (places' : List (List Step × α')) (result' : Except BuildError β') : Prop :=
  ∀ p found found', FirstFound finding? places p found → FirstFound finding'? places' p found' →
    ∃ s, result = .error (.unsupportedValue s found) ∧ result' = .error (.unsupportedValue s found')

theorem addresses_of_settles {at? : List Step → Option α} {Q : β → Prop}
    (hplaces : ∀ {p x}, (p, x) ∈ places ↔ at? p = some x)
    (hplain : ∀ {p x}, at? p = some x → ∀ step ∈ p, step.IsPlain)
    (h : Settles Q result (complaints finding? path places)) :
    Addresses finding? at? places path result := by
  have hinjective : ∀ {p q x y}, at? p = some x → at? q = some y →
      pathAt path p = pathAt path q → p = q :=
    fun hx hy heq => eq_of_pathAt_eq (hplain hx) (hplain hy) heq
  refine ⟨hinjective, h.eq_error_iff.trans head?_complaints, fun {s found} herror => ?_⟩
  obtain ⟨p, found, hfirst, he⟩ := (h.eq_error_iff.trans head?_complaints).mp herror
  obtain ⟨rfl, rfl⟩ := BuildError.unsupportedValue.inj he
  obtain ⟨earlier, x, later, rfl, -, hx⟩ := hfirst
  have hat := hplaces.mp (List.mem_append_right earlier List.mem_cons_self)
  refine ⟨p, x, ⟨hat, rfl, hx⟩, fun q y hy hpath => ?_⟩
  obtain rfl := hinjective hy hat hpath
  exact ⟨rfl, Option.some.inj (hy.symm.trans hat)⟩

theorem reportAlike_of_settles {Q : β → Prop} {Q' : β' → Prop}
    (h : Settles Q result (complaints finding? path places))
    (h' : Settles Q' result' (complaints finding'? path places')) :
    ReportAlike finding? places result finding'? places' result' := by
  intro p found found' hfirst hfirst'
  exact ⟨pathAt path p, h.eq_error_iff.mpr (head?_complaints.mpr ⟨p, found, hfirst, rfl⟩),
    h'.eq_error_iff.mpr (head?_complaints.mpr ⟨p, found', hfirst', rfl⟩)⟩

end Addresses

/-- What is refused among arguments is refused among the members of an object, the name of each
being the path to it. -/
theorem refusedArguments_eq (entries : List (String × Json)) :
    refusedArguments entries = Json.refusedMembers "" entries := by
  induction entries with
  | nil => rfl
  | cons entry rest ih =>
    rw [refusedArguments, List.flatMap_cons, Json.refusedMembers, ← ih]
    rfl

/-- The arguments that a map of JSON values gives are refused for the complaints about it. -/
theorem settles_complaints_ofJsonMembers {m : OrderedMap Json}
    (h : ∀ entry ∈ m.entries, entry.2.IsProper) :
    Settles (fun _ => True) (Arguments.ofJsonMembers m.entries)
      (complaints Json.finding? "" (Json.memberPlaces m.entries)) := by
  have hsettles := settles_ofJsonMembers fun entry hentry => (h entry hentry).isKept
  rw [refusedArguments_eq, Json.refusedMembers_eq fun entry _ => entry.2.refused_eq] at hsettles
  exact hsettles.mono fun _ _ => trivial

/-- **A path that is reported is the address of one value.**  Where neither the names of the
arguments nor the keys at any depth are empty or have a point or an opening bracket in them, two
positions never have the same path, be it in arguments that are checked, in a map of JSON values
that arguments are made of or in a JSON value alone, whatever the name of its argument.  The check
and the conversion report the same path for the same position. -/
theorem pathAt_addresses :
    (∀ arguments : Arguments, arguments.AreKeyed → (∀ name ∈ arguments.keys, IsPlainKey name) →
      HasPlainKeys Value.keys (arguments.at? Value.at?) →
      Addresses Value.finding? (arguments.at? Value.at?) arguments.places "" arguments.check) ∧
    (∀ m : OrderedMap Json, (∀ entry ∈ m.entries, entry.2.IsProper) →
      (∀ name ∈ m.keys, IsPlainKey name) → HasPlainKeys Json.keys (m.at? Json.at?) →
      Addresses Json.finding? (m.at? Json.at?) (Json.memberPlaces m.entries) ""
        (Arguments.ofJsonMembers m.entries)) ∧
    (∀ (argument : String) (j : Json), j.IsProper → HasPlainKeys Json.keys (fun p => j.at? p) →
      Addresses Json.finding? (fun p => j.at? p) j.places argument
        (Value.ofJsonArgument argument j)) ∧
    (∀ (arguments : Arguments) (m : OrderedMap Json), (∀ entry ∈ m.entries, entry.2.IsProper) →
      ReportAlike Value.finding? arguments.places arguments.check
        Json.finding? (Json.memberPlaces m.entries) (Arguments.ofJsonMembers m.entries)) ∧
    ∀ (argument : String) (v : Value) (j : Json), j.IsProper →
      ReportAlike Value.finding? v.places (v.checkLiteral argument)
        Json.finding? j.places (Value.ofJsonArgument argument j) := by
  refine ⟨?arguments, ?members, ?value, ?alike, ?valuesAlike⟩
  case arguments =>
    intro arguments hkeyed hnames hplain
    refine addresses_of_settles (Arguments.mem_places_iff hkeyed) ?_ arguments.settles_check
    exact OrderedMap.isPlain_of_at? (isPlain_of_descend? Value.mem_keys_of_child?) hnames hplain
  case members =>
    intro m hproper hnames hplain
    refine addresses_of_settles (Json.mem_memberPlaces_iff hproper) ?_
      (settles_complaints_ofJsonMembers hproper)
    exact OrderedMap.isPlain_of_at? (isPlain_of_descend? Json.mem_keys_of_child?) hnames hplain
  case value =>
    intro argument j hproper hplain
    refine addresses_of_settles (Json.mem_places_iff hproper) ?_
      (Value.settles_complaints hproper argument)
    exact isPlain_of_descend? Json.mem_keys_of_child? hplain
  case alike =>
    intro arguments m hproper
    exact reportAlike_of_settles arguments.settles_check (settles_complaints_ofJsonMembers hproper)
  case valuesAlike =>
    intro argument v j hproper
    exact reportAlike_of_settles (v.settles_checkLiteral argument)
      (Value.settles_complaints hproper argument)

/-- A key that ends like an index is told from an index. -/
theorem pathAt_addresses_nested :
    let ids : Value := .list [.int 1, .object [("0]", .float .nan)]]
    let arguments : Arguments := .ofList [("filter", .object [("ids", ids)])]
    let j : Json := .array [.integer 1, .object [("0]", .null)]]
    let m : OrderedMap Json := .ofList [("filter", .object [("ids", j)])]
    let p : List Step := [.key "filter", .key "ids", .index 1, .key "0]"]
    arguments.check = .error (.unsupportedValue "filter.ids[1].0]" (.nonFiniteFloat .nan)) ∧
      Arguments.ofJsonMembers m.entries = .error (.unsupportedValue "filter.ids[1].0]" .null) ∧
      Value.ofJsonArgument "" j = .error (.unsupportedValue "[1].0]" .null) ∧
      ∀ q y, arguments.at? Value.at? q = some y → pathAt "" q = "filter.ids[1].0]" → q = p := by
  intro ids arguments j m p
  obtain ⟨harguments, hmembers, hvalue, -⟩ := pathAt_addresses
  have hids : ids.IsKeyed := by
    have hobject : Value.IsKeyed (.object [("0]", .float .nan)]) :=
      Value.isKeyed_object.mpr ⟨by decide, List.forall_mem_singleton.mpr (Value.isKeyed_float _)⟩
    exact Value.isKeyed_list.mpr (List.forall_mem_cons.mpr
      ⟨Value.isKeyed_int 1, List.forall_mem_singleton.mpr hobject⟩)
  have hkeyed : arguments.AreKeyed := List.forall_mem_singleton.mpr
    (Value.isKeyed_object.mpr ⟨by decide, List.forall_mem_singleton.mpr hids⟩)
  have hj : j.IsProper := by
    have hobject : (Json.object [("0]", .null)]).IsProper :=
      .object (List.forall_mem_singleton.mpr .null) (by decide)
    exact .array (List.forall_mem_cons.mpr
      ⟨.integer (by decide) (by decide), List.forall_mem_singleton.mpr hobject⟩)
  have hproper : ∀ entry ∈ m.entries, entry.2.IsProper :=
    List.forall_mem_singleton.mpr (.object (List.forall_mem_singleton.mpr hj) (by decide))
  have hplain : HasPlainKeys Value.keys (arguments.at? Value.at?) :=
    .of_places (Arguments.mem_places_iff hkeyed) (by decide)
  have hplain' : HasPlainKeys Json.keys (m.at? Json.at?) :=
    .of_places (Json.mem_memberPlaces_iff hproper) (by decide)
  have hplain'' : HasPlainKeys Json.keys (fun p => j.at? p) :=
    .of_places (Json.mem_places_iff hj) (by decide)
  have haddresses := harguments arguments hkeyed (by decide) hplain
  have hfirst : FirstFound Value.finding? arguments.places p (.nonFiniteFloat .nan) :=
    ⟨arguments.places.take 4, _, arguments.places.drop 5, rfl, by decide, rfl⟩
  have hfirst' : FirstFound Json.finding? (Json.memberPlaces m.entries) p .null :=
    ⟨(Json.memberPlaces m.entries).take 4, _, (Json.memberPlaces m.entries).drop 5, rfl,
      by decide, rfl⟩
  have hfirst'' : FirstFound Json.finding? j.places (p.drop 2) .null :=
    ⟨j.places.take 3, _, j.places.drop 4, rfl, by decide, rfl⟩
  have hat : arguments.at? Value.at? p = some (.float .nan) := rfl
  exact ⟨haddresses.error_iff.mpr ⟨_, _, hfirst, rfl⟩,
    (hmembers m hproper (by decide) hplain').error_iff.mpr ⟨_, _, hfirst', rfl⟩,
    (hvalue "" j hj hplain'').error_iff.mpr ⟨_, _, hfirst'', rfl⟩,
    fun q y hy hpath => haddresses.injective hy hat hpath⟩

end QueryComposer
