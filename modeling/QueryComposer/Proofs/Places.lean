import QueryComposer.Proofs.Position

/-!
# Places in nested values

The *places* of a JSON value or of an argument value are all the values that stand in it, each with
its position.  They are listed in the order in which they are written: a value comes before what
stands in it, and what stands in one element or member comes before what stands in the next.  In a
proper JSON value the places are exactly its positions (`Json.mem_places_iff`).

Work that goes through a value in this order and reports what it finds wrong reports the
`complaints` about the places, and the first of them names the first place in which something is
found (`head?_complaints`).
-/

namespace QueryComposer

/-- The place as it is seen from before the step. -/
def placeAfter {α : Type} (step : Step) (place : List Step × α) : List Step × α :=
  (step :: place.1, place.2)

/-! ### Places behind a step -/

/-- The element that the step leads to. -/
def Step.element? {α : Type} (elements : List α) : Step → Option α
  | index i => elements[i]?
  | key _ => none

/-- The member that the step leads to. -/
def Step.member? {α : Type} (members : List (String × α)) : Step → Option α
  | index _ => none
  | key name => Entries.find? name members

section Rows

variable {α : Type} {places : α → List (List Step × α)} {p : List Step} {x : α}

/-- What has a place in one of the elements has it behind the index of the element. -/
theorem mem_indexed {row : ℕ → List α → List (List Step × α)} (hnil : ∀ index, row index [] = [])
    (hcons : ∀ index a rest, row index (a :: rest) =
      (places a).map (placeAfter (.index index)) ++ row (index + 1) rest) {elements : List α} :
    ∀ {index}, (p, x) ∈ row index elements ↔
      ∃ i a q, elements[i]? = some a ∧ p = .index (index + i) :: q ∧ (q, x) ∈ places a := by
  induction elements with
  | nil => simp [hnil]
  | cons a rest ih =>
    intro index
    rw [hcons, List.mem_append, List.mem_map, ih]
    constructor
    · rintro (⟨⟨q, x⟩, hq, ⟨⟩⟩ | ⟨i, b, q, hi, rfl, hq⟩)
      · exact ⟨0, a, q, rfl, rfl, hq⟩
      · exact ⟨i + 1, b, q, hi, by rw [Nat.add_right_comm, Nat.add_assoc], hq⟩
    · rintro ⟨i, b, q, hi, rfl, hq⟩
      cases i with
      | zero =>
        obtain rfl := Option.some.inj hi
        exact .inl ⟨(q, x), hq, rfl⟩
      | succ i => exact .inr ⟨i, b, q, hi, by rw [Nat.add_right_comm, Nat.add_assoc], hq⟩

/-- What has a place in one of the members has it behind the key of the member. -/
theorem mem_keyed {row : List (String × α) → List (List Step × α)} (hnil : row [] = [])
    (hcons : ∀ m rest, row (m :: rest) = (places m.2).map (placeAfter (.key m.1)) ++ row rest)
    {members : List (String × α)} :
    (p, x) ∈ row members ↔ ∃ m ∈ members, ∃ q, p = .key m.1 :: q ∧ (q, x) ∈ places m.2 := by
  induction members with
  | nil => simp [hnil]
  | cons m rest ih =>
    have hfirst : (p, x) ∈ (places m.2).map (placeAfter (.key m.1)) ↔
        ∃ q, p = .key m.1 :: q ∧ (q, x) ∈ places m.2 := by
      rw [List.mem_map]
      constructor
      · rintro ⟨⟨q, x⟩, hq, ⟨⟩⟩
        exact ⟨q, rfl, hq⟩
      · rintro ⟨q, rfl, hq⟩
        exact ⟨(q, x), hq, rfl⟩
    rw [hcons, List.mem_append, hfirst, ih]
    simp only [List.mem_cons, or_and_right, exists_or, exists_eq_left]

/-- What stands in the elements behind the step. -/
theorem exists_indexed_iff {elements : List α} {step : Step} :
    (∃ i a q, elements[i]? = some a ∧ step :: p = .index (0 + i) :: q ∧ (q, x) ∈ places a) ↔
      ∃ a, step.element? elements = some a ∧ (p, x) ∈ places a := by
  cases step with
  | key name => simp [Step.element?]
  | index i =>
    constructor
    · rintro ⟨k, a, q, ha, hstep, hq⟩
      obtain ⟨rfl, rfl⟩ : i = k ∧ p = q := by simpa using hstep
      exact ⟨a, ha, hq⟩
    · rintro ⟨a, ha, hp⟩
      exact ⟨i, a, p, ha, by rw [Nat.zero_add], hp⟩

/-- What stands in the members behind the step, where no key occurs twice. -/
theorem exists_keyed_iff {members : List (String × α)} (h : (Entries.keys members).Nodup)
    {step : Step} :
    (∃ m ∈ members, ∃ q, step :: p = .key m.1 :: q ∧ (q, x) ∈ places m.2) ↔
      ∃ a, step.member? members = some a ∧ (p, x) ∈ places a := by
  cases step with
  | index i => simp [Step.member?]
  | key name =>
    constructor
    · rintro ⟨m, hm, q, hstep, hq⟩
      obtain ⟨rfl, rfl⟩ : name = m.1 ∧ p = q := by simpa using hstep
      exact ⟨m.2, Entries.find?_of_mem h hm, hq⟩
    · rintro ⟨a, ha, hp⟩
      exact ⟨(name, a), Entries.mem_of_find? ha, p, rfl, hp⟩

/-- The places in a value are its positions if this is so of the first step. -/
theorem mem_places_iff_descend? {child? : Step → α → Option α} {P : α → Prop}
    (hnil : ∀ {a x}, ([], x) ∈ places a ↔ x = a)
    (hcons : ∀ {a x}, P a → ∀ {step p}, (step :: p, x) ∈ places a ↔
      ∃ c, child? step a = some c ∧ (p, x) ∈ places c)
    (hchild : ∀ {a c}, P a → ∀ {step}, child? step a = some c → P c) {a : α} (h : P a) :
    (p, x) ∈ places a ↔ descend? child? p a = some x := by
  induction p generalizing a with
  | nil => rw [hnil, descend?, Option.some.injEq, eq_comm]
  | cons step p ih =>
    rw [hcons h, descend?, Option.bind_eq_some_iff]
    exact exists_congr fun c => and_congr_right fun hc => ih (hchild h hc)

end Rows

/-! ### JSON values -/

namespace Json

mutual

/-- Everything that stands in the value, with its position, in the order of the text. -/
def places : Json → List (List Step × Json)
  | array elements => ([], array elements) :: elementPlaces 0 elements
  | object members => ([], object members) :: memberPlaces members
  | j => [([], j)]
termination_by structural j => j

/-- The places in the elements of an array from `index` on. -/
def elementPlaces (index : ℕ) : List Json → List (List Step × Json)
  | [] => []
  | j :: rest => j.places.map (placeAfter (.index index)) ++ elementPlaces (index + 1) rest
termination_by structural js => js

/-- The places in the members of an object. -/
def memberPlaces : List (String × Json) → List (List Step × Json)
  | [] => []
  | (key, j) :: rest => j.places.map (placeAfter (.key key)) ++ memberPlaces rest
termination_by structural ms => ms

end

theorem mem_elementPlaces {elements : List Json} {p : List Step} {x : Json} :
    ∀ {index}, (p, x) ∈ elementPlaces index elements ↔
      ∃ i j q, elements[i]? = some j ∧ p = .index (index + i) :: q ∧ (q, x) ∈ j.places :=
  mem_indexed (fun _ => rfl) fun _ _ _ => rfl

theorem mem_memberPlaces {members : List (String × Json)} {p : List Step} {x : Json} :
    (p, x) ∈ memberPlaces members ↔
      ∃ m ∈ members, ∃ q, p = .key m.1 :: q ∧ (q, x) ∈ m.2.places :=
  mem_keyed rfl fun _ _ => rfl

theorem mem_places_nil {j x : Json} : ([], x) ∈ j.places ↔ x = j := by
  cases j with
  | array elements => simp [places, mem_elementPlaces]
  | object members => simp [places, mem_memberPlaces]
  | _ => simp [places]

theorem child?_array (step : Step) (elements : List Json) :
    (array elements).child? step = step.element? elements := by
  cases step with
  | index i => rfl
  | key name => rfl

theorem child?_object {members : List (String × Json)} (h : (Entries.keys members).Nodup)
    (step : Step) : (object members).child? step = step.member? members := by
  cases step with
  | index i => rfl
  | key name => exact Entries.last?_eq_find? h name

/-- In a proper value, what has a place behind a step has it in what stands after the step. -/
theorem mem_places_cons {j x : Json} (h : j.IsProper) {step : Step} {p : List Step} :
    (step :: p, x) ∈ j.places ↔ ∃ c, j.child? step = some c ∧ (p, x) ∈ c.places := by
  cases h with
  | null | bool | integer | float | string => cases step <;> simp [places, child?]
  | @array elements =>
    have hplaces : (step :: p, x) ∈ (array elements).places ↔
        (step :: p, x) ∈ elementPlaces 0 elements := by simp [places]
    rw [hplaces, mem_elementPlaces, exists_indexed_iff, child?_array]
  | @object members _ hnodup =>
    have hplaces : (step :: p, x) ∈ (object members).places ↔
        (step :: p, x) ∈ memberPlaces members := by simp [places]
    rw [hplaces, mem_memberPlaces, exists_keyed_iff hnodup, child?_object hnodup]

theorem IsProper.child? {j c : Json} (h : j.IsProper) {step : Step} (hc : j.child? step = some c) :
    c.IsProper := by
  cases h with
  | null | bool | integer | float | string => cases step <;> cases hc
  | array helements =>
    cases step with
    | key => cases hc
    | index i => exact helements c (List.mem_of_getElem? hc)
  | object hmembers hnodup =>
    cases step with
    | index => cases hc
    | key name =>
      rw [Json.child?, Entries.last?_eq_find? hnodup] at hc
      exact hmembers _ (Entries.mem_of_find? hc)

/-- **In a proper value the places are the positions** at which something stands. -/
theorem mem_places_iff {j x : Json} (h : j.IsProper) {p : List Step} :
    (p, x) ∈ j.places ↔ j.at? p = some x :=
  mem_places_iff_descend? mem_places_nil mem_places_cons IsProper.child? h

end Json

/-! ### Argument values -/

namespace Value

mutual

/-- Everything that stands in the value, with its position, in the order of the text. -/
def places : Value → List (List Step × Value)
  | list elements => ([], list elements) :: elementPlaces 0 elements
  | object members => ([], object members) :: memberPlaces members
  | v => [([], v)]
termination_by structural v => v

/-- The places in the elements of a list from `index` on. -/
def elementPlaces (index : ℕ) : List Value → List (List Step × Value)
  | [] => []
  | v :: rest => v.places.map (placeAfter (.index index)) ++ elementPlaces (index + 1) rest
termination_by structural vs => vs

/-- The places in the members of an object. -/
def memberPlaces : List (String × Value) → List (List Step × Value)
  | [] => []
  | (key, v) :: rest => v.places.map (placeAfter (.key key)) ++ memberPlaces rest
termination_by structural ms => ms

end

theorem mem_elementPlaces {elements : List Value} {p : List Step} {x : Value} :
    ∀ {index}, (p, x) ∈ elementPlaces index elements ↔
      ∃ i v q, elements[i]? = some v ∧ p = .index (index + i) :: q ∧ (q, x) ∈ v.places :=
  mem_indexed (fun _ => rfl) fun _ _ _ => rfl

theorem mem_memberPlaces {members : List (String × Value)} {p : List Step} {x : Value} :
    (p, x) ∈ memberPlaces members ↔
      ∃ m ∈ members, ∃ q, p = .key m.1 :: q ∧ (q, x) ∈ m.2.places :=
  mem_keyed rfl fun _ _ => rfl

theorem child?_list (step : Step) (elements : List Value) :
    (list elements).child? step = step.element? elements := by
  cases step with
  | index i => rfl
  | key name => rfl

theorem child?_object (step : Step) (members : List (String × Value)) :
    (object members).child? step = step.member? members := by
  cases step with
  | index i => rfl
  | key name => rfl

theorem mem_places_nil {v x : Value} : ([], x) ∈ v.places ↔ x = v := by
  cases v with
  | list elements => simp [places, mem_elementPlaces]
  | object members => simp [places, mem_memberPlaces]
  | _ => simp [places]

end Value

/-! ### What is found in the places -/

section Complaints

variable {α : Type} {finding? : α → Option Finding} {path : String}

/-- Of the places, the first in which something is found is the one at the position `p`. -/
def FirstFound (finding? : α → Option Finding) (places : List (List Step × α)) (p : List Step)
    (found : Finding) : Prop :=
  ∃ earlier x later, places = earlier ++ (p, x) :: later ∧
    (∀ place ∈ earlier, finding? place.2 = none) ∧ finding? x = some found

/-- What is reported about the places in the value at `path`. -/
def complaints (finding? : α → Option Finding) (path : String) (places : List (List Step × α)) :
    List BuildError :=
  places.filterMap fun place => (finding? place.2).map (.unsupportedValue (pathAt path place.1))

theorem complaints_append (places more : List (List Step × α)) :
    complaints finding? path (places ++ more) =
      complaints finding? path places ++ complaints finding? path more :=
  List.filterMap_append

theorem complaints_cons (place : List Step × α) (places : List (List Step × α)) :
    complaints finding? path (place :: places) =
      complaints finding? path [place] ++ complaints finding? path places :=
  complaints_append [place] places

/-- A step before the places is a step on the path to them. -/
theorem complaints_placeAfter (step : Step) (places : List (List Step × α)) :
    complaints finding? path (places.map (placeAfter step)) =
      complaints finding? (step.extend path) places :=
  List.filterMap_map

/-- **The first complaint is about the first place in which something is found.** -/
theorem head?_complaints {places : List (List Step × α)} {e : BuildError} :
    (complaints finding? path places).head? = some e ↔
      ∃ p found, FirstFound finding? places p found ∧
        e = .unsupportedValue (pathAt path p) found := by
  rw [complaints, List.head?_filterMap, List.findSome?_eq_some_iff]
  constructor
  · rintro ⟨earlier, ⟨p, x⟩, later, hplaces, hx, hearlier⟩
    obtain ⟨found, hfound, rfl⟩ := Option.map_eq_some_iff.mp hx
    have hnone : ∀ place ∈ earlier, finding? place.2 = none := fun place hplace =>
      Option.map_eq_none_iff.mp (hearlier place hplace)
    exact ⟨p, found, ⟨earlier, x, later, hplaces, hnone, hfound⟩, rfl⟩
  · rintro ⟨p, found, ⟨earlier, x, later, hplaces, hearlier, hx⟩, rfl⟩
    refine ⟨earlier, (p, x), later, hplaces, by rw [hx, Option.map_some], fun place hplace => ?_⟩
    rw [hearlier place hplace, Option.map_none]

/-- There are no complaints when nothing is found in any place. -/
theorem complaints_eq_nil_iff {places : List (List Step × α)} :
    complaints finding? path places = [] ↔ ∀ place ∈ places, finding? place.2 = none := by
  rw [complaints, List.filterMap_eq_nil_iff]
  simp only [Option.map_eq_none_iff]

end Complaints

end QueryComposer
