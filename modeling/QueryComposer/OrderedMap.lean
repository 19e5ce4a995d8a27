/-!
# Maps in order of first insertion

Arguments, variable declarations and object members are maps whose text order is the order in which
their keys were first given.  Writing a key that is already there replaces its value and leaves it
where it stands.

Nested values keep their members as plain lists, so the operations come first on lists (`put`,
`find?`, `collect`); `OrderedMap` packs such a list with the proof that its keys are distinct.
-/

namespace QueryComposer

variable {α β : Type}

/-! ### Lists of entries -/

namespace Entries

/-- The entries after writing `value` under `key`: in place when the key is present, otherwise at
the end. -/
def put (key : String) (value : α) : List (String × α) → List (String × α)
  | [] => [(key, value)]
  | (k, v) :: rest => if k = key then (k, value) :: rest else (k, v) :: put key value rest

/-- The value of the first entry with this key. -/
def find? (key : String) : List (String × α) → Option α
  | [] => none
  | (k, v) :: rest => if k = key then some v else find? key rest

/-- The entries after writing all `pairs` in order. -/
def putAll (entries pairs : List (String × α)) : List (String × α) :=
  pairs.foldl (fun written (key, value) => put key value written) entries

/-- The entries of a map to which the pairs are written in order: of a repeated key the first place
and the last value. -/
def collect (pairs : List (String × α)) : List (String × α) :=
  putAll [] pairs

/-- The keys, in order. -/
def keys (entries : List (String × α)) : List String :=
  entries.map Prod.fst

theorem keys_put (key : String) (value : α) (entries : List (String × α)) :
    keys (put key value entries) =
      if key ∈ keys entries then keys entries else keys entries ++ [key] := by
  induction entries with
  | nil => simp [put, keys]
  | cons entry rest ih =>
    obtain ⟨k, v⟩ := entry
    by_cases h : k = key
    · simp [put, keys, h]
    · have h' : ¬key = k := fun e => h e.symm
      simp only [keys] at ih
      by_cases hm : key ∈ rest.map Prod.fst <;> simp [put, keys, h, h', ih, hm]

theorem nodup_keys_put {entries : List (String × α)} (key : String) (value : α)
    (h : (keys entries).Nodup) : (keys (put key value entries)).Nodup := by
  rw [keys_put]
  split
  · exact h
  · next hm =>
    rw [List.nodup_append]
    refine ⟨h, by simp, ?_⟩
    intro a ha b hb
    simp only [List.mem_singleton] at hb
    rintro rfl
    exact hm (hb ▸ ha)

theorem nodup_keys_putAll {entries : List (String × α)} (pairs : List (String × α))
    (h : (keys entries).Nodup) : (keys (putAll entries pairs)).Nodup := by
  induction pairs generalizing entries with
  | nil => exact h
  | cons pair rest ih => exact ih (nodup_keys_put pair.1 pair.2 h)

end Entries

/-! ### Maps -/

/-- A map from texts to `α` that remembers the order in which its keys were first written. -/
structure OrderedMap (α : Type) where
  /-- The entries in order of first insertion. -/
  entries : List (String × α)
  /-- No key occurs twice. -/
  nodup_keys : (Entries.keys entries).Nodup
deriving DecidableEq

namespace OrderedMap

/-- The map without entries. -/
def empty : OrderedMap α := ⟨[], by simp [Entries.keys]⟩

instance : EmptyCollection (OrderedMap α) := ⟨empty⟩

instance : Inhabited (OrderedMap α) := ⟨empty⟩

/-- Write `value` under `key`; a key that is already there keeps its place. -/
def insert (m : OrderedMap α) (key : String) (value : α) : OrderedMap α :=
  ⟨Entries.put key value m.entries, Entries.nodup_keys_put key value m.nodup_keys⟩

/-- Write all the pairs in order. -/
def insertMany (m : OrderedMap α) (pairs : List (String × α)) : OrderedMap α :=
  ⟨Entries.putAll m.entries pairs, Entries.nodup_keys_putAll pairs m.nodup_keys⟩

/-- The map to which the pairs are written in order. -/
def ofList (pairs : List (String × α)) : OrderedMap α :=
  empty.insertMany pairs

/-- The entries in order of first insertion. -/
def toList (m : OrderedMap α) : List (String × α) := m.entries

/-- The value under the key. -/
def get? (m : OrderedMap α) (key : String) : Option α := Entries.find? key m.entries

/-- The keys in order of first insertion. -/
def keys (m : OrderedMap α) : List String := Entries.keys m.entries

/-- Whether the key is present. -/
def contains (m : OrderedMap α) (key : String) : Bool := m.keys.contains key

/-- The number of entries. -/
def size (m : OrderedMap α) : Nat := m.entries.length

/-- Whether there is no entry. -/
def isEmpty (m : OrderedMap α) : Bool := m.entries.isEmpty

end OrderedMap

end QueryComposer
