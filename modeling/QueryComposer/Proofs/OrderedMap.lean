import Mathlib.Data.List.Induction
import QueryComposer.OrderedMap

/-!
# Looking up what was written

Writing pairs one after the other leaves under each key the value that was written last
(`Entries.find?_collect`), and nothing but what was written (`Entries.mem_collect`).  The keys stand
in the order in which they were written first (`Entries.keys_collect`).  Pairs of which no two have
the same key are kept as they are (`Entries.collect_of_nodup`).
`Entries.last?` is the value of the last entry with a key; where no key occurs twice it is the value
of the only one.
-/

namespace QueryComposer

variable {α β : Type}

namespace Entries

/-- The value of the last entry with this key. -/
def last? (key : String) : List (String × α) → Option α
  | [] => none
  | (k, v) :: rest => (last? key rest).or (if k = key then some v else none)

theorem mem_put {key : String} {value : α} {entries : List (String × α)} {entry : String × α}
    (h : entry ∈ put key value entries) : entry = (key, value) ∨ entry ∈ entries := by
  induction entries with
  | nil => exact .inl (List.mem_singleton.mp h)
  | cons first rest ih =>
    obtain ⟨k, v⟩ := first
    rw [put] at h
    by_cases hk : k = key
    · rw [if_pos hk] at h
      rcases List.mem_cons.mp h with rfl | hrest
      · exact .inl (by rw [hk])
      · exact .inr (List.mem_cons_of_mem _ hrest)
    · rw [if_neg hk] at h
      rcases List.mem_cons.mp h with rfl | hrest
      · exact .inr (List.mem_cons_self ..)
      · exact (ih hrest).imp id (List.mem_cons_of_mem _)

theorem mem_putAll {entries pairs : List (String × α)} {entry : String × α}
    (h : entry ∈ putAll entries pairs) : entry ∈ entries ∨ entry ∈ pairs := by
  induction pairs generalizing entries with
  | nil => exact .inl h
  | cons pair rest ih =>
    rcases ih h with h | h
    · rcases mem_put h with rfl | h
      · exact .inr (List.mem_cons_self ..)
      · exact .inl h
    · exact .inr (List.mem_cons_of_mem _ h)

/-- Every entry of a collected map was written. -/
theorem mem_collect {pairs : List (String × α)} {entry : String × α} (h : entry ∈ collect pairs) :
    entry ∈ pairs :=
  (mem_putAll h).resolve_left List.not_mem_nil

theorem mem_of_find? {key : String} {value : α} {entries : List (String × α)}
    (h : find? key entries = some value) : (key, value) ∈ entries := by
  induction entries with
  | nil => cases h
  | cons first rest ih =>
    obtain ⟨k, v⟩ := first
    rw [find?] at h
    by_cases hk : k = key
    · rw [if_pos hk] at h
      obtain rfl := Option.some.inj h
      exact hk ▸ List.mem_cons_self ..
    · rw [if_neg hk] at h
      exact List.mem_cons_of_mem _ (ih h)

/-- Where no key occurs twice, each entry is found under its key. -/
theorem find?_of_mem {entries : List (String × α)} (h : (keys entries).Nodup) {entry : String × α}
    (hentry : entry ∈ entries) : find? entry.1 entries = some entry.2 := by
  induction entries with
  | nil => cases hentry
  | cons first rest ih =>
    obtain ⟨k, v⟩ := first
    obtain ⟨hk, hrest⟩ : k ∉ keys rest ∧ (keys rest).Nodup := List.nodup_cons.mp h
    rw [find?]
    rcases List.mem_cons.mp hentry with rfl | hmem
    · exact if_pos rfl
    · have hkey : k ≠ entry.1 := by
        rintro rfl
        exact hk (List.mem_map_of_mem hmem)
      rw [if_neg hkey, ih hrest hmem]

theorem find?_put (key k : String) (value : α) (entries : List (String × α)) :
    find? key (put k value entries) = if k = key then some value else find? key entries := by
  induction entries with
  | nil => rfl
  | cons first rest ih =>
    obtain ⟨k', v⟩ := first
    -- The pair is written over the first entry, or somewhere behind it.
    by_cases hk : k' = k
    · rw [put, if_pos hk, find?, find?, hk]
      by_cases hkey : k = key
      · simp only [hkey, if_true]
      · simp only [hkey, if_false]
    · rw [put, if_neg hk, find?, find?, ih]
      by_cases hkey : k' = key
      · rw [if_pos hkey, if_neg fun h => hk (hkey.trans h.symm), if_pos hkey]
      · simp only [hkey, if_false]

/-- Of two values that are written under the same key the second stays. -/
theorem put_put (key : String) (value value' : α) (entries : List (String × α)) :
    put key value' (put key value entries) = put key value' entries := by
  induction entries with
  | nil => exact if_pos rfl
  | cons first rest ih =>
    obtain ⟨k, v⟩ := first
    by_cases hk : k = key
    · rw [put, if_pos hk, put, if_pos hk, put, if_pos hk]
    · rw [put, if_neg hk, put, if_neg hk, ih, put, if_neg hk]

theorem find?_putAll (key : String) (entries pairs : List (String × α)) :
    find? key (putAll entries pairs) = (last? key pairs).or (find? key entries) := by
  induction pairs generalizing entries with
  | nil => rfl
  | cons pair rest ih =>
    obtain ⟨k, v⟩ := pair
    show find? key (putAll (put k v entries) rest) = _
    rw [ih, find?_put, last?, Option.or_assoc]
    by_cases hk : k = key
    · rw [if_pos hk, if_pos hk, Option.some_or]
    · rw [if_neg hk, if_neg hk, Option.none_or]

/-- Under each key of a collected map stands the value that was written last. -/
theorem find?_collect (key : String) (pairs : List (String × α)) :
    find? key (collect pairs) = last? key pairs := by
  rw [collect, find?_putAll]
  exact Option.or_none

theorem collect_eq_nil_iff {pairs : List (String × α)} : collect pairs = [] ↔ pairs = [] := by
  cases pairs with
  | nil => exact Iff.rfl
  | cons pair rest =>
    refine ⟨fun h => ?_, fun h => by cases h⟩
    have hlast : last? pair.1 (pair :: rest) = none := by rw [← find?_collect, h, find?]
    rw [last?, Option.or_eq_none_iff] at hlast
    simp at hlast

theorem last?_eq_none {key : String} {entries : List (String × α)} (h : key ∉ keys entries) :
    last? key entries = none := by
  induction entries with
  | nil => rfl
  | cons first rest ih =>
    obtain ⟨k, v⟩ := first
    obtain ⟨hk, hrest⟩ := List.ne_and_not_mem_of_not_mem_cons h
    rw [last?, ih hrest, Option.none_or, if_neg fun h => hk h.symm]

/-- Where no key occurs twice, the last entry with a key is the first one. -/
theorem last?_eq_find? {entries : List (String × α)} (h : (keys entries).Nodup) (key : String) :
    last? key entries = find? key entries := by
  induction entries with
  | nil => rfl
  | cons first rest ih =>
    obtain ⟨k, v⟩ := first
    obtain ⟨hk, hrest⟩ := List.nodup_cons.mp h
    rw [last?, find?, ih hrest]
    -- The first entry has the key only if none behind it does.
    by_cases hkey : k = key
    · subst hkey
      rw [if_pos rfl, if_pos rfl, ← ih hrest, last?_eq_none hk, Option.none_or]
    · rw [if_neg hkey, if_neg hkey, Option.or_none]

/-- A collected map has each key where it was written first. -/
theorem keys_collect (pairs : List (String × α)) :
    keys (collect pairs) = (keys pairs).eraseDups := by
  induction pairs using List.reverseRecOn with
  | nil => rfl
  | append_singleton pairs pair ih =>
    have hcollect : collect (pairs ++ [pair]) = put pair.1 pair.2 (collect pairs) :=
      List.foldl_append
    have hkeys : keys (pairs ++ [pair]) = keys pairs ++ [pair.1] := List.map_append
    rw [hcollect, keys_put, ih, hkeys, List.eraseDups_append]
    by_cases hmem : pair.1 ∈ keys pairs
    · simp [hmem, List.removeAll]
    · simp [hmem, List.removeAll, List.eraseDups_cons]

theorem nodup_keys_collect (pairs : List (String × α)) : (keys (collect pairs)).Nodup :=
  nodup_keys_putAll pairs (by simp [keys])

theorem last?_collect (key : String) (pairs : List (String × α)) :
    last? key (collect pairs) = last? key pairs := by
  rw [last?_eq_find? (nodup_keys_collect pairs), find?_collect]

theorem last?_map (f : α → β) (key : String) (entries : List (String × α)) :
    last? key (entries.map fun entry => (entry.1, f entry.2)) = (last? key entries).map f := by
  induction entries with
  | nil => rfl
  | cons first rest ih =>
    obtain ⟨k, v⟩ := first
    rw [List.map_cons, last?, last?, ih, Option.map_or]
    by_cases hk : k = key
    · rw [if_pos hk, if_pos hk, Option.map_some]
    · rw [if_neg hk, if_neg hk, Option.map_none]

/-! ### Pairs with distinct keys -/

theorem put_of_not_mem {key : String} (value : α) {entries : List (String × α)}
    (h : key ∉ keys entries) : put key value entries = entries ++ [(key, value)] := by
  induction entries with
  | nil => rfl
  | cons first rest ih =>
    obtain ⟨k, v⟩ := first
    obtain ⟨hk, hrest⟩ := List.ne_and_not_mem_of_not_mem_cons h
    rw [put, if_neg fun h => hk h.symm, ih hrest, List.cons_append]

theorem putAll_of_nodup {entries pairs : List (String × α)} (h : (keys (entries ++ pairs)).Nodup) :
    putAll entries pairs = entries ++ pairs := by
  induction pairs generalizing entries with
  | nil => exact (List.append_nil entries).symm
  | cons pair rest ih =>
    obtain ⟨key, value⟩ := pair
    have hsplit : entries ++ (key, value) :: rest = (entries ++ [(key, value)]) ++ rest := by simp
    have hnew : key ∉ keys entries := by
      rw [keys, List.map_append, List.nodup_append] at h
      exact fun hmem => h.2.2 key hmem key (List.mem_cons_self ..) rfl
    show putAll (put key value entries) rest = _
    rw [put_of_not_mem value hnew, ih (hsplit ▸ h), hsplit]

/-- Pairs of which no two have the same key are kept as they are. -/
theorem collect_of_nodup {pairs : List (String × α)} (h : (keys pairs).Nodup) :
    collect pairs = pairs := by
  have h' : (keys ([] ++ pairs)).Nodup := h
  exact putAll_of_nodup h'

end Entries

/-! ### New keys -/

namespace OrderedMap

variable {m : OrderedMap α} {key : String}

/-- A new key is written behind the others. -/
theorem entries_insert_of_not_mem (value : α) (h : key ∉ m.keys) :
    (m.insert key value).entries = m.entries ++ [(key, value)] :=
  Entries.put_of_not_mem value h

theorem keys_insert_of_not_mem (value : α) (h : key ∉ m.keys) :
    (m.insert key value).keys = m.keys ++ [key] := by
  rw [keys, entries_insert_of_not_mem value h, Entries.keys, List.map_append]
  rfl

end OrderedMap

end QueryComposer
