import Mathlib.Data.List.Nodup

/-! The runtime's `Map`: entries with distinct keys, in the order in which the keys were first set.
-/

namespace Js

variable {κ ν : Type}

/-- Entries in insertion order, no two of them under one key. -/
structure Map (κ ν : Type) where
  entries : List (κ × ν)
  distinct : (entries.map Prod.fst).Nodup

namespace Map

/-- Maps with the same entries are the same. -/
@[ext] theorem ext {m n : Map κ ν} (same : m.entries = n.entries) : m = n := by
  cases m; cases n; cases same; rfl

instance [DecidableEq κ] [DecidableEq ν] : DecidableEq (Map κ ν) := fun m n =>
  decidable_of_iff (m.entries = n.entries) ⟨ext, congrArg entries⟩

/-- `new Map()`. -/
def empty : Map κ ν := ⟨[], List.nodup_nil⟩

/-- The keys in insertion order. -/
def keys (m : Map κ ν) : List κ := m.entries.map Prod.fst

variable [DecidableEq κ]

def get (m : Map κ ν) (key : κ) : Option ν := m.entries.lookup key

/-- An entry is found at the head, or else in the rest. -/
private theorem lookup_entry (key first : κ) (content : ν) (rest : List (κ × ν)) :
    ((first, content) :: rest).lookup key = if key = first then some content
      else rest.lookup key := by
  by_cases same : key = first
  · simp [same]
  · have differs : (key == first) = false := by simpa using same
    simp [List.lookup_cons, differs, same]

/-- The entries after a key is set: one that is there keeps its place. -/
def setEntry (key : κ) (value : ν) : List (κ × ν) → List (κ × ν)
  | [] => [(key, value)]
  | entry :: rest => if entry.1 = key then (key, value) :: rest
    else entry :: setEntry key value rest

/-- A key that is set stays where it is, or comes last. -/
theorem map_fst_setEntry (key : κ) (value : ν) (entries : List (κ × ν)) :
    (setEntry key value entries).map Prod.fst
      = if key ∈ entries.map Prod.fst then entries.map Prod.fst
        else entries.map Prod.fst ++ [key] := by
  induction entries with
  | nil => rfl
  | cons entry rest ih =>
    by_cases same : entry.1 = key
    · simp [setEntry, same]
    · by_cases inside : key ∈ rest.map Prod.fst
      · simp only [if_pos inside] at ih
        simp only [setEntry, if_neg same, List.map_cons, ih, List.mem_cons, inside,
          or_true, if_true]
      · simp only [if_neg inside] at ih
        simp only [setEntry, if_neg same, List.map_cons, ih, List.mem_cons, inside, Ne.symm same,
          or_self, if_false,
          List.cons_append]

def set (m : Map κ ν) (key : κ) (value : ν) : Map κ ν where
  entries := setEntry key value m.entries
  distinct := by
    rw [map_fst_setEntry]
    split
    · exact m.distinct
    · rename_i absent
      exact List.nodup_append.mpr ⟨m.distinct, List.nodup_singleton key, by grind⟩

def delete (m : Map κ ν) (key : κ) : Map κ ν where
  entries := m.entries.filter fun entry => entry.1 ≠ key
  distinct := m.distinct.sublist (List.filter_sublist.map Prod.fst)

/-- Nothing is found in the empty map. -/
@[simp] theorem get_empty (key : κ) : (empty : Map κ ν).get key = none := rfl

/-- A key that is set is found, and the others are as they were. -/
theorem lookup_setEntry (key other : κ) (value : ν) (entries : List (κ × ν)) :
    (setEntry key value entries).lookup other = if other = key then some value
      else entries.lookup other := by
  induction entries with
  | nil => by_cases same : other = key <;> simp [setEntry, same]
  | cons entry rest ih =>
    obtain ⟨first, content⟩ := entry
    by_cases hit : first = key
    · subst hit
      by_cases same : other = first <;> simp [setEntry, lookup_entry, same]
    · by_cases same : other = first
      · subst same
        simp [setEntry, hit]
      · simp [setEntry, hit, lookup_entry, same, ih]

/-- A key that was set has its new value, and every other key the old one. -/
theorem get_set (m : Map κ ν) (key other : κ) (value : ν) :
    (m.set key value).get other = if other = key then some value else m.get other :=
  lookup_setEntry key other value m.entries

/-- A key that is set is found. -/
@[simp] theorem get_set_self (m : Map κ ν) (key : κ) (value : ν) :
    (m.set key value).get key = some value := by
  simp [get_set]

/-- Setting a key leaves the others. -/
theorem get_set_of_ne {m : Map κ ν} {key other : κ} (differs : other ≠ key) (value : ν) :
    (m.set key value).get other = m.get other := by
  simp [get_set, differs]

/-- A key that is deleted is gone, and the others are as they were. -/
theorem get_delete (m : Map κ ν) (key other : κ) :
    (m.delete key).get other = if other = key then none else m.get other := by
  -- The entries' order is of no matter, so the statement is about any list.
  have general : ∀ entries : List (κ × ν), (entries.filter fun entry => entry.1 ≠ key).lookup other
      = if other = key then none else entries.lookup other := by
    intro entries
    induction entries with
    | nil => simp
    | cons entry rest ih =>
      obtain ⟨first, content⟩ := entry
      rw [lookup_entry]
      -- An entry under the key is gone, and one under another key is as before.
      by_cases gone : first = key
      · rw [List.filter_cons_of_neg (by simp [gone]), ih]
        grind
      · rw [List.filter_cons_of_pos (by simp [gone]), lookup_entry, ih]
        grind
  exact general m.entries

/-- What is found under a key is the entry with it. -/
theorem get_eq_some {m : Map κ ν} {key : κ} {value : ν} :
    m.get key = some value ↔ (key, value) ∈ m.entries := by
  obtain ⟨entries, distinct⟩ := m
  simp only [get]
  induction entries with
  | nil => simp
  | cons entry rest ih =>
    obtain ⟨first, content⟩ := entry
    simp only [List.map_cons, List.nodup_cons] at distinct
    -- The key stands on this entry and then on no other, or on a later one.
    by_cases same : key = first
    · subst same
      have other : (key, value) ∉ rest := fun inside => distinct.1 (List.mem_map_of_mem inside)
      simp [other, eq_comm]
    · simp [lookup_entry, same, ih distinct.2]

/-- A key that is set stays where it is, or comes last. -/
@[simp] theorem keys_set (m : Map κ ν) (key : κ) (value : ν) :
    (m.set key value).keys = if key ∈ m.keys then m.keys else m.keys ++ [key] :=
  map_fst_setEntry key value m.entries

/-- The keys are those that are found. -/
theorem mem_keys {m : Map κ ν} {key : κ} : key ∈ m.keys ↔ (m.get key).isSome = true := by
  simp [keys, Option.isSome_iff_exists, get_eq_some]

/-! ## Other values under the same keys -/

variable {β : Type}

/-- The map with every value replaced by its image. -/
def mapValues (f : ν → β) (m : Map κ ν) : Map κ β where
  entries := m.entries.map fun entry => (entry.1, f entry.2)
  distinct := by
    rw [List.map_map]
    exact m.distinct

/-- A mapped value is found under its key. -/
theorem get_mapValues (f : ν → β) (m : Map κ ν) (key : κ) :
    (m.mapValues f).get key = (m.get key).map f := by
  have general : ∀ entries : List (κ × ν),
    (entries.map fun entry => (entry.1, f entry.2)).lookup key
      = (entries.lookup key).map f := by
    intro entries
    induction entries with
    | nil => rfl
    | cons entry rest ih =>
      obtain ⟨first, content⟩ := entry
      rw [List.map_cons, lookup_entry, lookup_entry, ih]
      split <;> rfl
  exact general m.entries

/-- Values are mapped before or after one is set. -/
theorem mapValues_set (f : ν → β) (m : Map κ ν) (key : κ) (value : ν) :
    (m.set key value).mapValues f = (m.mapValues f).set key (f value) := by
  have general : ∀ entries : List (κ × ν), (setEntry key value entries).map (fun entry =>
    (entry.1, f entry.2))
      = setEntry key (f value) (entries.map fun entry => (entry.1, f entry.2)) := by
    intro entries
    induction entries with
    | nil => rfl
    | cons entry rest ih =>
      by_cases hit : entry.1 = key <;> simp [setEntry, hit, ih]
  exact Map.ext (general m.entries)

/-- Values are mapped before or after one is deleted. -/
theorem mapValues_delete (f : ν → β) (m : Map κ ν) (key : κ) :
    (m.delete key).mapValues f = (m.mapValues f).delete key := by
  refine Map.ext ?_
  simp only [mapValues, delete, List.filter_map]
  rfl

end Map

end Js
