import Mathlib

/-!
# Keyed tables

Finite tables with one row for each text key, kept in key order as a database keeps the rows of a
primary key. Two tables with the same lookups are equal, so a replayed table and a stored one are
compared by what they hold.
-/

namespace Bdp

/-- At most one row for each key, listed in key order. -/
abbrev Table (ν : Type) := Std.ExtTreeMap String ν compare

namespace Table

variable {ν μ : Type} {table : Table ν} {key other : String} {value : ν}

@[simp]
theorem lookup_empty : (∅ : Table ν)[key]? = none := Std.ExtTreeMap.getElem?_empty

theorem lookup_insert :
    (table.insert key value)[other]? = if key = other then some value else table[other]? := by
  rw [Std.ExtTreeMap.getElem?_insert]
  simp

theorem lookup_insert_self : (table.insert key value)[key]? = some value := by
  rw [lookup_insert, if_pos rfl]

theorem lookup_insert_of_ne (h : key ≠ other) :
    (table.insert key value)[other]? = table[other]? := by
  rw [lookup_insert, if_neg h]

theorem lookup_erase : (table.erase key)[other]? = if key = other then none else table[other]? := by
  rw [Std.ExtTreeMap.getElem?_erase]
  simp

theorem mem_iff_exists : key ∈ table ↔ ∃ found, table[key]? = some found := by
  rw [Std.ExtTreeMap.mem_iff_isSome_getElem?, Option.isSome_iff_exists]

theorem mem_of_lookup (h : table[key]? = some value) : key ∈ table := mem_iff_exists.mpr ⟨value, h⟩

theorem lookup_eq_none_iff : table[key]? = none ↔ key ∉ table := by
  rw [mem_iff_exists]
  cases table[key]? <;> simp

theorem mem_insert : other ∈ table.insert key value ↔ key = other ∨ other ∈ table := by
  rw [Std.ExtTreeMap.mem_insert]
  simp

theorem mem_erase : other ∈ table.erase key ↔ key ≠ other ∧ other ∈ table := by
  rw [Std.ExtTreeMap.mem_erase]
  simp

/-- Tables are determined by their lookups. -/
theorem ext_lookup {left right : Table ν} (h : ∀ key : String, left[key]? = right[key]?) :
    left = right := Std.ExtTreeMap.ext_getElem? h

theorem mem_toList : (key, value) ∈ table.toList ↔ table[key]? = some value :=
  Std.ExtTreeMap.mem_toList_iff_getElem?_eq_some

/-- The rows are listed in strictly ascending key order. -/
theorem toList_sorted (table : Table ν) : (table.toList.map Prod.fst).Pairwise (· < ·) := by
  rw [List.pairwise_map]
  exact table.ordered_keys_toList.imp fun h ↦ compare_lt_iff_lt.mp h

theorem toList_keys_nodup (table : Table ν) : (table.toList.map Prod.fst).Nodup :=
  (toList_sorted table).imp fun h ↦ ne_of_lt h

/-- Replacing an erased row by itself changes nothing. -/
theorem insert_of_lookup (h : table[key]? = some value) : table.insert key value = table := by
  refine ext_lookup fun other ↦ ?_
  rw [lookup_insert]
  split
  · next heq => rw [← heq, h]
  · rfl

section Rows

/-- Insert rows one after another; a later row replaces an earlier one of its key. -/
def insertRows (table : Table ν) (rows : List (String × ν)) : Table ν :=
  rows.foldl (fun table row ↦ table.insert row.1 row.2) table

variable {rows : List (String × ν)} {row : String × ν}

theorem insertRows_of_not_mem (h : key ∉ rows.map Prod.fst) :
    (table.insertRows rows)[key]? = table[key]? := by
  induction rows generalizing table with
  | nil => rfl
  | cons first rows ih =>
    simp only [List.map_cons, List.mem_cons, not_or] at h
    change (insertRows (table.insert first.1 first.2) rows)[key]? = _
    rw [ih h.2, lookup_insert_of_ne (Ne.symm h.1)]

theorem insertRows_of_mem (hnodup : (rows.map Prod.fst).Nodup) (hrow : row ∈ rows) :
    (table.insertRows rows)[row.1]? = some row.2 := by
  induction rows generalizing table with
  | nil => cases hrow
  | cons first rows ih =>
    simp only [List.map_cons, List.nodup_cons] at hnodup
    change (insertRows (table.insert first.1 first.2) rows)[row.1]? = _
    obtain rfl | hrow := List.mem_cons.mp hrow
    · rw [insertRows_of_not_mem hnodup.1, lookup_insert_self]
    · exact ih hnodup.2 hrow

/-- A table is the insertion of its own rows. -/
theorem insertRows_toList (table : Table ν) : insertRows ∅ table.toList = table := by
  refine ext_lookup fun key ↦ ?_
  cases hlookup : table[key]? with
  | none =>
    rw [insertRows_of_not_mem, lookup_empty]
    intro hmem
    obtain ⟨row, hrow, rfl⟩ := List.mem_map.mp hmem
    rw [mem_toList.mp hrow] at hlookup
    cases hlookup
  | some value =>
    exact insertRows_of_mem (toList_keys_nodup table) (mem_toList.mpr hlookup)

end Rows

end Table

end Bdp
