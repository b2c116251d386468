import Bdp.Library.Table

/-!
# Referential integrity

A table whose rows name other rows of the same table. The table is closed when every name is the
key of a row that may be named; writing a row keeps a closed table closed when the row's own names
are good and the row it replaces was not needed, and erasing a row that nothing names does.
-/

namespace Bdp

variable {ν : Type}

/-- Every row names only rows that satisfy `target`. -/
def Table.Closed (names : ν → List String) (target : ν → Prop) (table : Table ν) : Prop :=
  ∀ (key : String) (row : ν), table[key]? = some row → ∀ name ∈ names row, ∃ found,
    table[name]? = some found ∧ target found

namespace Table.Closed

variable {names : ν → List String} {target : ν → Prop} {table : Table ν} {key : String} {row : ν}

theorem empty : Table.Closed names target ∅ := by
  intro key row h
  rw [Table.lookup_empty] at h
  cases h

section

variable (h : table.Closed names target)
include h

/-- A row may be written when its names are good and a target it replaces stays a target. -/
theorem insert (hnames : ∀ name ∈ names row, ∃ found, table[name]? = some found ∧ target found)
    (hkeep : ∀ old, table[key]? = some old → target old → target row) :
    Table.Closed names target (table.insert key row) := by
  have hold {name : String} (hname : ∃ found, table[name]? = some found ∧ target found) :
      ∃ found, (table.insert key row)[name]? = some found ∧ target found := by
    obtain ⟨found, hfound, htarget⟩ := hname
    rw [Table.lookup_insert]
    split
    · next heq => exact ⟨row, rfl, hkeep found (heq ▸ hfound) htarget⟩
    · exact ⟨found, hfound, htarget⟩
  intro other written hwritten name hname
  rw [Table.lookup_insert] at hwritten
  split at hwritten
  · obtain rfl := Option.some.inj hwritten
    exact hold (hnames name hname)
  · exact hold (h other written hwritten name hname)

/-- A row that no other row names may be erased. -/
theorem erase
    (hunused : ∀ (other : String) (row : ν), table[other]? = some row → other ≠ key → key ∉ names row) :
    Table.Closed names target (table.erase key) := by
  intro other kept hkept name hname
  rw [Table.lookup_erase] at hkept
  split at hkept
  · cases hkept
  next hne =>
  obtain ⟨found, hfound, htarget⟩ := h other kept hkept name hname
  refine ⟨found, ?_, htarget⟩
  rw [Table.lookup_erase, if_neg, hfound]
  rintro rfl
  exact hunused other kept hkept (Ne.symm hne) hname

/-- Closure depends on the names and the target property of the rows alone. -/
theorem transfer {μ : Type} {names' : μ → List String} {target' : μ → Prop} {table' : Table μ}
    (hrows : ∀ (key : String) (row' : μ), table'[key]? = some row' → ∃ row, table[key]? = some row ∧
      names' row' = names row)
    (htargets : ∀ (key : String) (row : ν), table[key]? = some row → target row → ∃ row',
      table'[key]? = some row' ∧ target' row') : table'.Closed names' target' := by
  intro key row' hrow' name hname
  obtain ⟨row, hrow, hnames⟩ := hrows key row' hrow'
  obtain ⟨found, hfound, htarget⟩ := h key row hrow name (hnames ▸ hname)
  exact htargets name found hfound htarget

end

end Table.Closed

end Bdp
