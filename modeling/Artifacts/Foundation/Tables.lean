import Mathlib.Data.List.Nodup
import Mathlib.Data.List.Perm.Basic

/-!
# Tables with a primary key

A table is a list of rows, oldest first, in which no two rows share a key.  The
operations are the statements of a database engine: `insert` refuses a key that is
taken, `replace` drops the row that has it, `update` and `delete` act on the rows
that a condition selects.

That keys are distinct is a field of a table, so every operation proves it where it is defined.
The lemmas say which rows there are after an operation (`mem_…`), and what a lookup by key finds
(`find?_…`).  The order of the rows is kept, for listings are by it.
-/

namespace Artifacts
namespace Foundation

universe u v

/-- Rows with distinct keys. -/
structure Table {α : Type u} {κ : Type v} (key : α → κ) where
  rows : List α
  distinct : (rows.map key).Nodup

namespace Table

variable {α : Type u} {κ : Type v} {key : α → κ}

instance : Membership α (Table key) where
  mem table row := row ∈ table.rows

theorem mem_def {table : Table key} {row : α} : row ∈ table ↔ row ∈ table.rows := Iff.rfl

instance [DecidableEq α] (row : α) (table : Table key) : Decidable (row ∈ table) :=
  inferInstanceAs (Decidable (row ∈ table.rows))

def empty : Table key where
  rows := []
  distinct := List.nodup_nil

/-- `SELECT ... WHERE`. -/
def select (table : Table key) (p : α → Bool) : List α := table.rows.filter p

/-- `UPDATE ... WHERE`, of columns that are not the key. -/
def update (table : Table key) (p : α → Bool) (f : α → α) (hf : ∀ row, key (f row) = key row) :
    Table key where
  rows := table.rows.map fun row => if p row then f row else row
  distinct := by
    have hkeys : (key ∘ fun row => if p row = true then f row else row) = key := by
      funext row
      dsimp only [Function.comp]
      split
      · exact hf row
      · rfl
    rw [List.map_map, hkeys]
    exact table.distinct

/-- `DELETE ... WHERE`. -/
def delete (table : Table key) (p : α → Bool) : Table key where
  rows := table.rows.filter fun row => !p row
  distinct := table.distinct.sublist (List.filter_sublist.map key)

section Keys
variable [DecidableEq κ]

/-- Is there a row with this key? -/
def has (table : Table key) (k : κ) : Bool := table.rows.any fun row => key row == k

/-- The row with this key. -/
def find? (table : Table key) (k : κ) : Option α := table.rows.find? fun row => key row == k

theorem has_iff {table : Table key} {k : κ} : table.has k = true ↔ ∃ row ∈ table, key row = k := by
  unfold has
  rw [List.any_eq_true]
  constructor
  · intro h
    obtain ⟨row, hrow, hkey⟩ := h
    exact ⟨row, hrow, eq_of_beq hkey⟩
  · intro h
    obtain ⟨row, hrow, hkey⟩ := h
    exact ⟨row, hrow, beq_iff_eq.mpr hkey⟩

/-- A row behind all the others. -/
def append (table : Table key) (row : α) (hnew : table.has (key row) = false) : Table key where
  rows := table.rows ++ [row]
  distinct := by
    rw [List.map_append, List.nodup_append]
    refine ⟨table.distinct, List.nodup_singleton _, ?_⟩
    intro k hk k' hk' heq
    obtain ⟨old, hold, rfl⟩ := List.mem_map.mp hk
    rw [List.map_singleton, List.mem_singleton] at hk'
    have htaken : table.has (key row) = true := has_iff.mpr ⟨old, hold, heq.trans hk'⟩
    exact Bool.noConfusion (htaken.symm.trans hnew)

/-- `INSERT`: nothing if the key is taken. -/
def insert (table : Table key) (row : α) : Option (Table key) :=
  if hnew : table.has (key row) = false then some (table.append row hnew) else none

theorem has_delete_key (table : Table key) (k : κ) :
    (table.delete fun row => key row == k).has k = false := by
  rw [Bool.eq_false_iff]
  intro h
  obtain ⟨row, hrow, hkey⟩ := has_iff.mp h
  simpa [hkey] using (List.mem_filter.mp hrow).2

/-- `INSERT OR REPLACE`: the row that has the key goes, the new one comes last. -/
def replace (table : Table key) (row : α) : Table key :=
  (table.delete fun old => key old == key row).append row (has_delete_key table (key row))

end Keys

/-! ### Which rows are there -/

theorem mem_delete {table : Table key} {p : α → Bool} {row : α} :
    row ∈ table.delete p ↔ row ∈ table ∧ p row = false := by
  rw [mem_def, delete, List.mem_filter, Bool.not_eq_true', ← mem_def]

theorem mem_select {table : Table key} {p : α → Bool} {row : α} :
    row ∈ table.select p ↔ row ∈ table ∧ p row = true := by
  rw [select, List.mem_filter, ← mem_def]

/-- Rows selected from a table are as many as any other things that have the same
keys, each once. -/
theorem length_select {β : Type*} {table : Table key} {p : α → Bool} {others : List β} {f : β → κ}
    (hf : (others.map f).Nodup)
    (h : ∀ k, (∃ row ∈ table, p row = true ∧ key row = k) ↔ ∃ other ∈ others, f other = k) :
    (table.select p).length = others.length := by
  have hdistinct : ((table.select p).map key).Nodup :=
    table.distinct.sublist (List.filter_sublist.map key)
  have hsame : ((table.select p).map key).Perm (others.map f) := by
    rw [List.perm_ext_iff_of_nodup hdistinct hf]
    intro k
    rw [List.mem_map, List.mem_map, ← h k]
    constructor
    · rintro ⟨row, hrow, hkey⟩
      obtain ⟨hmem, hp⟩ := mem_select.mp hrow
      exact ⟨row, hmem, hp, hkey⟩
    · rintro ⟨row, hmem, hp, hkey⟩
      exact ⟨row, mem_select.mpr ⟨hmem, hp⟩, hkey⟩
  calc (table.select p).length = ((table.select p).map key).length := (List.length_map key).symm
    _ = (others.map f).length := hsame.length_eq
    _ = others.length := List.length_map f

theorem mem_update {table : Table key} {p : α → Bool} {f : α → α}
    (hf : ∀ row, key (f row) = key row) {row : α} :
    row ∈ table.update p f hf ↔ ∃ old ∈ table, (if p old then f old else old) = row :=
  List.mem_map

/-- Two rows of a table with one key are one row. -/
theorem ext_key {table : Table key} {row row' : α} (hrow : row ∈ table) (hrow' : row' ∈ table)
    (h : key row = key row') : row = row' :=
  List.inj_on_of_nodup_map table.distinct hrow hrow' h

section Keys
variable [DecidableEq κ]

theorem mem_append {table : Table key} {new row : α} {hnew : table.has (key new) = false} :
    row ∈ table.append new hnew ↔ row ∈ table ∨ row = new := by
  rw [mem_def, append, List.mem_append, List.mem_singleton, ← mem_def]

/-- What an `INSERT` that succeeds has done. -/
theorem insert_eq_some {table table' : Table key} {new : α} (h : table.insert new = some table') :
    table.has (key new) = false ∧ ∀ row, row ∈ table' ↔ row ∈ table ∨ row = new := by
  unfold insert at h
  split at h
  · rename_i hnew
    cases h
    exact ⟨hnew, fun row => mem_append⟩
  · cases h

theorem mem_replace {table : Table key} {new row : α} :
    row ∈ table.replace new ↔ row ∈ table ∧ key row ≠ key new ∨ row = new := by
  rw [replace, mem_append, mem_delete, beq_eq_false_iff_ne]

theorem find?_eq_some_iff {table : Table key} {k : κ} {row : α} :
    table.find? k = some row ↔ row ∈ table ∧ key row = k := by
  unfold find?
  constructor
  · intro h
    have hkey := List.find?_some h
    exact ⟨List.mem_of_find?_eq_some h, eq_of_beq hkey⟩
  · intro h
    obtain ⟨hrow, hkey⟩ := h
    cases hfound : table.rows.find? fun row => key row == k with
    | none =>
        have hno := List.find?_eq_none.mp hfound row hrow
        exact absurd (beq_iff_eq.mpr hkey) hno
    | some other =>
        have hother := List.find?_some hfound
        rw [ext_key (List.mem_of_find?_eq_some hfound) hrow ((eq_of_beq hother).trans hkey.symm)]

theorem find?_replace_self (table : Table key) (new : α) :
    (table.replace new).find? (key new) = some new :=
  find?_eq_some_iff.mpr ⟨mem_replace.mpr (Or.inr rfl), rfl⟩

theorem find?_delete_self (table : Table key) (k : κ) :
    (table.delete fun row => key row == k).find? k = none := by
  rw [Option.eq_none_iff_forall_ne_some]
  intro row h
  obtain ⟨hrow, hkey⟩ := find?_eq_some_iff.mp h
  have hkept := (mem_delete.mp hrow).2
  rw [hkey, beq_self_eq_true] at hkept
  exact Bool.noConfusion hkept

/-! ### What a lookup gives -/

theorem isSome_find? (table : Table key) (k : κ) : (table.find? k).isSome = table.has k := by
  rw [Bool.eq_iff_iff, Option.isSome_iff_exists, has_iff]
  exact exists_congr fun row => find?_eq_some_iff

theorem find?_eq_none_iff {table : Table key} {k : κ} :
    table.find? k = none ↔ table.has k = false := by
  rw [← isSome_find?, Option.isSome_eq_false_iff, Option.isNone_iff_eq_none]

/-- A `DELETE` of the row with a key. -/
theorem find?_delete (table : Table key) {p : α → Bool} {k : κ}
    (hp : ∀ row, p row = true ↔ key row = k) (k' : κ) :
    (table.delete p).find? k' = if k' = k then none else table.find? k' := by
  ext row
  rw [find?_eq_some_iff, mem_delete, Bool.eq_false_iff, ne_eq, hp]
  split_ifs with h
  · simp only [iff_false, not_and]
    intro hrow hkey
    exact hrow.2 (hkey.trans h)
  · rw [find?_eq_some_iff, and_assoc]
    refine and_congr_right fun _ => and_iff_right_of_imp ?_
    intro hkey
    rw [hkey]
    exact h

theorem find?_append (table : Table key) (new : α) (hnew : table.has (key new) = false) (k : κ) :
    (table.append new hnew).find? k = if k = key new then some new else table.find? k := by
  split_ifs with h
  · exact find?_eq_some_iff.mpr ⟨mem_append.mpr (Or.inr rfl), h.symm⟩
  · ext row
    rw [find?_eq_some_iff, find?_eq_some_iff, mem_append]
    constructor
    · intro hrow
      obtain ⟨hmem | rfl, hkey⟩ := hrow
      · exact ⟨hmem, hkey⟩
      · exact absurd hkey.symm h
    · intro hrow
      exact ⟨Or.inl hrow.1, hrow.2⟩

theorem find?_replace (table : Table key) (new : α) (k : κ) :
    (table.replace new).find? k = if k = key new then some new else table.find? k := by
  rw [replace, find?_append, find?_delete _ fun _ => beq_iff_eq]
  split_ifs with h
  · rfl
  · rfl

/-- An `INSERT` that does nothing when the key is taken. -/
theorem insert_getD (table : Table key) (new : α) :
    (table.insert new).getD table =
      if hnew : table.has (key new) = false then table.append new hnew else table := by
  unfold insert
  split_ifs with h
  · rfl
  · rfl

end Keys

end Table
end Foundation
end Artifacts
