import Mathlib.Data.List.Perm.Basic
import Mathlib.Data.List.Sort

/-!
# Sorting by a key

Rows with distinct keys have one order.

The order of the keys is linear, and the sort is Mathlib's insertion sort.
-/

namespace Artifacts

section Sorting
variable {α κ : Type} [LinearOrder κ] {key : α → κ}

/-- Rows with distinct keys come in ascending order. -/
theorem insertionSort_pairwise_lt {rows : List α} (h : (rows.map key).Nodup) :
    (rows.insertionSort fun a b => key a ≤ key b).Pairwise fun a b => key a < key b := by
  have hsorted : (rows.insertionSort fun a b => key a ≤ key b).Pairwise
      fun a b => key a ≤ key b := by
    have : Std.Total fun a b : α => key a ≤ key b := ⟨fun a b => le_total (key a) (key b)⟩
    have : IsTrans α fun a b => key a ≤ key b := ⟨fun _ _ _ => le_trans⟩
    exact List.pairwise_insertionSort _ rows
  have hperm : ((rows.insertionSort fun a b => key a ≤ key b).map key).Nodup :=
    ((List.perm_insertionSort _ rows).map key).nodup_iff.mpr h
  rw [List.nodup_iff_pairwise_ne, List.pairwise_map] at hperm
  apply (hsorted.and hperm).imp
  intro a b hab
  exact lt_of_le_of_ne hab.1 hab.2

/-- Two ascending lists of the same rows are one list. -/
theorem eq_of_pairwise_lt {rows rows' : List α} (hperm : rows.Perm rows')
    (h : rows.Pairwise fun a b => key a < key b) (h' : rows'.Pairwise fun a b => key a < key b) :
    rows = rows' := by
  apply hperm.eq_of_pairwise _ h h'
  intro a b _ _ hab hba
  exact absurd hba (lt_asymm hab)

end Sorting

end Artifacts
