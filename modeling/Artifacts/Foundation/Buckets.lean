import Mathlib.Algebra.BigOperators.Fin
import Mathlib.Algebra.Order.Group.Nat
import Mathlib.Algebra.Order.BigOperators.Group.List

/-!
# Weights and buckets

Items that are dealt into buckets, some of them into none, and a weight on the items.  What
the buckets hold together weighs no more than the items; where it weighs as much, no item
with a weight was lost.

Weights are natural numbers, items are of any type, and a bucket may be empty.  `sum_buckets` adds
the buckets up, and `eq_of_sum_le` is how a loss in one of them shows in the sum.
-/

namespace Artifacts

/-- Of weights that add up to at least as much, none is smaller. -/
theorem eq_of_sum_le {α : Type} {l : List α} {f g : α → Nat} (hle : ∀ x ∈ l, f x ≤ g x)
    (hsum : (l.map g).sum ≤ (l.map f).sum) : ∀ x ∈ l, f x = g x := by
  intro x hx
  by_contra hne
  have hlt : (l.map f).sum < (l.map g).sum :=
    List.sum_lt_sum f g hle ⟨x, hx, Nat.lt_of_le_of_ne (hle x hx) hne⟩
  omega

/-- The items of a bucket. -/
def bucket {α : Type} (items : List (Option Nat × α)) (k : Nat) : List α :=
  (items.filter fun s => s.1 == some k).map Prod.snd

theorem bucket_cons_of_eq {α : Type} {s : Option Nat × α} {k : Nat} (items : List (Option Nat × α))
    (h : s.1 = some k) : bucket (s :: items) k = s.2 :: bucket items k := by
  simp [bucket, h]

theorem bucket_cons_of_ne {α : Type} {s : Option Nat × α} {k : Nat} (items : List (Option Nat × α))
    (h : s.1 ≠ some k) : bucket (s :: items) k = bucket items k := by
  simp [bucket, h]

theorem mem_bucket {α : Type} {items : List (Option Nat × α)} {k : Nat} {x : α} :
    x ∈ bucket items k ↔ (some k, x) ∈ items := by
  simp [bucket]

/-- The weight of an item that lies in one of the first buckets. -/
def keptWeight {α : Type} (n : Nat) (w : α → Nat) (s : Option Nat × α) : Nat :=
  if ∃ i : Fin n, s.1 = some i.1 then w s.2 else 0

theorem keptWeight_le {α : Type} (n : Nat) (w : α → Nat) (s : Option Nat × α) :
    keptWeight n w s ≤ w s.2 := by
  unfold keptWeight
  split_ifs
  · exact le_refl _
  · exact Nat.zero_le _

/-- One item lies in one bucket at most. -/
theorem sum_single (n : Nat) {α : Type} (w : α → Nat) (s : Option Nat × α) :
    (∑ i : Fin n, if s.1 = some i.1 then w s.2 else 0) = keptWeight n w s := by
  unfold keptWeight
  split_ifs with hkept
  · obtain ⟨i, hi⟩ := hkept
    have hone : ∀ j : Fin n, (s.1 = some j.1) = (i = j) := by
      intro j
      rw [hi, Option.some.injEq, Fin.ext_iff]
    simp only [hone, Finset.sum_ite_eq, Finset.mem_univ, if_true]
  · exact Finset.sum_eq_zero fun i _ => if_neg fun h => hkept ⟨i, h⟩

/-- The buckets hold what was dealt into them. -/
theorem sum_buckets {α : Type} (n : Nat) (w : α → Nat) (items : List (Option Nat × α)) :
    (∑ i : Fin n, ((bucket items i.1).map w).sum) = (items.map (keptWeight n w)).sum := by
  induction items with
  | nil => simp [bucket]
  | cons s items ih =>
      have hcons : ∀ i : Fin n, ((bucket (s :: items) i.1).map w).sum =
          (if s.1 = some i.1 then w s.2 else 0) + ((bucket items i.1).map w).sum := by
        intro i
        by_cases hs : s.1 = some i.1
        · rw [bucket_cons_of_eq items hs, if_pos hs, List.map_cons, List.sum_cons]
        · rw [bucket_cons_of_ne items hs, if_neg hs, Nat.zero_add]
      rw [List.map_cons, List.sum_cons, ← ih, ← sum_single n w s, ← Finset.sum_add_distrib]
      exact Finset.sum_congr rfl fun i _ => hcons i

end Artifacts
