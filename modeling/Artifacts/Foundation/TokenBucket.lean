import Mathlib.Algebra.Order.Field.Basic
import Mathlib.Data.List.Basic
import Mathlib.Tactic.Linarith
import Mathlib.Tactic.Ring

/-!
# Token buckets

A bucket holds at most `cap` tokens and gains `rate` of them in a unit of time; a
call is admitted if it finds a token, and takes it.  Times and tokens are numbers of
one linearly ordered field.

`Accounted` ties a bucket to the calls it has admitted.  It survives a refill to a
later time and the taking of a token, and bounds the calls admitted in any span
that starts at the first of them.

A reading from before the last refill is not covered: it is the caller who has to apply the
readings in time.
-/

namespace Artifacts
namespace Foundation

variable {K : Type*} [Field K] [LinearOrder K]

/-- What is in a bucket, and the time it was last filled up to. -/
structure TokenBucket (K : Type*) where
  tokens : K
  lastRefill : K
  deriving DecidableEq

namespace TokenBucket

/-- The tokens a bucket holds at a later time. -/
def levelAt (cap rate : K) (b : TokenBucket K) (now : K) : K :=
  min (b.tokens + (now - b.lastRefill) * rate) cap

/-- The bucket, filled up to a later time. -/
def refill (cap rate : K) (b : TokenBucket K) (now : K) : TokenBucket K where
  tokens := b.levelAt cap rate now
  lastRefill := now

/-- The bucket without a token. -/
def take (b : TokenBucket K) : TokenBucket K where
  tokens := b.tokens - 1
  lastRefill := b.lastRefill

/-- At most `cap` calls at once and `rate` in a unit of time, from the first on. -/
def Bounded (cap rate : K) (admitted : List K) : Prop :=
  ∀ first ∈ admitted.head?, ∀ span : K, 0 ≤ span →
    ((admitted.filter fun t => decide (t ≤ first + span)).length : K) ≤ cap + rate * span

theorem bounded_nil (cap rate : K) : Bounded cap rate [] := by
  intro first hfirst
  cases hfirst

/-- The bucket has admitted these calls, in this order. What was spent since the first of them is
accounted for by the capacity and the refill, and so is every window of them. -/
structure Accounted (cap rate : K) (b : TokenBucket K) (admitted : List K) : Prop where
  nonneg : 0 ≤ b.tokens
  le_cap : b.tokens ≤ cap
  past : ∀ t ∈ admitted, t ≤ b.lastRefill
  spent : ∀ first ∈ admitted.head?,
    (admitted.length : K) + b.tokens ≤ cap + rate * (b.lastRefill - first)
  bounded : Bounded cap rate admitted

variable {cap rate : K} {b : TokenBucket K} {admitted : List K}

/-- A bucket that would be full may as well be replaced by a full one. -/
theorem refill_of_full {now : K} (hfull : cap ≤ b.tokens + (now - b.lastRefill) * rate) :
    b.refill cap rate now = ⟨cap, now⟩ := by
  unfold TokenBucket.refill levelAt
  rw [min_eq_right hfull]

theorem accounted_full (hcap : 0 ≤ cap) (now : K) : Accounted cap rate ⟨cap, now⟩ [] where
  nonneg := hcap
  le_cap := le_refl cap
  past _ h := nomatch h
  spent _ h := nomatch h
  bounded := bounded_nil cap rate

variable [IsStrictOrderedRing K]

theorem Accounted.refill (h : Accounted cap rate b admitted) (hcap : 0 ≤ cap) (hrate : 0 ≤ rate)
    {now : K} (hnow : b.lastRefill ≤ now) :
    Accounted cap rate (b.refill cap rate now) admitted where
  nonneg := by
    have hgain : 0 ≤ (now - b.lastRefill) * rate := mul_nonneg (sub_nonneg.mpr hnow) hrate
    exact le_min (add_nonneg h.nonneg hgain) hcap
  le_cap := min_le_right _ _
  past t ht := le_trans (h.past t ht) hnow
  spent first hfirst := by
    have hspent := h.spent first hfirst
    have hlevel : b.levelAt cap rate now ≤ b.tokens + (now - b.lastRefill) * rate :=
      min_le_left _ _
    show (admitted.length : K) + b.levelAt cap rate now ≤ cap + rate * (now - first)
    calc (admitted.length : K) + b.levelAt cap rate now
        ≤ admitted.length + b.tokens + (now - b.lastRefill) * rate := by linarith
      _ ≤ cap + rate * (b.lastRefill - first) + (now - b.lastRefill) * rate := by linarith
      _ = cap + rate * (now - first) := by ring
  bounded := h.bounded

theorem bounded_append (hrate : 0 ≤ rate) {now : K} (h : Bounded cap rate admitted)
    (hspent : ∀ first ∈ (admitted ++ [now]).head?,
      ((admitted ++ [now]).length : K) ≤ cap + rate * (now - first)) :
    Bounded cap rate (admitted ++ [now]) := by
  intro first hfirst span hspan
  by_cases hwithin : now ≤ first + span
  · -- all of them count
    have hall : ((admitted ++ [now]).filter fun t => decide (t ≤ first + span)).length ≤
        (admitted ++ [now]).length := List.length_filter_le _ _
    have hall' : ((((admitted ++ [now]).filter fun t => decide (t ≤ first + span)).length : Nat) : K)
        ≤ ((admitted ++ [now]).length : K) := Nat.cast_le.mpr hall
    have hbound := hspent first hfirst
    have hlater : rate * (now - first) ≤ rate * span :=
      mul_le_mul_of_nonneg_left (by linarith) hrate
    linarith
  · -- the last one does not, and it is not the first
    rw [List.filter_append, List.filter_singleton, decide_eq_false hwithin, cond_false,
      List.append_nil]
    cases hadmitted : admitted with
    | nil =>
        rw [hadmitted] at hfirst
        obtain rfl : now = first := Option.some.inj hfirst
        exact absurd (le_add_of_nonneg_right hspan) hwithin
    | cons t rest =>
        rw [← hadmitted]
        apply h first _ span hspan
        rw [hadmitted] at hfirst ⊢
        exact hfirst

theorem Accounted.take (h : Accounted cap rate b admitted) (hrate : 0 ≤ rate)
    (htoken : 1 ≤ b.tokens) : Accounted cap rate b.take (admitted ++ [b.lastRefill]) := by
  have hspent : ∀ first ∈ (admitted ++ [b.lastRefill]).head?,
      ((admitted ++ [b.lastRefill]).length : K) + (b.tokens - 1) ≤
        cap + rate * (b.lastRefill - first) := by
    intro first hfirst
    rw [List.length_append, List.length_singleton, Nat.cast_add, Nat.cast_one]
    cases hadmitted : admitted with
    | nil =>
        rw [hadmitted] at hfirst
        obtain rfl : b.lastRefill = first := Option.some.inj hfirst
        have hcap := h.le_cap
        simp only [List.length_nil, Nat.cast_zero, sub_self, mul_zero]
        linarith
    | cons t rest =>
        rw [hadmitted] at hfirst
        have hold := h.spent first (by rw [hadmitted]; exact hfirst)
        rw [hadmitted] at hold
        linarith
  refine ⟨sub_nonneg.mpr htoken, ?_, ?_, hspent, ?_⟩
  · have hcap := h.le_cap
    show b.tokens - 1 ≤ cap
    linarith
  · intro t ht
    rcases List.mem_append.mp ht with hold | hlast
    · exact h.past t hold
    · exact le_of_eq (List.mem_singleton.mp hlast)
  · apply bounded_append hrate h.bounded
    intro first hfirst
    have hbound := hspent first hfirst
    linarith

end TokenBucket
end Foundation
end Artifacts
