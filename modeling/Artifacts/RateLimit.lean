import Artifacts.Auth
import Artifacts.Foundation.Runs
import Artifacts.Foundation.TokenBucket
import Artifacts.Rust.Net
import Mathlib.Data.Rat.Cast.Order

/-!
# Rate limits

`RateLimiter` and `IpRateLimiter`: a map of token buckets, one for each subject and
class, or one for each address.  `check` reads the clock first and takes the lock of
its entry afterwards, so that a run is one of single steps: threads read the clock,
and update a bucket with the reading they have, and eviction drops buckets in between.
Floating point is taken as exact rational arithmetic, and times are seconds.

* `Action` is one step of a thread or of eviction; the time of a call is its reading.
* `Accounted` is the invariant of one bucket: what was admitted and what is left in it is no
  more than the budget so far.
* `InTime` and `Patient` are the conditions; without the first a stale reading refills twice.

How much a caller is told to wait is computed, but nothing is promised of it.
-/

namespace Artifacts
namespace RateLimit

open Auth Foundation Rust

/-- Which bucket to charge a call against. -/
inductive Class where
  | create
  | token
  | commit
  | default
  deriving DecidableEq, Repr

/-- A bucket's capacity and fill rate. -/
structure Budget where
  capacity : Nat
  refillPerSec : ℚ
  refill_pos : 0 < refillPerSec

/-- `Budget::per_min`: so many calls at once, and so many a minute in the long run. -/
def Budget.perMin (capacity perMin : Nat) (h : 0 < perMin) : Budget where
  capacity := capacity
  refillPerSec := perMin / 60
  refill_pos := by positivity

/-- The budgets of `RateLimiter::with_defaults`. -/
def defaultBudget : Class → Budget
  | .create => .perMin 20 10 (by decide)
  | .token => .perMin 120 120 (by decide)
  | .commit => ⟨600, 10, by norm_num⟩
  | .default => .perMin 300 300 (by decide)

abbrev Bucket := TokenBucket ℚ

/-- Seconds until a whole token is there, for the `Retry-After` header. -/
def Budget.retryAfterSecs (budget : Budget) (tokens : ℚ) : Nat :=
  max (min (Rat.ceil ((1 - tokens) / budget.refillPerSec)).toNat (2 ^ 64 - 1)) 1

/-- The bucket that `or_insert_with` makes. -/
def Budget.newBucket (budget : Budget) (now : ℚ) : Bucket where
  tokens := budget.capacity
  lastRefill := now

/-- What `check` does to an entry under its lock, with the reading `now`. -/
def Budget.charge (budget : Budget) (entry : Option Bucket) (now : ℚ) : Bucket × Result Unit :=
  let bucket := entry.getD (budget.newBucket now)
  -- `duration_since` of a later instant is zero
  let elapsed := max (now - bucket.lastRefill) 0
  let tokens := min (bucket.tokens + elapsed * budget.refillPerSec) budget.capacity
  if tokens < 1 then (⟨tokens, now⟩, .error (.rateLimited (budget.retryAfterSecs tokens)))
  else (⟨tokens - 1, now⟩, .ok ())

/-- A map of buckets, each with its budget. A caller has no bucket before its first call, and none
again when it was evicted. -/
structure Limiter (κ : Type) where
  budget : κ → Budget
  buckets : κ → Option Bucket

variable {Caller κ : Type}

namespace Limiter

def charge [DecidableEq κ] (limiter : Limiter κ) (key : κ) (now : ℚ) : Limiter κ × Result Unit :=
  let (bucket, answer) := (limiter.budget key).charge (limiter.buckets key) now
  ({ limiter with buckets := Function.update limiter.buckets key (some bucket) }, answer)

/-- `check`, from the moment it has read the clock; some callers are exempt. -/
def check [DecidableEq κ] (keyOf : Caller → Option κ) (limiter : Limiter κ) (caller : Caller) (now : ℚ) :
    Limiter κ × Result Unit :=
  match keyOf caller with
  | none => (limiter, .ok ())
  | some key => limiter.charge key now

/-- `evict_stale`. A bucket that nobody has used for so long is dropped; a clock reading that is
older than the bucket counts as now. -/
def evictStale (limiter : Limiter κ) (now staleAfter : ℚ) : Limiter κ :=
  { limiter with
    buckets := fun key => (limiter.buckets key).filter fun bucket =>
      decide (max (now - bucket.lastRefill) 0 < staleAfter) }

end Limiter

/-- A limiter that nobody has called yet. -/
def Limiter.new (budget : κ → Budget) : Limiter κ where
  budget := budget
  buckets _ := none

/-- Admin principals, and principals without a subject, are exempt. -/
def rateKey : Principal × Class → Option (String × Class)
  | (.admin, _) => none
  | (principal, cls) => principal.subject.map fun subject => (subject, cls)

/-- A `RateLimiter` with its budget for each class. -/
def RateLimiter.new (budgets : Class → Budget) : Limiter (String × Class) :=
  .new fun key => budgets key.2

/-- `RateLimiter::check`. Callers that share a key share a bucket; who has no key, as the admin, is
always let through. -/
def RateLimiter.check (limiter : Limiter (String × Class)) (principal : Principal) (cls : Class)
    (now : ℚ) : Limiter (String × Class) × Result Unit :=
  limiter.check rateKey (principal, cls) now

/-- An `IpRateLimiter` with its budget. -/
def IpRateLimiter.new (budget : Budget) : Limiter IpAddr := .new fun _ => budget

/-- `IpRateLimiter::check`. Every address has a bucket of its own. -/
def IpRateLimiter.check (limiter : Limiter IpAddr) (ip : IpAddr) (now : ℚ) :
    Limiter IpAddr × Result Unit :=
  limiter.check some ip now

/-! ### Threads -/

/-- The calls admitted, after one more was answered. -/
def admittedAfter (admitted : List ℚ) (now : ℚ) : Result Unit → List ℚ
  | .ok () => admitted ++ [now]
  | .error _ => admitted

/-- A limiter with the threads that are inside `check`, and what has happened so far. -/
structure World (Caller κ : Type) where
  clock : ℚ
  limiter : Limiter κ
  /-- What a thread has read and not yet used. -/
  readings : Nat → Option (Caller × ℚ)
  /-- The readings of the calls admitted, in the order they were admitted. -/
  admitted : κ → List ℚ
  /-- The bucket that was dropped and not made anew, and when. -/
  evicted : κ → Option (Bucket × ℚ)

/-- The single steps of the threads. A thread reads the clock and takes the lock later, so its
reading may be older than that of a thread that was faster; evictions may come at any time. -/
inductive Action (Caller : Type) where
  | tick (clock : ℚ)
  | read (thread : Nat) (caller : Caller)
  | update (thread : Nat)
  | evict (staleAfter : ℚ)

namespace World

def start (limiter : Limiter κ) (clock : ℚ) : World Caller κ where
  clock := clock
  limiter := limiter
  readings _ := none
  admitted _ := []
  evicted _ := none

/-- The clock never goes back. -/
def tick (w : World Caller κ) (clock : ℚ) : World Caller κ :=
  { w with clock := max w.clock clock }

def read (w : World Caller κ) (thread : Nat) (caller : Caller) : World Caller κ :=
  match w.readings thread with
  | none => { w with readings := Function.update w.readings thread (some (caller, w.clock)) }
  | some _ => w

/-- What is written down about a call. -/
def note [DecidableEq κ] (w : World Caller κ) (key : κ) (now : ℚ) (answer : Result Unit) :
    World Caller κ :=
  { w with
    admitted := Function.update w.admitted key (admittedAfter (w.admitted key) now answer)
    evicted := Function.update w.evicted key none }

def update [DecidableEq κ] (keyOf : Caller → Option κ) (w : World Caller κ) (thread : Nat) :
    World Caller κ :=
  match w.readings thread with
  | none => w
  | some (caller, now) =>
      let (limiter, answer) := w.limiter.check keyOf caller now
      let w' := { w with limiter := limiter, readings := Function.update w.readings thread none }
      match keyOf caller with
      | none => w'
      | some key => w'.note key now answer

def evict (w : World Caller κ) (staleAfter : ℚ) : World Caller κ :=
  { w with
    limiter := w.limiter.evictStale w.clock staleAfter
    evicted := fun key =>
      match w.limiter.buckets key, (w.limiter.evictStale w.clock staleAfter).buckets key with
      | some bucket, none => some (bucket, w.clock)
      | _, _ => w.evicted key }

def step [DecidableEq κ] (keyOf : Caller → Option κ) (w : World Caller κ) :
    Action Caller → World Caller κ
  | .tick clock => w.tick clock
  | .read thread caller => w.read thread caller
  | .update thread => w.update keyOf thread
  | .evict staleAfter => w.evict staleAfter

end World

/-- From the first call admitted on, no more than the budget allows.  The time of a
call is its reading of the clock. -/
def WithinBudget (key : κ) (w : World Caller κ) : Prop :=
  TokenBucket.Bounded ((w.limiter.budget key).capacity : ℚ) (w.limiter.budget key).refillPerSec
    (w.admitted key)

/-- Eviction waits until a bucket is full again, so that a caller gains nothing by the new bucket it
is given. -/
def Patient (budget : Budget) : Action Caller → Prop
  | .evict staleAfter => budget.capacity / budget.refillPerSec ≤ staleAfter
  | _ => True

/-- No bucket is updated with a reading from before its last update, and none is made
anew with a reading from before its eviction at which the old one was not full. -/
def InTime (keyOf : Caller → Option κ) (key : κ) (w : World Caller κ) : Action Caller → Prop
  | .update thread => ∀ caller now, w.readings thread = some (caller, now) →
      keyOf caller = some key →
      (∀ bucket ∈ w.limiter.buckets key, bucket.lastRefill ≤ now) ∧
        ∀ e ∈ w.evicted key, e.2 ≤ now ∨
          ((w.limiter.budget key).capacity : ℚ) ≤
            e.1.tokens + (now - e.1.lastRefill) * (w.limiter.budget key).refillPerSec
  | _ => True

/-! ### One charge -/

/-- The bucket, filled up to a reading. -/
def Budget.filled (budget : Budget) (bucket : Bucket) (now : ℚ) : Bucket :=
  TokenBucket.refill (budget.capacity : ℚ) budget.refillPerSec bucket now

/-- The bucket has admitted these calls. -/
def Budget.Accounted (budget : Budget) (bucket : Bucket) (admitted : List ℚ) : Prop :=
  TokenBucket.Accounted (budget.capacity : ℚ) budget.refillPerSec bucket admitted

theorem Budget.capacity_nonneg (budget : Budget) : (0 : ℚ) ≤ budget.capacity := Nat.cast_nonneg _

theorem Budget.refill_nonneg (budget : Budget) : 0 ≤ budget.refillPerSec := le_of_lt budget.refill_pos

/-- Filling up a bucket made now changes nothing. -/
theorem Budget.filled_newBucket (budget : Budget) (now : ℚ) :
    budget.filled (budget.newBucket now) now = budget.newBucket now :=
  TokenBucket.refill_of_full (by simp [Budget.newBucket])

/-- In time, a charge fills the bucket up and takes a token if there is one. -/
theorem charge_eq (budget : Budget) {entry : Option Bucket} {now : ℚ}
    (hnow : (entry.getD (budget.newBucket now)).lastRefill ≤ now) :
    budget.charge entry now =
      let filled := budget.filled (entry.getD (budget.newBucket now)) now
      if filled.tokens < 1 then
        (filled, .error (.rateLimited (budget.retryAfterSecs filled.tokens)))
      else (filled.take, .ok ()) := by
  have helapsed : max (now - (entry.getD (budget.newBucket now)).lastRefill) 0 =
      now - (entry.getD (budget.newBucket now)).lastRefill :=
    max_eq_left (sub_nonneg.mpr hnow)
  unfold Budget.charge
  simp only [helapsed]
  rfl

theorem accounted_charge (budget : Budget) {entry : Option Bucket} {now : ℚ} {admitted : List ℚ}
    (hnow : (entry.getD (budget.newBucket now)).lastRefill ≤ now)
    (h : budget.Accounted (budget.filled (entry.getD (budget.newBucket now)) now) admitted) :
    budget.Accounted (budget.charge entry now).1
      (admittedAfter admitted now (budget.charge entry now).2) := by
  rw [charge_eq budget hnow]
  dsimp only
  split_ifs with hempty
  · exact h
  · exact h.take budget.refill_nonneg (not_lt.mp hempty)

theorem charge_lastRefill (budget : Budget) (entry : Option Bucket) (now : ℚ) :
    (budget.charge entry now).1.lastRefill = now := by
  unfold Budget.charge
  dsimp only
  split_ifs <;> rfl

/-! ### What holds between the steps -/

/-- The bucket of a key as it was left, in the map or dropped from it, has admitted
the calls on record; one that was dropped would have been full by then. -/
def Settled (key : κ) (w : World Caller κ) : Prop :=
  match w.limiter.buckets key, w.evicted key with
  | some bucket, _ =>
      (w.limiter.budget key).Accounted bucket (w.admitted key) ∧ bucket.lastRefill ≤ w.clock
  | none, some (bucket, at') =>
      (w.limiter.budget key).Accounted bucket (w.admitted key) ∧ bucket.lastRefill ≤ at' ∧
        ((w.limiter.budget key).capacity : ℚ) ≤
          bucket.tokens + (at' - bucket.lastRefill) * (w.limiter.budget key).refillPerSec
  | none, none => w.admitted key = []

structure Sound (key : κ) (w : World Caller κ) : Prop where
  past : ∀ thread caller now, w.readings thread = some (caller, now) → now ≤ w.clock
  settled : Settled key w

variable {keyOf : Caller → Option κ} {key : κ} {w : World Caller κ}

theorem Settled.withinBudget (h : Settled key w) : WithinBudget key w := by
  unfold Settled at h
  unfold WithinBudget
  split at h
  · exact h.1.bounded
  · exact h.1.bounded
  · rw [h]
    exact TokenBucket.bounded_nil _ _

theorem sound_start (budget : κ → Budget) (clock : ℚ) (key : κ) :
    Sound key (World.start (.new budget) clock : World Caller κ) where
  past _ _ _ h := nomatch h
  settled := rfl

theorem Settled.congr {w' : World Caller κ} (h : Settled key w)
    (hbudget : w'.limiter.budget = w.limiter.budget)
    (hbucket : w'.limiter.buckets key = w.limiter.buckets key)
    (hevicted : w'.evicted key = w.evicted key) (hadmitted : w'.admitted key = w.admitted key)
    (hclock : w.clock ≤ w'.clock) : Settled key w' := by
  unfold Settled at h ⊢
  rw [hbudget, hbucket, hevicted, hadmitted]
  split at h
  · exact ⟨h.1, le_trans h.2 hclock⟩
  · exact h
  · exact h

/-- A dropped bucket that would be full at a reading may be made anew with it. -/
theorem accounted_newBucket {budget : Budget} {old : Bucket} {admitted : List ℚ} {now : ℚ}
    (h : budget.Accounted old admitted)
    (hfull : (budget.capacity : ℚ) ≤ old.tokens + (now - old.lastRefill) * budget.refillPerSec) :
    budget.Accounted (budget.newBucket now) admitted := by
  have hgain : 0 ≤ (now - old.lastRefill) * budget.refillPerSec := by
    have hle := h.le_cap
    linarith
  have hnow : old.lastRefill ≤ now :=
    sub_nonneg.mp (nonneg_of_mul_nonneg_left hgain budget.refill_pos)
  have hfilled := TokenBucket.Accounted.refill h budget.capacity_nonneg budget.refill_nonneg hnow
  rwa [TokenBucket.refill_of_full hfull] at hfilled

/-- A charge in time: the bucket found, or the full one made in place of a dropped one
that would be full itself. -/
theorem Settled.filled (h : Settled key w) {now : ℚ}
    (hentry : ∀ bucket ∈ w.limiter.buckets key, bucket.lastRefill ≤ now)
    (hevicted : ∀ e ∈ w.evicted key, e.2 ≤ now ∨
      ((w.limiter.budget key).capacity : ℚ) ≤
        e.1.tokens + (now - e.1.lastRefill) * (w.limiter.budget key).refillPerSec) :
    ((w.limiter.buckets key).getD ((w.limiter.budget key).newBucket now)).lastRefill ≤ now ∧
      (w.limiter.budget key).Accounted
        ((w.limiter.budget key).filled
          ((w.limiter.buckets key).getD ((w.limiter.budget key).newBucket now)) now)
        (w.admitted key) := by
  unfold Settled at h
  cases hbucket : w.limiter.buckets key with
  | some old =>
      simp only [hbucket] at h
      have hin : old.lastRefill ≤ now := hentry old hbucket
      exact ⟨hin, TokenBucket.Accounted.refill h.1 (Budget.capacity_nonneg _)
        (Budget.refill_nonneg _) hin⟩
  | none =>
      rw [Option.getD_none, Budget.filled_newBucket]
      refine ⟨le_refl now, ?_⟩
      cases hold : w.evicted key with
      | none =>
          simp only [hbucket, hold] at h
          rw [h]
          exact TokenBucket.accounted_full (Budget.capacity_nonneg _) now
      | some e =>
          simp only [hbucket, hold] at h
          obtain ⟨haccounted, hbefore, hfull⟩ := h
          apply accounted_newBucket haccounted
          rcases hevicted e hold with hafter | hfull'
          · -- full when it was dropped, so full at any later reading
            have hlater : (e.2 - e.1.lastRefill) * (w.limiter.budget key).refillPerSec ≤
                (now - e.1.lastRefill) * (w.limiter.budget key).refillPerSec :=
              mul_le_mul_of_nonneg_right (by linarith) (Budget.refill_nonneg _)
            linarith
          · exact hfull'

theorem Sound.evict (h : Sound key w) {staleAfter : ℚ}
    (hpatient : @Patient Caller (w.limiter.budget key) (.evict staleAfter)) :
    Sound key (w.evict staleAfter) := by
  refine ⟨h.past, ?_⟩
  have hsettled := h.settled
  unfold Settled at hsettled ⊢
  cases hbucket : w.limiter.buckets key with
  | none =>
      simp only [World.evict, Limiter.evictStale, hbucket, Option.filter_none]
      simpa only [hbucket] using hsettled
  | some bucket =>
      simp only [hbucket] at hsettled
      obtain ⟨haccounted, hclock⟩ := hsettled
      by_cases hfresh : max (w.clock - bucket.lastRefill) 0 < staleAfter
      · simp only [World.evict, Limiter.evictStale, hbucket, Option.filter_some, hfresh,
          decide_true, if_true]
        exact ⟨haccounted, hclock⟩
      · simp only [World.evict, Limiter.evictStale, hbucket, Option.filter_some, hfresh,
          decide_false, Bool.false_eq_true, if_false]
        refine ⟨haccounted, hclock, ?_⟩
        have hwait : (w.limiter.budget key).capacity / (w.limiter.budget key).refillPerSec ≤
            w.clock - bucket.lastRefill := by
          rw [max_eq_left (sub_nonneg.mpr hclock)] at hfresh
          exact le_trans hpatient (not_lt.mp hfresh)
        have hgain := (div_le_iff₀ (w.limiter.budget key).refill_pos).mp hwait
        have hnonneg := haccounted.nonneg
        linarith

theorem Sound.read (h : Sound key w) (thread : Nat) (caller : Caller) :
    Sound key (w.read thread caller) := by
  unfold World.read
  split
  · refine ⟨?_, h.settled⟩
    intro other caller' now' hother
    dsimp only at hother ⊢
    by_cases hsame : other = thread
    · rw [hsame, Function.update_self] at hother
      cases hother
      exact le_refl w.clock
    · rw [Function.update_of_ne hsame] at hother
      exact h.past other caller' now' hother
  · exact h

variable [DecidableEq κ]

theorem Sound.update (h : Sound key w) {thread : Nat} (hin : InTime keyOf key w (.update thread)) :
    Sound key (w.update keyOf thread) := by
  unfold World.update
  split
  · exact h
  · rename_i caller now hreading
    have hclock := h.past thread caller now hreading
    have hpast : ∀ other caller' now',
        Function.update w.readings thread none other = some (caller', now') → now' ≤ w.clock := by
      intro other caller' now' hother
      by_cases hsame : other = thread
      · rw [hsame, Function.update_self] at hother
        cases hother
      · rw [Function.update_of_ne hsame] at hother
        exact h.past other caller' now' hother
    unfold Limiter.check
    cases hkey : keyOf caller with
    | none => exact ⟨hpast, h.settled⟩
    | some key' =>
        refine ⟨hpast, ?_⟩
        by_cases hsame : key' = key
        · subst hsame
          obtain ⟨hentry, hevicted⟩ := hin caller now hreading hkey
          obtain ⟨hnow, hfilled⟩ := h.settled.filled hentry hevicted
          have hcharged := accounted_charge _ hnow hfilled
          have hlast := charge_lastRefill (w.limiter.budget key') (w.limiter.buckets key') now
          simp only [Settled, World.note, Limiter.charge, Function.update_self]
          exact ⟨hcharged, hlast.le.trans hclock⟩
        · -- another entry
          apply h.settled.congr
          · rfl
          · exact Function.update_of_ne (Ne.symm hsame) _ _
          · exact Function.update_of_ne (Ne.symm hsame) _ _
          · exact Function.update_of_ne (Ne.symm hsame) _ _
          · exact le_refl w.clock

theorem World.step_budget (w : World Caller κ) (a : Action Caller) :
    (w.step keyOf a).limiter.budget = w.limiter.budget := by
  cases a with
  | tick clock => rfl
  | read thread caller =>
      show (w.read thread caller).limiter.budget = _
      unfold World.read
      split <;> rfl
  | update thread =>
      show (w.update keyOf thread).limiter.budget = _
      unfold World.update Limiter.check
      split
      · rfl
      · cases hkey : keyOf _ <;> rfl
  | evict staleAfter => rfl

theorem Sound.step (h : Sound key w) {a : Action Caller} (hpatient : Patient (w.limiter.budget key) a)
    (hin : InTime keyOf key w a) : Sound key (w.step keyOf a) := by
  cases a with
  | tick clock =>
      have hclock : w.clock ≤ max w.clock clock := le_max_left _ _
      exact ⟨fun thread caller now hread => le_trans (h.past thread caller now hread) hclock,
        h.settled.congr rfl rfl rfl rfl hclock⟩
  | read thread caller => exact h.read thread caller
  | update thread => exact h.update hin
  | evict staleAfter => exact h.evict hpatient

theorem withinBudget_of_inTime (keyOf : Caller → Option κ) (budget : κ → Budget) (clock : ℚ)
    (key : κ) {actions : List (Action Caller)} (hpatient : ∀ a ∈ actions, Patient (budget key) a)
    (hrun : EveryStep (World.step keyOf) (InTime keyOf key) (.start (.new budget) clock) actions) :
    EveryState (World.step keyOf) (WithinBudget key) (.start (.new budget) clock) actions := by
  refine everyState_of_everyStep (I := fun w => Sound key w ∧ w.limiter.budget = budget)
    (fun w h => h.1.settled.withinBudget) ?_ ⟨sound_start budget clock key, rfl⟩
    (hrun.and (everyStep_of_forall hpatient))
  rintro w a ⟨hsound, hbudget⟩ ⟨hin, hwait⟩
  rw [← hbudget] at hwait
  exact ⟨hsound.step hwait hin, (w.step_budget a).trans hbudget⟩

/-- **Readings applied in time keep to the budget.** For one subject and class, or for one address,
over every interleaving of threads in `check` with evictions that wait for a full bucket: if each
update comes with a reading no older than the last one applied to its entry, or than the eviction of
it, then the calls admitted up to a time after the first are at most the capacity and what is
refilled in that time. The budgets are any. A bucket counts in rationals here, where the source has
floating point. -/
theorem checks_within_budget (budgets : Class → Budget) (ipBudget : Budget) (clock : ℚ) :
    (∀ (subject : String) (cls : Class) (actions : List (Action (Principal × Class))),
        (∀ a ∈ actions, Patient (budgets cls) a) →
        EveryStep (World.step rateKey) (InTime rateKey (subject, cls))
          (.start (RateLimiter.new budgets) clock) actions →
        EveryState (World.step rateKey) (WithinBudget (subject, cls))
          (.start (RateLimiter.new budgets) clock) actions) ∧
      ∀ (ip : IpAddr) (actions : List (Action IpAddr)),
        (∀ a ∈ actions, Patient ipBudget a) →
        EveryStep (World.step some) (InTime some ip) (.start (IpRateLimiter.new ipBudget) clock)
          actions →
        EveryState (World.step some) (WithinBudget ip) (.start (IpRateLimiter.new ipBudget) clock)
          actions := by
  constructor
  · intro subject cls actions hpatient hrun
    exact withinBudget_of_inTime rateKey _ clock (subject, cls) hpatient hrun
  · intro ip actions hpatient hrun
    exact withinBudget_of_inTime some _ clock ip hpatient hrun

/-- Two calls, with an eviction in between. -/
def quietCalls : List (Action (Principal × Class)) :=
  [.read 1 (.user "alice", .create), .update 1, .tick 120, .evict 120,
    .read 1 (.user "alice", .create), .update 1]

theorem quietCalls_within_budget :
    EveryState (World.step rateKey) (WithinBudget ("alice", .create))
      (.start (RateLimiter.new defaultBudget) 0) quietCalls := by
  apply (checks_within_budget defaultBudget (defaultBudget .default) 0).1
  · intro a ha
    simp only [quietCalls, List.mem_cons, List.not_mem_nil, or_false] at ha
    rcases ha with rfl | rfl | rfl | rfl | rfl | rfl
    all_goals first | trivial | norm_num [Patient, defaultBudget, Budget.perMin]
  · refine ⟨trivial, ?_, trivial, trivial, trivial, ?_, trivial⟩
    · intro caller now _ _
      exact ⟨fun _ h => (nomatch h), fun _ h => (nomatch h)⟩
    · -- the eviction was at 120, and so is the reading
      intro caller now hread _
      have hnow : (some ((Principal.user "alice", Class.create), (120 : ℚ))) = some (caller, now) :=
        Eq.trans (by decide +kernel) hread
      cases hnow
      decide +kernel

/-- One call from start to end. -/
def wholeCall (thread : Nat) : List (Action (Principal × Class)) :=
  [.read thread (.user "alice", .create), .update thread]

/-- Twenty calls at once, a reading that one thread keeps to itself, and six seconds
later a call on either side of the update with it. -/
def staleReading : List (Action (Principal × Class)) :=
  (List.replicate 20 (wholeCall 1)).flatten ++ [.read 2 (.user "alice", .create), .tick 6] ++
    wholeCall 1 ++ [.update 2] ++ wholeCall 1

/-- Twenty-two calls are admitted where twenty-one would be. -/
theorem staleReading_exceeds :
    (∀ a ∈ staleReading, Patient (defaultBudget .create) a) ∧
      ¬ EveryState (World.step rateKey) (WithinBudget ("alice", .create))
        (.start (RateLimiter.new defaultBudget) 0) staleReading := by
  have hadmitted : (staleReading.foldl (World.step rateKey)
      (.start (RateLimiter.new defaultBudget) 0)).admitted ("alice", .create) =
        List.replicate 20 0 ++ [6, 6] := by
    decide +kernel
  refine ⟨?_, ?_⟩
  · intro a ha
    cases a with
    | evict staleAfter => exact absurd ha (by simp [staleReading, wholeCall])
    | _ => trivial
  · intro h
    have hlast := everyState_iff_prefix.mp h staleReading (List.prefix_refl _)
    unfold WithinBudget at hlast
    rw [hadmitted] at hlast
    have hbound := hlast 0 rfl 6 (by norm_num)
    revert hbound
    decide +kernel

end RateLimit
end Artifacts
