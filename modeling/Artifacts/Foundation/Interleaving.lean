import Mathlib.Logic.Function.Basic

/-!
# Calls that run side by side

Any number of calls work on a shared state.  Each call is at a place in its program;
a move takes one call one step further, with an input from outside, or changes the
shared state from the environment.  An assertion about a call and the shared state
holds throughout if its own steps keep it and the steps of the others and of the
environment do not interfere.

`move_keeps` is that rule for an assertion about all calls at once, `move_keeps_place` for one that
each call has about its own place.  Fairness plays no part: a run may leave any call where it is.
-/

namespace Artifacts
namespace Foundation

universe u v w x y

/-- A shared state, and the place of each call. There may be any number of calls, and the index says
nothing about when one begins. -/
structure Calls (κ : Type u) (S : Type v) (P : Type w) where
  shared : S
  place : κ → P

/-- One call goes on, or the environment does something. A move says whose turn it is and what the
surroundings answer; what then happens is up to the system. -/
inductive Move (κ : Type u) (ι : Type x) (ε : Type y) where
  | call (k : κ) (input : ι)
  | env (e : ε)

namespace Calls

variable {κ : Type u} {S : Type v} {P : Type w} {ι : Type x} {ε : Type y} [DecidableEq κ]

/-- A move, from what a call and the environment do to the shared state. -/
def move (act : κ → ι → S → P → S × P) (outside : ε → S → S) (c : Calls κ S P) :
    Move κ ι ε → Calls κ S P
  | .call k input =>
      let next := act k input c.shared (c.place k)
      ⟨next.1, Function.update c.place k next.2⟩
  | .env e => ⟨outside e c.shared, c.place⟩

variable {act : κ → ι → S → P → S × P} {outside : ε → S → S} {c : Calls κ S P}

@[simp] theorem move_call_shared (k : κ) (input : ι) :
    (c.move act outside (.call k input)).shared = (act k input c.shared (c.place k)).1 := rfl

@[simp] theorem move_env (e : ε) : c.move act outside (.env e) = ⟨outside e c.shared, c.place⟩ := rfl

theorem move_call_place_self (k : κ) (input : ι) :
    (c.move act outside (.call k input)).place k = (act k input c.shared (c.place k)).2 :=
  Function.update_self ..

theorem move_call_place_of_ne {j k : κ} (input : ι) (h : j ≠ k) :
    (c.move act outside (.call k input)).place j = c.place j :=
  Function.update_of_ne h ..

/-- **Non-interference.** -/
theorem move_keeps {A : κ → S → P → Prop}
    (hown : ∀ k input s p, A k s p → A k (act k input s p).1 (act k input s p).2)
    (hothers : ∀ k j input s p q, j ≠ k → A k s p → A j s q → A k (act j input s q).1 p)
    (houtside : ∀ k e s p, A k s p → A k (outside e s) p)
    (h : ∀ k, A k c.shared (c.place k)) (m : Move κ ι ε) :
    ∀ k, A k (c.move act outside m).shared ((c.move act outside m).place k) := by
  intro k
  cases m with
  | call j input =>
      by_cases hjk : k = j
      · subst hjk
        rw [move_call_place_self, move_call_shared]
        exact hown k input c.shared (c.place k) (h k)
      · rw [move_call_place_of_ne input hjk, move_call_shared]
        exact hothers k j input c.shared (c.place k) (c.place j) (Ne.symm hjk) (h k) (h j)
  | env e => exact houtside k e c.shared (c.place k) (h k)

/-- An assertion that speaks of places only. -/
theorem move_keeps_place {A : κ → P → Prop}
    (hown : ∀ k input s p, A k p → A k (act k input s p).2)
    (h : ∀ k, A k (c.place k)) (m : Move κ ι ε) : ∀ k, A k ((c.move act outside m).place k) :=
  move_keeps (A := fun k _ p => A k p) (fun k input s p => hown k input s p)
    (fun _ _ _ _ _ _ _ hp _ => hp) (fun _ _ _ _ hp => hp) h m

end Calls
end Foundation
end Artifacts
