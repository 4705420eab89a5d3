import Artifacts.Foundation.Interleaving
import Artifacts.Foundation.Runs
import Mathlib.Data.Finset.Card

/-!
# Check now, count later

Calls that run side by side check a count against a limit, and raise the count some steps
later.  Between the two a call is pending, and another call that checks meanwhile does not
see it.  The count can pass the limit then, but no further than the number of calls that
are pending at once.

* `Charges` says what the steps of one call do to the count, and `Crowded` how many are pending.
* `Booked` is the invariant: what is counted and what is pending stay below the bound.
* `foldl_round` runs all calls in step, which is how the bound is met.

Counts go down as well; a call that fails ceases to be pending.
-/

namespace Artifacts
namespace Foundation
namespace Calls

universe u v w x y

variable {κ : Type u} {S : Type v} {P : Type w} {ι : Type x} {ε : Type y}

/-- What one step of a call may do to the count: pass the check, raise the count by one
when it was pending, or neither. -/
inductive Charges (limit : Nat) (count : S → Nat) (pending : P → Prop) (s : S) (p : P)
    (s' : S) (p' : P) : Prop
  | admits (hroom : count s < limit) (hcount : count s' ≤ count s)
  | charges (hpending : pending p) (hdone : ¬ pending p') (hcount : count s' ≤ count s + 1)
  | rests (hpending : pending p' → pending p) (hcount : count s' ≤ count s)

/-- At most `crowd` calls are pending. It is said of finite sets of calls, so there may be
infinitely many calls in all. -/
def Crowded (pending : P → Prop) (crowd : Nat) (c : Calls κ S P) : Prop :=
  ∀ F : Finset κ, (∀ k ∈ F, pending (c.place k)) → F.card ≤ crowd

/-- The count has room for all that are pending. -/
def Booked (count : S → Nat) (pending : P → Prop) (bound : Nat) (c : Calls κ S P) : Prop :=
  ∀ F : Finset κ, (∀ k ∈ F, pending (c.place k)) → count c.shared + F.card ≤ bound

theorem Booked.count_le {count : S → Nat} {pending : P → Prop} {bound : Nat} {c : Calls κ S P}
    (h : Booked count pending bound c) : count c.shared ≤ bound := by
  simpa using h ∅ (by simp)

theorem booked_of_idle {count : S → Nat} {pending : P → Prop} {bound : Nat} {c : Calls κ S P}
    (hcount : count c.shared ≤ bound) (hidle : ∀ k, ¬ pending (c.place k)) :
    Booked count pending bound c := by
  intro F hF
  have hempty : F = ∅ := Finset.eq_empty_of_forall_notMem fun k hk => hidle k (hF k hk)
  simpa [hempty] using hcount

section Moves

variable [DecidableEq κ] {act : κ → ι → S → P → S × P} {outside : ε → S → S} {limit crowd bound : Nat}
  {count : S → Nat} {pending : P → Prop} {c : Calls κ S P}

/-- **The step lemma.** -/
theorem booked_move (hact : ∀ k input s p,
      Charges limit count pending s p (act k input s p).1 (act k input s p).2)
    (houtside : ∀ e s, count (outside e s) ≤ count s) (hbound : limit + crowd ≤ bound + 1)
    (h : Booked count pending bound c) (m : Move κ ι ε)
    (hcrowd : Crowded pending crowd (c.move act outside m)) :
    Booked count pending bound (c.move act outside m) := by
  intro F hF
  cases m with
  | env e =>
      have hbefore := h F hF
      have hcount := houtside e c.shared
      show count (outside e c.shared) + F.card ≤ bound
      omega
  | call k input =>
      have hself : (c.move act outside (.call k input)).place k =
          (act k input c.shared (c.place k)).2 := move_call_place_self k input
      have hothers : ∀ j ∈ F, j ≠ k → pending (c.place j) := by
        intro j hj hjk
        have hkept : (c.move act outside (.call k input)).place j = c.place j :=
          move_call_place_of_ne input hjk
        exact hkept ▸ hF j hj
      rw [move_call_shared]
      cases hact k input c.shared (c.place k) with
      | admits hroom hcount =>
          -- whoever is pending now fits into the crowd, whatever was promised before
          have hfits := hcrowd F hF
          omega
      | charges hpending hdone hcount =>
          have hk : k ∉ F := by
            intro hk
            exact hdone (hself ▸ hF k hk)
          have hbefore := h (insert k F) (by
            intro j hj
            rcases Finset.mem_insert.mp hj with rfl | hj
            · exact hpending
            · exact hothers j hj (fun hjk => hk (hjk ▸ hj)))
          rw [Finset.card_insert_of_notMem hk] at hbefore
          omega
      | rests hpending hcount =>
          have hbefore := h F (by
            intro j hj
            by_cases hjk : j = k
            · subst hjk
              exact hpending (hself ▸ hF j hj)
            · exact hothers j hj hjk)
          omega

/-- **The run lemma**: the count stays within the bound as long as the crowd does. -/
theorem everyState_count_le (hact : ∀ k input s p,
      Charges limit count pending s p (act k input s p).1 (act k input s p).2)
    (houtside : ∀ e s, count (outside e s) ≤ count s) (hbound : limit + crowd ≤ bound + 1)
    (h : Booked count pending bound c) {moves : List (Move κ ι ε)}
    (hcrowd : EveryState (move act outside) (Crowded pending crowd) c moves) :
    EveryState (move act outside) (fun c => count c.shared ≤ bound) c moves := by
  induction moves generalizing c with
  | nil => exact h.count_le
  | cons m moves ih =>
      exact ⟨h.count_le, ih (booked_move hact houtside hbound h m hcrowd.2.head) hcrowd.2⟩

/-! ### Rounds -/

/-- Each call of a list takes one step. -/
def round (ε : Type y) (input : ι) (ks : List κ) : List (Move κ ι ε) :=
  ks.map fun k => .call k input

/-- What each step of a round keeps, with the calls that are still to come. -/
theorem foldl_round (act : κ → ι → S → P → S × P) (outside : ε → S → S) (input : ι)
    (I : List κ → S → Prop) (p q : P)
    (hstep : ∀ k ks s, I (k :: ks) s →
      I ks (act k input s p).1 ∧ (act k input s p).2 = q)
    {ks : List κ} (hnodup : ks.Nodup) (hshared : I ks c.shared)
    (hplace : ∀ k ∈ ks, c.place k = p) :
    I [] ((round ε input ks).foldl (move act outside) c).shared ∧
      (∀ k ∈ ks, ((round ε input ks).foldl (move act outside) c).place k = q) ∧
      ∀ j, j ∉ ks → ((round ε input ks).foldl (move act outside) c).place j = c.place j := by
  induction ks generalizing c with
  | nil => exact ⟨hshared, by simp, fun _ _ => rfl⟩
  | cons k ks ih =>
      obtain ⟨hfresh, hrest⟩ := List.nodup_cons.mp hnodup
      obtain ⟨hnext, hq⟩ := hstep k ks c.shared hshared
      rw [← hplace k (by simp)] at hnext hq
      have hkept : ∀ j, j ≠ k → (c.move act outside (.call k input)).place j = c.place j :=
        fun j hj => move_call_place_of_ne input hj
      obtain ⟨hshared', hplace', hothers⟩ := ih (c := c.move act outside (.call k input)) hrest
        hnext (by
          intro j hj
          rw [hkept j (fun hjk => hfresh (hjk ▸ hj))]
          exact hplace j (List.mem_cons_of_mem k hj))
      refine ⟨hshared', ?_, ?_⟩
      · intro j hj
        rcases List.mem_cons.mp hj with rfl | hj
        · show ((round ε input ks).foldl (move act outside) _).place j = q
          rw [hothers j hfresh, move_call_place_self]
          exact hq
        · exact hplace' j hj
      · intro j hj
        rw [List.mem_cons, not_or] at hj
        show ((round ε input ks).foldl (move act outside) _).place j = _
        rw [hothers j hj.2, hkept j hj.1]

/-- In a run of rounds only the calls of the list leave their places. -/
theorem everyState_crowded_of_calls {ks : List κ} (hidle : ∀ j, j ∉ ks → ¬ pending (c.place j))
    {moves : List (Move κ ι ε)} (hmoves : ∀ m ∈ moves, ∃ k ∈ ks, ∃ input, m = .call k input) :
    EveryState (move act outside) (Crowded pending ks.length) c moves := by
  refine everyState_of_everyStep (I := fun c => ∀ j, j ∉ ks → ¬ pending (c.place j)) ?_ ?_ hidle
    (everyStep_of_forall hmoves)
  · intro c hidle F hF
    have hsub : F ⊆ ks.toFinset := by
      intro k hk
      by_contra hout
      exact hidle k (by simpa using hout) (hF k hk)
    exact (Finset.card_le_card hsub).trans (List.toFinset_card_le ks)
  · intro c m hidle hm j hj
    obtain ⟨k, hk, input, rfl⟩ := hm
    have hjk : j ≠ k := by
      rintro rfl
      exact hj hk
    rw [move_call_place_of_ne input hjk]
    exact hidle j hj

end Moves
end Calls
end Foundation
end Artifacts
