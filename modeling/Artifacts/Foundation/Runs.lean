import Mathlib.Data.List.Basic
import Mathlib.Data.List.Infix

/-!
# Runs of a step function

A run is the list of inputs that a step function consumes one after another.
Two predicates speak about a whole run: `EveryState` (a property of each state
the run passes through, its two ends included) and `EveryStep` (a property of
each step, read off the state before it and its input).  The rules below turn
what one step preserves into what a run preserves.

* `everyState_of_invariant` and `everyStep_of_invariant` are the induction, made once.
* `everyState_and_everyStep_iff` and `everyStep_iff_of_simulation` are for conditions that are
  needed as well as enough.
* `runTotal_le_of_potential` adds up what the steps cost.
-/

namespace Artifacts
namespace Foundation

variable {σ α : Type*}

/-- `P` holds in every state of the run of `inputs` from `s`. -/
def EveryState (step : σ → α → σ) (P : σ → Prop) : σ → List α → Prop
  | s, [] => P s
  | s, a :: inputs => P s ∧ EveryState step P (step s a) inputs

/-- `C` holds at every step of the run of `inputs` from `s`. -/
def EveryStep (step : σ → α → σ) (C : σ → α → Prop) : σ → List α → Prop
  | _, [] => True
  | s, a :: inputs => C s a ∧ EveryStep step C (step s a) inputs

instance EveryState.decidable (step : σ → α → σ) (P : σ → Prop) [DecidablePred P] :
    ∀ s inputs, Decidable (EveryState step P s inputs)
  | s, [] => inferInstanceAs (Decidable (P s))
  | s, a :: inputs =>
      have := EveryState.decidable step P (step s a) inputs
      inferInstanceAs (Decidable (P s ∧ EveryState step P (step s a) inputs))

instance EveryStep.decidable (step : σ → α → σ) (C : σ → α → Prop)
    [∀ s a, Decidable (C s a)] : ∀ s inputs, Decidable (EveryStep step C s inputs)
  | _, [] => inferInstanceAs (Decidable True)
  | s, a :: inputs =>
      have := EveryStep.decidable step C (step s a) inputs
      inferInstanceAs (Decidable (C s a ∧ EveryStep step C (step s a) inputs))

@[simp] theorem everyState_nil (step : σ → α → σ) (P : σ → Prop) (s : σ) :
    EveryState step P s [] ↔ P s := Iff.rfl

@[simp] theorem everyState_cons (step : σ → α → σ) (P : σ → Prop) (s : σ) (a : α)
    (inputs : List α) :
    EveryState step P s (a :: inputs) ↔ P s ∧ EveryState step P (step s a) inputs := Iff.rfl

@[simp] theorem everyStep_nil (step : σ → α → σ) (C : σ → α → Prop) (s : σ) :
    EveryStep step C s [] ↔ True := Iff.rfl

@[simp] theorem everyStep_cons (step : σ → α → σ) (C : σ → α → Prop) (s : σ) (a : α)
    (inputs : List α) :
    EveryStep step C s (a :: inputs) ↔ C s a ∧ EveryStep step C (step s a) inputs := Iff.rfl

theorem EveryState.head {step : σ → α → σ} {P : σ → Prop} {s : σ} {inputs : List α}
    (h : EveryState step P s inputs) : P s := by
  cases inputs with
  | nil => exact h
  | cons a inputs => exact h.1

/-- The states of a run are the states its prefixes end in. -/
theorem everyState_iff_prefix {step : σ → α → σ} {P : σ → Prop} {s : σ} {inputs : List α} :
    EveryState step P s inputs ↔ ∀ pre, pre <+: inputs → P (pre.foldl step s) := by
  induction inputs generalizing s with
  | nil =>
      constructor
      · intro h pre hpre
        rw [List.prefix_nil.mp hpre]
        exact h
      · intro h
        exact h [] (List.prefix_refl [])
  | cons a inputs ih =>
      constructor
      · rintro ⟨hs, hrest⟩ pre hpre
        cases pre with
        | nil => exact hs
        | cons b pre =>
            obtain ⟨rfl, htail⟩ := List.cons_prefix_cons.mp hpre
            exact ih.mp hrest pre htail
      · intro h
        refine ⟨h [] (List.nil_prefix), ih.mpr fun pre hpre => ?_⟩
        exact h (a :: pre) (List.cons_prefix_cons.mpr ⟨rfl, hpre⟩)

/-- An invariant that a step keeps while its condition holds is kept by every
run whose steps all meet the condition. -/
theorem everyState_of_everyStep {step : σ → α → σ} {I P : σ → Prop} {C : σ → α → Prop}
    (hP : ∀ s, I s → P s) (hkeep : ∀ s a, I s → C s a → I (step s a))
    {s : σ} {inputs : List α} (hs : I s) (hrun : EveryStep step C s inputs) :
    EveryState step P s inputs := by
  induction inputs generalizing s with
  | nil => exact hP s hs
  | cons a inputs ih => exact ⟨hP s hs, ih (hkeep s a hs hrun.1) hrun.2⟩

/-- An invariant that every step keeps is kept by every run. -/
theorem everyState_of_invariant {step : σ → α → σ} {I P : σ → Prop} (hP : ∀ s, I s → P s)
    (hkeep : ∀ s a, I s → I (step s a)) {s : σ} (hs : I s) (inputs : List α) :
    EveryState step P s inputs := by
  induction inputs generalizing s with
  | nil => exact hP s hs
  | cons a inputs ih => exact ⟨hP s hs, ih (hkeep s a hs)⟩

/-- Conversely, if a step that breaks the condition breaks the property at once,
a run that keeps the property has met the condition throughout. -/
theorem everyStep_of_everyState {step : σ → α → σ} {I P : σ → Prop} {C : σ → α → Prop}
    (hkeep : ∀ s a, I s → C s a → I (step s a))
    (hneed : ∀ s a, I s → P s → P (step s a) → C s a)
    {s : σ} {inputs : List α} (hs : I s) (hrun : EveryState step P s inputs) :
    EveryStep step C s inputs := by
  induction inputs generalizing s with
  | nil => trivial
  | cons a inputs ih =>
      have hstep : C s a := hneed s a hs hrun.1 hrun.2.head
      exact ⟨hstep, ih (hkeep s a hs hstep) hrun.2⟩

theorem everyStep_of_forall {step : σ → α → σ} {C : α → Prop} {s : σ} {inputs : List α}
    (h : ∀ a ∈ inputs, C a) : EveryStep step (fun _ a => C a) s inputs := by
  induction inputs generalizing s with
  | nil => trivial
  | cons a inputs ih =>
      exact ⟨h a List.mem_cons_self, ih fun b hb => h b (List.mem_cons_of_mem a hb)⟩

theorem EveryState.and {step : σ → α → σ} {P Q : σ → Prop} {s : σ} {inputs : List α}
    (hP : EveryState step P s inputs) (hQ : EveryState step Q s inputs) :
    EveryState step (fun s => P s ∧ Q s) s inputs := by
  induction inputs generalizing s with
  | nil => exact ⟨hP, hQ⟩
  | cons a inputs ih => exact ⟨⟨hP.1, hQ.1⟩, ih hP.2 hQ.2⟩

theorem EveryStep.and {step : σ → α → σ} {C D : σ → α → Prop} {s : σ} {inputs : List α}
    (hC : EveryStep step C s inputs) (hD : EveryStep step D s inputs) :
    EveryStep step (fun s a => C s a ∧ D s a) s inputs := by
  induction inputs generalizing s with
  | nil => trivial
  | cons a inputs ih => exact ⟨⟨hC.1, hD.1⟩, ih hC.2 hD.2⟩

/-- What an invariant and a condition on a step give for the step, they give for every
step of a run. -/
theorem everyStep_of_invariant {step : σ → α → σ} {I : σ → Prop} {C D : σ → α → Prop}
    (hkeep : ∀ s a, I s → I (step s a)) (h : ∀ s a, I s → C s a → D s a) {s : σ}
    {inputs : List α} (hs : I s) (hrun : EveryStep step C s inputs) : EveryStep step D s inputs := by
  induction inputs generalizing s with
  | nil => trivial
  | cons a inputs ih => exact ⟨h s a hs hrun.1, ih (hkeep s a hs) hrun.2⟩

/-- When a condition on the steps, among the steps that are allowed, is just what it
takes for a property of the states and a property of the steps. -/
theorem everyState_and_everyStep_iff {step : σ → α → σ} {I P : σ → Prop}
    {allowed C D : σ → α → Prop} (hP : ∀ s, I s → P s)
    (hkeep : ∀ s a, I s → allowed s a → C s a → I (step s a))
    (hD : ∀ s a, I s → allowed s a → C s a → D s a)
    (hneed : ∀ s a, I s → allowed s a → D s a → P (step s a) → C s a)
    {s : σ} {inputs : List α} (hs : I s) (hrun : EveryStep step allowed s inputs) :
    (EveryState step P s inputs ∧ EveryStep step D s inputs) ↔ EveryStep step C s inputs := by
  induction inputs generalizing s with
  | nil => exact ⟨fun _ => trivial, fun _ => ⟨hP s hs, trivial⟩⟩
  | cons a inputs ih =>
      obtain ⟨hallowed, hrest⟩ := hrun
      constructor
      · rintro ⟨⟨-, hstates⟩, hDa, hsteps⟩
        have hC : C s a := hneed s a hs hallowed hDa hstates.head
        exact ⟨hC, (ih (hkeep s a hs hallowed hC) hrest).mp ⟨hstates, hsteps⟩⟩
      · rintro ⟨hC, hsteps⟩
        have htail := (ih (hkeep s a hs hallowed hC) hrest).mpr hsteps
        exact ⟨⟨hP s hs, htail.1⟩, hD s a hs hallowed hC, htail.2⟩

/-- **Simulation.**  Two step functions whose states stay related while a condition holds,
which is there the same for both, meet it in the same runs. -/
theorem everyStep_iff_of_simulation {τ : Type*} {step : σ → α → σ} {step' : τ → α → τ}
    {R : σ → τ → Prop} {C : σ → α → Prop} {D : τ → α → Prop}
    (hiff : ∀ s t a, R s t → (C s a ↔ D t a))
    (hkeep : ∀ s t a, R s t → D t a → R (step s a) (step' t a)) {s : σ} {t : τ}
    (h : R s t) (inputs : List α) : EveryStep step C s inputs ↔ EveryStep step' D t inputs := by
  induction inputs generalizing s t with
  | nil => exact Iff.rfl
  | cons a inputs ih =>
      rw [everyStep_cons, everyStep_cons, hiff s t a h]
      exact and_congr_right fun hD => ih (hkeep s t a h hD)

/-- Two conditions that agree wherever an invariant holds agree on every run
that keeps the invariant. -/
theorem everyStep_congr {step : σ → α → σ} {I : σ → Prop} {C D : σ → α → Prop} {s : σ}
    {inputs : List α} (hkeep : ∀ s, I s → ∀ a ∈ inputs, I (step s a))
    (h : ∀ s, I s → ∀ a ∈ inputs, (C s a ↔ D s a)) (hs : I s) :
    EveryStep step C s inputs ↔ EveryStep step D s inputs := by
  induction inputs generalizing s with
  | nil => exact Iff.rfl
  | cons a inputs ih =>
      have hkeep' : ∀ s, I s → ∀ b ∈ inputs, I (step s b) :=
        fun s hs b hb => hkeep s hs b (List.mem_cons_of_mem a hb)
      have htail : ∀ s, I s → ∀ b ∈ inputs, (C s b ↔ D s b) :=
        fun s hs b hb => h s hs b (List.mem_cons_of_mem a hb)
      exact and_congr (h s hs a List.mem_cons_self)
        (ih hkeep' htail (hkeep s hs a List.mem_cons_self))

/-! ### What a run adds up to -/

/-- The sum of what the steps of a run count for. -/
def runTotal (step : σ → α → σ) (f : σ → α → Nat) : σ → List α → Nat
  | _, [] => 0
  | s, a :: inputs => f s a + runTotal step f (step s a) inputs

/-- **Potential.** If every step that meets the condition pays its cost out of a potential and
of what it is granted, then so does a run of such steps. -/
theorem runTotal_le_of_potential {step : σ → α → σ} {I : σ → Prop} {C : σ → α → Prop}
    {potential : σ → Nat} {cost granted : σ → α → Nat}
    (hkeep : ∀ s a, I s → C s a → I (step s a))
    (hpay : ∀ s a, I s → C s a → cost s a + potential (step s a) ≤ potential s + granted s a)
    {s : σ} {inputs : List α} (hs : I s) (hrun : EveryStep step C s inputs) :
    runTotal step cost s inputs + potential (inputs.foldl step s) ≤
      potential s + runTotal step granted s inputs := by
  induction inputs generalizing s with
  | nil => simp [runTotal]
  | cons a inputs ih =>
      have hstep := hpay s a hs hrun.1
      have hrest := ih (hkeep s a hs hrun.1) hrun.2
      rw [runTotal, runTotal, List.foldl_cons]
      omega

end Foundation
end Artifacts
