import Mathlib.Data.List.Basic

/-!
# Scanning places while things move

A scan looks for one thing by reading places one after another, while the world
moves on between two reads.  It misses the thing only if the thing is gained late
(by a place that is not to be read any more) and, where some place had it at the
start, also lost early (by a place that is still to be read).

* `Covered` is the invariant of a run without a late gain, `Pending` the one of
  a run without an early loss.

Places and the world are of any type, and a place is read once.  What is found stays found, so
the scan needs no lock; it only has to be known what may move.
-/

namespace Artifacts
namespace Foundation

variable {W P : Type*}

/-- A scan on the way: the places still to be read, and whether the thing was
found. -/
structure Scan (W P : Type*) where
  world : W
  todo : List P
  found : Prop

namespace Scan

/-- One step: the world moves, the next place is read, or the scan gives up and
counts everything as found. -/
inductive Step (sees : W → P → Prop) : Scan W P → Scan W P → Prop where
  | move {w w' : W} {todo : List P} {found : Prop} :
      Step sees ⟨w, todo, found⟩ ⟨w', todo, found⟩
  | read {w : W} {p : P} {todo : List P} {found found' : Prop} :
      (found → found') → (sees w p → found') → Step sees ⟨w, p :: todo, found⟩ ⟨w, todo, found'⟩
  | giveUp {w : W} {todo todo' : List P} {found : Prop} :
      Step sees ⟨w, todo, found⟩ ⟨w, todo', True⟩

/-- A place that will not be read any more comes to see the thing. -/
def LateGain (sees : W → P → Prop) (s s' : Scan W P) : Prop :=
  ∃ p, p ∉ s.todo ∧ ¬ sees s.world p ∧ sees s'.world p

/-- A place that is still to be read no longer sees the thing. -/
def EarlyLoss (sees : W → P → Prop) (s s' : Scan W P) : Prop :=
  ∃ p ∈ s.todo, sees s.world p ∧ ¬ sees s'.world p

/-- Whatever place sees the thing and was passed has been noticed, even if the thing came there
later. -/
def Covered (sees : W → P → Prop) (s : Scan W P) : Prop :=
  ∀ p, p ∉ s.todo → sees s.world p → s.found

/-- The thing was found, or it is ahead. -/
def Pending (sees : W → P → Prop) (s : Scan W P) : Prop :=
  s.found ∨ ∃ p ∈ s.todo, sees s.world p

variable {sees sees' : W → P → Prop}

theorem Covered.step {s s' : Scan W P} (h : Covered sees s) (hstep : Step sees' s s')
    (hle : ∀ w p, sees w p → sees' w p) (hgain : ¬ LateGain sees s s') : Covered sees s' := by
  cases hstep with
  | @move w w' todo found =>
      intro p hp hsees
      by_cases hbefore : sees w p
      · exact h p hp hbefore
      · exact absurd ⟨p, hp, hbefore, hsees⟩ hgain
  | @read w q todo found found' hkeep hread =>
      intro p hp hsees
      by_cases hpq : p = q
      · subst hpq
        exact hread (hle w p hsees)
      · exact hkeep (h p (fun hmem => (List.mem_cons.mp hmem).elim hpq hp) hsees)
  | giveUp => exact fun _ _ _ => trivial

theorem Pending.step {s s' : Scan W P} (h : Pending sees s) (hstep : Step sees s s')
    (hloss : ¬ EarlyLoss sees s s') : Pending sees s' := by
  cases hstep with
  | @move w w' todo found =>
      rcases h with hfound | ⟨p, hp, hsees⟩
      · exact Or.inl hfound
      · by_cases hafter : sees w' p
        · exact Or.inr ⟨p, hp, hafter⟩
        · exact absurd ⟨p, hp, hsees, hafter⟩ hloss
  | @read w q todo found found' hkeep hread =>
      rcases h with hfound | ⟨p, hp, hsees⟩
      · exact Or.inl (hkeep hfound)
      · rcases List.mem_cons.mp hp with rfl | hp
        · exact Or.inl (hread hsees)
        · exact Or.inr ⟨p, hp, hsees⟩
  | giveUp => exact Or.inl trivial

/-- At the end of the scan a covered thing that some place sees was found. -/
theorem Covered.found {s : Scan W P} (h : Covered sees s) (hend : s.todo = []) {p : P}
    (hp : sees s.world p) : s.found :=
  h p (by simp [hend]) hp

theorem Pending.found {s : Scan W P} (h : Pending sees s) (hend : s.todo = []) : s.found := by
  rcases h with hfound | ⟨p, hp, -⟩
  · exact hfound
  · simp [hend] at hp

end Scan
end Foundation
end Artifacts
