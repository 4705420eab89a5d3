import Mathlib.Data.List.Sublists

/-!
# Passes that retry what waits

Items are worked off in passes.  An attempt at an item is done, waits for a later
pass, or fails.  The passes end when nothing is left, when an attempt fails, or when
a pass got nothing done.  The rules say what is known at each of these ends.

* `Works` is what one attempt has to keep: an invariant, and that what is done stays done.
* `Attempt.Agrees` relates two kinds of attempts, and `passes_agree` their passes.
* `passes_isSome` says how many passes are enough.

Items are of any type; an item may occur twice.
-/

namespace Artifacts
namespace Foundation

variable {S ι ε : Type*}

/-- What an attempt at an item comes to: it is done, or it waits for another item and has changed
nothing, or it failed, perhaps after a change. -/
inductive Attempt (S ε : Type*) where
  | done (s : S)
  | waits
  | failed (e : ε) (s : S)

/-- One pass over the items: those that wait, in their order, and the state after it. -/
def pass (attempt : S → ι → Attempt S ε) : List ι → S → Except ε (List ι) × S
  | [], s => (.ok [], s)
  | i :: items, s =>
      match attempt s i with
      | .failed e s' => (.error e, s')
      | .done s' => pass attempt items s'
      | .waits =>
          match pass attempt items s with
          | (.error e, s') => (.error e, s')
          | (.ok still, s') => (.ok (i :: still), s')

/-- At most so many passes, with `none` when they do not suffice. -/
def passes (attempt : S → ι → Attempt S ε) (stuck : Nat → ε) :
    Nat → List ι → S → Option (Except ε Unit × S)
  | _, [], s => some (.ok (), s)
  | 0, _ :: _, _ => none
  | fuel + 1, i :: items, s =>
      match pass attempt (i :: items) s with
      | (.error e, s') => some (.error e, s')
      | (.ok still, s') =>
          if still.length = (i :: items).length then some (.error (stuck still.length), s')
          else passes attempt stuck fuel still s'

variable {attempt : S → ι → Attempt S ε} {stuck : Nat → ε}

/-! ### One pass -/

/-- What is left is part of what was there. -/
theorem pass_sublist {items still : List ι} {s s' : S}
    (h : pass attempt items s = (.ok still, s')) : still.Sublist items := by
  induction items generalizing s still with
  | nil =>
      obtain ⟨hstill, -⟩ := Prod.mk.inj h
      cases hstill
      exact List.Sublist.refl []
  | cons i items ih =>
      unfold pass at h
      cases hi : attempt s i with
      | failed e t =>
          rw [hi] at h
          cases h
      | done t =>
          rw [hi] at h
          exact (ih h).cons i
      | waits =>
          rw [hi] at h
          cases hrest : pass attempt items s with
          | mk result t =>
              rw [hrest] at h
              cases result with
              | error e => cases h
              | ok rest =>
                  cases h
                  exact (ih hrest).cons_cons i

/-- A pass that got nothing done changed nothing: every item waits. -/
theorem pass_stuck {items still : List ι} {s s' : S} (h : pass attempt items s = (.ok still, s'))
    (hlen : still.length = items.length) :
    s' = s ∧ still = items ∧ ∀ i ∈ items, attempt s i = .waits := by
  induction items generalizing s still with
  | nil =>
      cases h
      exact ⟨rfl, rfl, nofun⟩
  | cons i items ih =>
      unfold pass at h
      cases hi : attempt s i with
      | failed e t =>
          rw [hi] at h
          cases h
      | done t =>
          rw [hi] at h
          have hshort := (pass_sublist h).length_le
          rw [hlen, List.length_cons] at hshort
          omega
      | waits =>
          rw [hi] at h
          cases hrest : pass attempt items s with
          | mk result t =>
              rw [hrest] at h
              cases result with
              | error e => cases h
              | ok rest =>
                  cases h
                  simp only [List.length_cons, Nat.add_right_cancel_iff] at hlen
                  obtain ⟨hstate, hrest', hall⟩ := ih hrest hlen
                  refine ⟨hstate, by rw [hrest'], fun j hj => ?_⟩
                  rcases List.mem_cons.mp hj with rfl | hj
                  · exact hi
                  · exact hall j hj

/-- A count that each finished item raises by one. -/
theorem pass_count {count : S → Nat}
    (hdone : ∀ s i s', attempt s i = .done s' → count s' = count s + 1) {items still : List ι}
    {s s' : S} (h : pass attempt items s = (.ok still, s')) :
    count s' + still.length = count s + items.length := by
  induction items generalizing s still with
  | nil =>
      cases h
      rfl
  | cons i items ih =>
      unfold pass at h
      cases hi : attempt s i with
      | failed e t =>
          rw [hi] at h
          cases h
      | done t =>
          rw [hi] at h
          have hcount := hdone s i t hi
          have hrest := ih h
          rw [List.length_cons]
          omega
      | waits =>
          rw [hi] at h
          cases hrest : pass attempt items s with
          | mk result t =>
              rw [hrest] at h
              cases result with
              | error e => cases h
              | ok rest =>
                  cases h
                  have hcount := ih hrest
                  rw [List.length_cons, List.length_cons]
                  omega

/-! ### What finished attempts keep -/

/-- An invariant of the state, and the items that a state has done. -/
structure Works (attempt : S → ι → Attempt S ε) (Inv : S → Prop) (Done : S → ι → Prop) :
    Prop where
  keeps : ∀ s i s', Inv s → attempt s i = .done s' → Inv s'
  finishes : ∀ s i s', attempt s i = .done s' → Done s' i
  stays : ∀ s i s' j, attempt s i = .done s' → Done s j → Done s' j

variable {Inv : S → Prop} {Done : S → ι → Prop}

/-- **A pass keeps the invariant.** What it does not put off is done, and a failure is
that of an attempt in a state with the invariant. -/
theorem pass_rule (hworks : Works attempt Inv Done) (items : List ι) {s : S} (hs : Inv s) :
    match pass attempt items s with
    | (.ok still, s') => Inv s' ∧ (∀ j, Done s j → Done s' j) ∧ ∀ i ∈ items, i ∈ still ∨ Done s' i
    | (.error e, s') => ∃ t i, i ∈ items ∧ Inv t ∧ attempt t i = .failed e s' := by
  induction items generalizing s with
  | nil => exact ⟨hs, fun _ hj => hj, nofun⟩
  | cons i items ih =>
      unfold pass
      cases hi : attempt s i with
      | failed e t => exact ⟨s, i, List.mem_cons_self, hs, hi⟩
      | done t =>
          have hrest := ih (hworks.keeps s i t hs hi)
          simp only []
          split
          · rename_i still s' heq
            rw [heq] at hrest
            obtain ⟨hinv, hstays, hall⟩ := hrest
            refine ⟨hinv, fun j hj => hstays j (hworks.stays s i t j hi hj), fun j hj => ?_⟩
            rcases List.mem_cons.mp hj with rfl | hj
            · exact Or.inr (hstays j (hworks.finishes s j t hi))
            · exact hall j hj
          · rename_i e s' heq
            rw [heq] at hrest
            obtain ⟨u, j, hj, hu, hfailed⟩ := hrest
            exact ⟨u, j, List.mem_cons_of_mem i hj, hu, hfailed⟩
      | waits =>
          have hrest := ih hs
          cases hpass : pass attempt items s with
          | mk result t =>
              rw [hpass] at hrest
              cases result with
              | error e =>
                  obtain ⟨u, j, hj, hu, hfailed⟩ := hrest
                  exact ⟨u, j, List.mem_cons_of_mem i hj, hu, hfailed⟩
              | ok still =>
                  obtain ⟨hinv, hstays, hall⟩ := hrest
                  refine ⟨hinv, hstays, fun j hj => ?_⟩
                  rcases List.mem_cons.mp hj with rfl | hj
                  · exact Or.inl List.mem_cons_self
                  · rcases hall j hj with hstill | hdone
                    · exact Or.inl (List.mem_cons_of_mem i hstill)
                    · exact Or.inr hdone

/-! ### All passes -/

/-- **Termination.** As many passes as there are items suffice, since each pass but the
last gets an item done. -/
theorem passes_isSome {fuel : Nat} {items : List ι} {s : S} (h : items.length ≤ fuel) :
    ∃ result, passes attempt stuck fuel items s = some result := by
  induction fuel generalizing items s with
  | zero =>
      obtain rfl : items = [] := List.length_eq_zero_iff.mp (by omega)
      exact ⟨_, rfl⟩
  | succ fuel ih =>
      cases items with
      | nil => exact ⟨_, rfl⟩
      | cons i items =>
          unfold passes
          cases hpass : pass attempt (i :: items) s with
          | mk result t =>
              cases result with
              | error e => exact ⟨_, rfl⟩
              | ok still =>
                  simp only []
                  split_ifs with hlen
                  · exact ⟨_, rfl⟩
                  · have hshort := (pass_sublist hpass).length_le
                    exact ih (by omega)

/-- More passes than needed change nothing. -/
theorem passes_of_le {fuel fuel' : Nat} (hle : fuel ≤ fuel') {items : List ι} {s : S}
    {result : Except ε Unit × S} (h : passes attempt stuck fuel items s = some result) :
    passes attempt stuck fuel' items s = some result := by
  induction fuel generalizing fuel' items s with
  | zero =>
      cases items with
      | nil =>
          cases fuel' <;> exact h
      | cons i items => cases h
  | succ fuel ih =>
      obtain ⟨fuel', rfl⟩ : ∃ n, fuel' = n + 1 := ⟨fuel' - 1, by omega⟩
      cases items with
      | nil => exact h
      | cons i items =>
          unfold passes at h ⊢
          cases hpass : pass attempt (i :: items) s with
          | mk first t =>
              rw [hpass] at h
              cases first with
              | error e => exact h
              | ok still =>
                  simp only [] at h ⊢
                  split_ifs at h with hlen
                  · rw [if_pos hlen]
                    exact h
                  · rw [if_neg hlen]
                    exact ih (by omega) h

/-- The count after passes that finish everything. -/
theorem passes_count {count : S → Nat}
    (hdone : ∀ s i s', attempt s i = .done s' → count s' = count s + 1) {fuel : Nat}
    {items : List ι} {s s' : S} (h : passes attempt stuck fuel items s = some (.ok (), s')) :
    count s' = count s + items.length := by
  induction fuel generalizing items s with
  | zero =>
      cases items with
      | nil =>
          cases h
          rfl
      | cons i items => cases h
  | succ fuel ih =>
      cases items with
      | nil =>
          cases h
          rfl
      | cons i items =>
          unfold passes at h
          cases hpass : pass attempt (i :: items) s with
          | mk result t =>
              rw [hpass] at h
              cases result with
              | error e => cases h
              | ok still =>
                  simp only [] at h
                  split_ifs at h
                  · cases h
                  · have hfirst := pass_count hdone hpass
                    have hrest := ih h
                    omega

/-- **How passes end.** All items are done; or an attempt failed; or some items are
left, all of them wait in the last state, and all others are done in it. -/
theorem passes_rule (hworks : Works attempt Inv Done) {fuel : Nat} {items : List ι} {s s' : S}
    {result : Except ε Unit} (hs : Inv s)
    (h : passes attempt stuck fuel items s = some (result, s')) :
    match result with
    | .ok _ => Inv s' ∧ (∀ j, Done s j → Done s' j) ∧ ∀ i ∈ items, Done s' i
    | .error e =>
        (∃ t i, i ∈ items ∧ Inv t ∧ attempt t i = .failed e s') ∨
          Inv s' ∧ (∀ j, Done s j → Done s' j) ∧ ∃ left, left ≠ [] ∧ left.Sublist items ∧
            (∀ i ∈ left, attempt s' i = .waits) ∧ ∀ i ∈ items, i ∈ left ∨ Done s' i := by
  induction fuel generalizing items s with
  | zero =>
      cases items with
      | nil =>
          cases h
          exact ⟨hs, fun _ hj => hj, nofun⟩
      | cons i items => cases h
  | succ fuel ih =>
      cases items with
      | nil =>
          cases h
          exact ⟨hs, fun _ hj => hj, nofun⟩
      | cons i items =>
          have hrule := pass_rule hworks (i :: items) hs
          unfold passes at h
          cases hpass : pass attempt (i :: items) s with
          | mk first t =>
              rw [hpass] at h hrule
              cases first with
              | error e =>
                  cases h
                  exact Or.inl hrule
              | ok still =>
                  obtain ⟨hinv, hstays, hall⟩ := hrule
                  simp only [] at h
                  -- a pass that leaves as many as it was given has changed nothing
                  split_ifs at h with hlen
                  · cases h
                    obtain ⟨rfl, rfl, hwaits⟩ := pass_stuck hpass hlen
                    exact Or.inr ⟨hinv, hstays, i :: items, List.cons_ne_nil i items,
                      List.Sublist.refl _, hwaits, hall⟩
                  · have hsub := pass_sublist hpass
                    have hrest := ih hinv h
                    cases result with
                    | ok u =>
                        obtain ⟨hinv', hstays', hall'⟩ := hrest
                        refine ⟨hinv', fun j hj => hstays' j (hstays j hj), fun j hj => ?_⟩
                        rcases hall j hj with hstill | hdone
                        · exact hall' j hstill
                        · exact hstays' j hdone
                    | error e =>
                        rcases hrest with ⟨u, j, hj, hu, hfailed⟩ |
                          ⟨hinv', hstays', left, hne, hleft, hwaits, hall'⟩
                        · exact Or.inl ⟨u, j, hsub.subset hj, hu, hfailed⟩
                        · refine Or.inr ⟨hinv', fun j hj => hstays' j (hstays j hj), left, hne,
                            hleft.trans hsub, hwaits, fun j hj => ?_⟩
                          rcases hall j hj with hstill | hdone
                          · exact hall' j hstill
                          · exact Or.inr (hstays' j hdone)

/-! ### Two ways to work off the same items -/

section Agreement

variable {T ε' : Type*} {R : S → T → Prop}

/-- Two attempts come to the same, with related states.  Their errors may differ. -/
inductive Attempt.Agrees (R : S → T → Prop) : Attempt S ε → Attempt T ε' → Prop where
  | done {s : S} {t : T} : R s t → Agrees R (.done s) (.done t)
  | waits : Agrees R .waits .waits
  | failed {e : ε} {e' : ε'} {s : S} {t : T} : R s t → Agrees R (.failed e s) (.failed e' t)

variable {attempt' : T → ι → Attempt T ε'} {stuck' : Nat → ε'}

/-- Passes of attempts that come to the same put off the same items, or both fail. -/
theorem pass_agrees {items : List ι}
    (h : ∀ i ∈ items, ∀ s t, R s t → (attempt s i).Agrees R (attempt' t i)) {s : S} {t : T}
    (hst : R s t) :
    (∃ still s' t', pass attempt items s = (.ok still, s') ∧
      pass attempt' items t = (.ok still, t') ∧ R s' t') ∨
    ∃ e e' s' t', pass attempt items s = (.error e, s') ∧
      pass attempt' items t = (.error e', t') ∧ R s' t' := by
  induction items generalizing s t with
  | nil => exact Or.inl ⟨[], s, t, rfl, rfl, hst⟩
  | cons i items ih =>
      have hrest : ∀ j ∈ items, ∀ s t, R s t → (attempt s j).Agrees R (attempt' t j) :=
        fun j hj => h j (List.mem_cons_of_mem i hj)
      have hfirst := h i List.mem_cons_self s t hst
      unfold pass
      generalize attempt s i = first at hfirst ⊢
      generalize attempt' t i = second at hfirst ⊢
      cases hfirst with
      | done hdone => exact ih hrest hdone
      | failed hfailed => exact Or.inr ⟨_, _, _, _, rfl, rfl, hfailed⟩
      | waits =>
          rcases ih hrest hst with ⟨still, s', t', hp, hp', hr⟩ | ⟨e, e', s', t', hp, hp', hr⟩
          · simp only [hp, hp']
            exact Or.inl ⟨i :: still, s', t', rfl, rfl, hr⟩
          · simp only [hp, hp']
            exact Or.inr ⟨e, e', s', t', rfl, rfl, hr⟩

/-- What passes that come to the same end with: both run on, both are finished, or both failed, with
states that are related. The errors may differ. -/
inductive Agree (R : S → T → Prop) :
    Option (Except ε Unit × S) → Option (Except ε' Unit × T) → Prop where
  | runs : Agree R none none
  | finished {s : S} {t : T} : R s t → Agree R (some (.ok (), s)) (some (.ok (), t))
  | failed {e : ε} {e' : ε'} {s : S} {t : T} : R s t →
      Agree R (some (.error e, s)) (some (.error e', t))

/-- **All passes of attempts that come to the same end in the same way.** -/
theorem passes_agree {fuel : Nat} {items : List ι}
    (h : ∀ i ∈ items, ∀ s t, R s t → (attempt s i).Agrees R (attempt' t i)) {s : S} {t : T}
    (hst : R s t) :
    Agree R (passes attempt stuck fuel items s) (passes attempt' stuck' fuel items t) := by
  induction fuel generalizing items s t with
  | zero =>
      cases items with
      | nil => exact .finished hst
      | cons i items => exact .runs
  | succ fuel ih =>
      cases items with
      | nil => exact .finished hst
      | cons i items =>
          unfold passes
          rcases pass_agrees h hst with ⟨still, s', t', hp, hp', hr⟩ | ⟨e, e', s', t', hp, hp', hr⟩
          · simp only [hp, hp']
            have hsub := (pass_sublist hp).subset
            split_ifs with hlength
            · exact .failed hr
            · exact ih (fun j hj => h j (hsub hj)) hr
          · simp only [hp, hp']
            exact .failed hr

end Agreement

/-- The passes of a loop that looks whether it is finished behind each pass only. -/
def passesUntilEmpty (attempt : S → ι → Attempt S ε) (stuck : Nat → ε) :
    Nat → List ι → S → Option (Except ε Unit × S)
  | 0, _, _ => none
  | fuel + 1, items, s =>
      match pass attempt items s with
      | (.error e, s') => some (.error e, s')
      | (.ok [], s') => some (.ok (), s')
      | (.ok (i :: still), s') =>
          if (i :: still).length = items.length then some (.error (stuck (i :: still).length), s')
          else passesUntilEmpty attempt stuck fuel (i :: still) s'

/-- As long as there is something to do at first, this is no difference. -/
theorem passesUntilEmpty_eq {fuel : Nat} {items : List ι} (hne : items ≠ []) (s : S) :
    passesUntilEmpty attempt stuck fuel items s = passes attempt stuck fuel items s := by
  induction fuel generalizing items s with
  | zero =>
      cases items with
      | nil => exact absurd rfl hne
      | cons i items => rfl
  | succ fuel ih =>
      cases items with
      | nil => exact absurd rfl hne
      | cons i items =>
          unfold passesUntilEmpty passes
          cases hpass : pass attempt (i :: items) s with
          | mk result t =>
              cases result with
              | error e => rfl
              | ok still =>
                  cases still with
                  | nil => cases fuel <;> rfl
                  | cons j still => simp only [ih (List.cons_ne_nil j still)]

end Foundation
end Artifacts
