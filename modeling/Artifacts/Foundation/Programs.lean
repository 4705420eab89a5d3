import Mathlib.Data.List.Infix
import Mathlib.Logic.Function.Basic

/-!
# Programs that ask

A program asks its surroundings for one operation after another and goes on with the
answers.  Run alone it is a state transformer; several of them can run side by side, one
operation at a time.  `Keeps` says that whatever admissible answers a program gets, the
operations it asks for are good and so is what it returns, given its own past.

* `Ends` is about a program that runs alone, from one state, with a postcondition.
* `Returns` is the same for a program that cannot fail.
* `Asks` bounds the operations, whatever the answers are.

Programs are trees without a bound on their depth; they end, as every branch does.
-/

namespace Artifacts
namespace Foundation

universe u v w x

/-- A program over the operations `Op`, whose answers have the types `Ans`. -/
inductive Program (Op : Type u) (Ans : Op → Type v) (α : Type w) where
  | ret (a : α)
  | ask (op : Op) (next : Ans op → Program Op Ans α)

/-- An operation that was asked for, and its answer. -/
abbrev Event (Op : Type u) (Ans : Op → Type v) := (op : Op) × Ans op

namespace Program

variable {Op : Type u} {Ans : Op → Type v} {α β : Type w} {S : Type x}

/-- One program after another. -/
def bind : Program Op Ans α → (α → Program Op Ans β) → Program Op Ans β
  | .ret a, f => f a
  | .ask op next, f => .ask op fun answer => (next answer).bind f

/-- Ask for one operation. -/
def perform (op : Op) : Program Op Ans (Ans op) :=
  .ask op .ret

/-- A program that runs alone, from what an operation does to the state. -/
def run (handle : (op : Op) → S → Ans op × S) : Program Op Ans α → S → α × S
  | .ret a, s => (a, s)
  | .ask op next, s => (next (handle op s).1).run handle (handle op s).2

variable {handle : (op : Op) → S → Ans op × S}

@[simp] theorem run_ret (a : α) (s : S) : (ret a : Program Op Ans α).run handle s = (a, s) := rfl

@[simp] theorem run_ask (op : Op) (next : Ans op → Program Op Ans α) (s : S) :
    (ask op next).run handle s = (next (handle op s).1).run handle (handle op s).2 := rfl

theorem run_bind (p : Program Op Ans α) (f : α → Program Op Ans β) (s : S) :
    (p.bind f).run handle s = (f (p.run handle s).1).run handle (p.run handle s).2 := by
  induction p generalizing s with
  | ret a => rfl
  | ask op next ih => exact ih (handle op s).1 (handle op s).2

/-! ### Programs that fail -/

section Failing

variable {ε : Type w}

/-- Give up. -/
def fail (e : ε) : Program Op Ans (Except ε α) :=
  .ret (.error e)

/-- Go on with the result of the first program, or give up with its error. -/
def andThen (p : Program Op Ans (Except ε α)) (f : α → Program Op Ans (Except ε β)) :
    Program Op Ans (Except ε β) :=
  p.bind fun result =>
    match result with
    | .error e => .ret (.error e)
    | .ok a => f a

theorem run_andThen (p : Program Op Ans (Except ε α)) (f : α → Program Op Ans (Except ε β))
    (s : S) :
    (p.andThen f).run handle s =
      match p.run handle s with
      | (.error e, s') => (.error e, s')
      | (.ok a, s') => (f a).run handle s' := by
  rw [andThen, run_bind]
  cases hp : p.run handle s with
  | mk result s' =>
      cases result with
      | error e => rfl
      | ok a => rfl

end Failing

/-! ### How a run ends -/

/-- Run alone from `s`, the program ends with a result and in a state that are related. -/
def Ends (handle : (op : Op) → S → Ans op × S) (p : Program Op Ans α) (s : S)
    (Post : α → S → Prop) : Prop :=
  Post (p.run handle s).1 (p.run handle s).2

theorem Ends.mono {p : Program Op Ans α} {s : S} {Post Post' : α → S → Prop}
    (h : p.Ends handle s Post) (hpost : ∀ a s', Post a s' → Post' a s') : p.Ends handle s Post' :=
  hpost _ _ h

theorem ends_ask {op : Op} {next : Ans op → Program Op Ans α} {s : S} {Post : α → S → Prop}
    {answer : Ans op} (hanswer : (handle op s).1 = answer)
    (h : (next answer).Ends handle (handle op s).2 Post) : (ask op next).Ends handle s Post := by
  subst hanswer
  exact h

section Failing

variable {ε : Type w} {p : Program Op Ans (Except ε α)} {f : α → Program Op Ans (Except ε β)}
  {s s' : S} {Post : Except ε β → S → Prop}

/-- Go on after a part that has succeeded. -/
theorem ends_andThen_of_ok {a : α} (hp : p.run handle s = (.ok a, s'))
    (h : (f a).Ends handle s' Post) : (p.andThen f).Ends handle s Post := by
  unfold Ends at h ⊢
  rw [run_andThen, hp]
  exact h

/-- A part that fails ends it all. -/
theorem ends_andThen_of_error {e : ε} (hp : p.run handle s = (.error e, s'))
    (h : Post (.error e) s') : (p.andThen f).Ends handle s Post := by
  unfold Ends
  rw [run_andThen, hp]
  exact h

end Failing

/-! ### What every run returns -/

/-- Whatever the answers, what is returned has a property. -/
def Returns (P : α → Prop) : Program Op Ans α → Prop
  | .ret a => P a
  | .ask _ next => ∀ answer, (next answer).Returns P

theorem Returns.run {P : α → Prop} {p : Program Op Ans α} (h : p.Returns P) (s : S) :
    P (p.run handle s).1 := by
  induction p generalizing s with
  | ret a => exact h
  | ask op next ih => exact ih (handle op s).1 (h _) (handle op s).2

theorem Returns.bind {P : α → Prop} {Q : β → Prop} {p : Program Op Ans α}
    {f : α → Program Op Ans β} (hp : p.Returns P) (hf : ∀ a, P a → (f a).Returns Q) :
    (p.bind f).Returns Q := by
  induction p with
  | ret a => exact hf a hp
  | ask op next ih => exact fun answer => ih answer (hp answer)

/-- A property that a later success does not undo. -/
theorem Returns.andThen {ε : Type w} {P : Except ε α → Prop} {Q : Except ε β → Prop}
    {p : Program Op Ans (Except ε α)} {f : α → Program Op Ans (Except ε β)} (hp : p.Returns P)
    (herror : ∀ e, P (.error e) → Q (.error e)) (hf : ∀ a, (f a).Returns Q) :
    (p.andThen f).Returns Q := by
  apply hp.bind
  intro result hresult
  cases result with
  | error e => exact herror e hresult
  | ok a => exact hf a

/-! ### What every run keeps -/

/-- For all admissible answers, the operations are good, given the events before them (the
latest first), and so is the result. -/
def Keeps (May : (op : Op) → Ans op → Prop) (Good : List (Event Op Ans) → Op → Prop)
    (Post : List (Event Op Ans) → α → Prop) : List (Event Op Ans) → Program Op Ans α → Prop
  | past, .ret a => Post past a
  | past, .ask op next =>
      Good past op ∧ ∀ answer, May op answer →
        (next answer).Keeps May Good Post (⟨op, answer⟩ :: past)

variable {May : (op : Op) → Ans op → Prop} {Good : List (Event Op Ans) → Op → Prop}

@[simp] theorem keeps_ret {Post : List (Event Op Ans) → α → Prop} {past : List (Event Op Ans)}
    {a : α} : (ret a : Program Op Ans α).Keeps May Good Post past ↔ Post past a := Iff.rfl

@[simp] theorem keeps_ask {Post : List (Event Op Ans) → α → Prop} {past : List (Event Op Ans)}
    {op : Op} {next : Ans op → Program Op Ans α} :
    (ask op next).Keeps May Good Post past ↔
      Good past op ∧ ∀ answer, May op answer →
        (next answer).Keeps May Good Post (⟨op, answer⟩ :: past) := Iff.rfl

/-- **Sequencing.** -/
theorem keeps_bind {Post : List (Event Op Ans) → β → Prop} {past : List (Event Op Ans)}
    {p : Program Op Ans α} {f : α → Program Op Ans β} :
    (p.bind f).Keeps May Good Post past ↔
      p.Keeps May Good (fun past' a => (f a).Keeps May Good Post past') past := by
  induction p generalizing past with
  | ret a => exact Iff.rfl
  | ask op next ih =>
      exact and_congr Iff.rfl (forall_congr' fun answer => imp_congr Iff.rfl (ih answer))

/-- **Consequence.** -/
theorem Keeps.mono {Post Post' : List (Event Op Ans) → α → Prop} {past : List (Event Op Ans)}
    {p : Program Op Ans α} (h : p.Keeps May Good Post past)
    (hpost : ∀ past' a, Post past' a → Post' past' a) : p.Keeps May Good Post' past := by
  induction p generalizing past with
  | ret a => exact hpost past a h
  | ask op next ih => exact ⟨h.1, fun answer hmay => ih answer (h.2 answer hmay)⟩

/-- Sequencing of programs that fail. -/
theorem keeps_andThen {ε : Type w} {Post : List (Event Op Ans) → Except ε β → Prop}
    {past : List (Event Op Ans)} {p : Program Op Ans (Except ε α)}
    {f : α → Program Op Ans (Except ε β)} :
    (p.andThen f).Keeps May Good Post past ↔
      p.Keeps May Good (fun past' result =>
        match result with
        | .error e => Post past' (.error e)
        | .ok a => (f a).Keeps May Good Post past') past := by
  rw [andThen, keeps_bind]
  constructor
  · intro h
    refine h.mono fun past' result hresult => ?_
    cases result <;> exact hresult
  · intro h
    refine h.mono fun past' result hresult => ?_
    cases result <;> exact hresult

/-- Every operation a program asks for, whatever the answers, has a property. -/
def Asks (P : Op → Prop) : Program Op Ans α → Prop
  | .ret _ => True
  | .ask op next => P op ∧ ∀ answer, (next answer).Asks P

theorem Asks.bind {P : Op → Prop} {p : Program Op Ans α} {f : α → Program Op Ans β}
    (hp : p.Asks P) (hf : ∀ a, (f a).Asks P) : (p.bind f).Asks P := by
  induction p with
  | ret a => exact hf a
  | ask op next ih => exact ⟨hp.1, fun answer => ih answer (hp.2 answer)⟩

theorem Asks.andThen {ε : Type w} {P : Op → Prop} {p : Program Op Ans (Except ε α)}
    {f : α → Program Op Ans (Except ε β)} (hp : p.Asks P) (hf : ∀ a, (f a).Asks P) :
    (p.andThen f).Asks P := by
  refine hp.bind fun result => ?_
  cases result with
  | error e => trivial
  | ok a => exact hf a

/-- A program of operations that are good at any time only adds to the past. -/
theorem keeps_of_asks {P : Op → Prop} (hgood : ∀ past op, P op → Good past op)
    {p : Program Op Ans α} (hp : p.Asks P) (past : List (Event Op Ans)) :
    p.Keeps May Good (fun past' _ => past <:+ past') past := by
  induction p generalizing past with
  | ret a => exact List.suffix_refl past
  | ask op next ih =>
      refine ⟨hgood past op hp.1, fun answer _ => ?_⟩
      exact (ih answer (hp.2 answer) _).mono fun past' _ h => (List.suffix_cons _ _).trans h

end Program

/-! ### A program under way -/

/-- What a program has asked for so far, the latest first, and what is left of it. -/
structure Underway (Op : Type u) (Ans : Op → Type v) (α : Type w) where
  past : List (Event Op Ans)
  rest : Program Op Ans α

namespace Underway

variable {Op : Type u} {Ans : Op → Type v} {α : Type w} {S : Type x}

/-- The next operation. -/
def step (handle : (op : Op) → S → Ans op × S) (s : S) (p : Underway Op Ans α) :
    S × Underway Op Ans α :=
  match p.rest with
  | .ret _ => (s, p)
  | .ask op next => ((handle op s).2, ⟨⟨op, (handle op s).1⟩ :: p.past, next (handle op s).1⟩)

variable {handle : (op : Op) → S → Ans op × S} {s : S} {p : Underway Op Ans α}

theorem step_of_ret {a : α} (h : p.rest = .ret a) : p.step handle s = (s, p) := by
  unfold step
  rw [h]

theorem step_of_ask {op : Op} {next : Ans op → Program Op Ans α} (h : p.rest = .ask op next) :
    p.step handle s =
      ((handle op s).2, ⟨⟨op, (handle op s).1⟩ :: p.past, next (handle op s).1⟩) := by
  unfold step
  rw [h]

variable {May : (op : Op) → Ans op → Prop} {Good : List (Event Op Ans) → Op → Prop}
  {Post : List (Event Op Ans) → α → Prop}

/-- An admissible answer leaves what is kept. -/
theorem keeps_step (hmay : ∀ op, May op (handle op s).1)
    (h : p.rest.Keeps May Good Post p.past) :
    (p.step handle s).2.rest.Keeps May Good Post (p.step handle s).2.past := by
  cases hrest : p.rest with
  | ret a =>
      rw [step_of_ret hrest]
      exact h
  | ask op next =>
      rw [hrest] at h
      rw [step_of_ask hrest]
      exact h.2 _ (hmay op)

/-- The operation that comes next is good. -/
theorem good_of_ask {op : Op} {next : Ans op → Program Op Ans α} (hrest : p.rest = .ask op next)
    (h : p.rest.Keeps May Good Post p.past) : Good p.past op := by
  rw [hrest] at h
  exact h.1

end Underway
end Foundation
end Artifacts
