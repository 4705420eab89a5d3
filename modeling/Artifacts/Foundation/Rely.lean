import Artifacts.Foundation.Interleaving
import Artifacts.Foundation.Programs
import Artifacts.Foundation.Runs

/-!
# Programs that rely on each other

Programs work side by side on one state, one operation at a time; how an operation goes is
up to its surroundings too.  A relation between states says what all of them may do to the
state and what each of them can live with.  `Relies` is what one program needs: from any
state the others may have made, each of its operations is one they can live with, and what
it returns in the end is true then and stays true.

The relation has to be reflexive and transitive, which is what makes a promise stable.  A program
that stops in the middle, for whatever reason, breaks nothing: its promise was only about its
end.
-/

namespace Artifacts
namespace Foundation
namespace Program

universe u v w x y

variable {Op : Type u} {Ans : Op → Type v} {α β : Type w} {S : Type x} {W : Type y}

/-- Whatever the others do in between and however its operations go, the program ends in states with
`Post`, and each of its own operations is one that the others can rely on. -/
def Relies (handle : W → (op : Op) → S → Ans op × S) (Rely : S → S → Prop)
    (Post : α → S → Prop) : Program Op Ans α → S → Prop
  | .ret a, s => ∀ s', Rely s s' → Post a s'
  | .ask op next, s => ∀ s', Rely s s' → ∀ w,
      Rely s' (handle w op s').2 ∧
        (next (handle w op s').1).Relies handle Rely Post (handle w op s').2

variable {handle : W → (op : Op) → S → Ans op × S} {Rely : S → S → Prop}
  {Post : α → S → Prop} {s s' : S}

theorem relies_ret {a : α} (h : ∀ s', Rely s s' → Post a s') :
    (ret a : Program Op Ans α).Relies handle Rely Post s := h

/-- What the others do takes nothing away. -/
theorem Relies.stable (htrans : ∀ {s s' s''}, Rely s s' → Rely s' s'' → Rely s s'')
    {p : Program Op Ans α} (h : p.Relies handle Rely Post s) (hrely : Rely s s') :
    p.Relies handle Rely Post s' := by
  cases p with
  | ret a => exact fun s'' hrely' => h s'' (htrans hrely hrely')
  | ask op next => exact fun s'' hrely' => h s'' (htrans hrely hrely')

theorem Relies.mono {Post' : α → S → Prop} {p : Program Op Ans α}
    (h : p.Relies handle Rely Post s) (hpost : ∀ a s, Post a s → Post' a s) :
    p.Relies handle Rely Post' s := by
  induction p generalizing s with
  | ret a => exact fun s' hrely => hpost a s' (h s' hrely)
  | ask op next ih =>
      intro s' hrely w
      obtain ⟨hkeep, hnext⟩ := h s' hrely w
      exact ⟨hkeep, ih _ hnext⟩

/-- Sequencing. -/
theorem Relies.bind (hrefl : ∀ s, Rely s s) {Post' : β → S → Prop} {p : Program Op Ans α}
    {f : α → Program Op Ans β}
    (h : p.Relies handle Rely (fun a s => (f a).Relies handle Rely Post' s) s) :
    (p.bind f).Relies handle Rely Post' s := by
  induction p generalizing s with
  | ret a => exact h s (hrefl s)
  | ask op next ih =>
      intro s' hrely w
      obtain ⟨hkeep, hnext⟩ := h s' hrely w
      exact ⟨hkeep, ih _ hnext⟩

/-- Sequencing of programs that fail. -/
theorem Relies.andThen {ε : Type w} (hrefl : ∀ s, Rely s s)
    {Post' : Except ε β → S → Prop} {p : Program Op Ans (Except ε α)}
    {f : α → Program Op Ans (Except ε β)}
    (h : p.Relies handle Rely (fun result s => match result with
      | .error e => ∀ s', Rely s s' → Post' (.error e) s'
      | .ok a => (f a).Relies handle Rely Post' s) s) :
    (p.andThen f).Relies handle Rely Post' s := by
  refine Relies.bind hrefl (h.mono fun result s hresult => ?_)
  cases result with
  | error e => exact hresult
  | ok a => exact hresult

/-- One operation, with something about its answer that stays true. -/
theorem relies_perform {op : Op} {Post : Ans op → S → Prop} {Rely : S → S → Prop}
    {handle : W → (op : Op) → S → Ans op × S}
    (hstable : ∀ answer {s s'}, Rely s s' → Post answer s → Post answer s')
    (h : ∀ s', Rely s s' → ∀ w,
      Rely s' (handle w op s').2 ∧ Post (handle w op s').1 (handle w op s').2) :
    (perform op : Program Op Ans (Ans op)).Relies handle Rely Post s := by
  intro s' hrely w
  obtain ⟨hkeep, hpost⟩ := h s' hrely w
  exact ⟨hkeep, fun s'' hrely' => hstable _ hrely' hpost⟩

/-- The operations of a program that runs alone, one after the other. -/
theorem Asks.run {handle : (op : Op) → S → Ans op × S} {P : Op → Prop} {R : S → S → Prop}
    (hrefl : ∀ s, R s s) (htrans : ∀ {s s' s''}, R s s' → R s' s'' → R s s'')
    (hop : ∀ op s, P op → R s (handle op s).2) {p : Program Op Ans α} (hp : p.Asks P) (s : S) :
    R s (p.run handle s).2 := by
  induction p generalizing s with
  | ret a => exact hrefl s
  | ask op next ih => exact htrans (hop op s hp.1) (ih _ (hp.2 _) _)

end Program

/-! ### Side by side -/

section SideBySide

universe u v w x y z

variable {Op : Type u} {Ans : Op → Type v} {α : Type w} {S : Type x} {W : Type y} {κ : Type z}
  [DecidableEq κ]

/-- One of the programs goes on by one operation. -/
def sideBySide (handle : W → (op : Op) → S → Ans op × S) (c : Calls κ S (Underway Op Ans α))
    (m : Move κ W Empty) : Calls κ S (Underway Op Ans α) :=
  c.move (fun _ w s p => p.step (handle w) s) (fun e _ => e.elim) m

variable {handle : W → (op : Op) → S → Ans op × S} {Rely : S → S → Prop}
  {Post : κ → α → S → Prop} {c : Calls κ S (Underway Op Ans α)}

theorem Underway.step_relies (hrefl : ∀ s, Rely s s) {Post : α → S → Prop} {s : S}
    {p : Underway Op Ans α} (h : p.rest.Relies handle Rely Post s) (w : W) :
    Rely s (p.step (handle w) s).1 ∧
      (p.step (handle w) s).2.rest.Relies handle Rely Post (p.step (handle w) s).1 := by
  cases hrest : p.rest with
  | ret a =>
      rw [step_of_ret hrest]
      exact ⟨hrefl s, h⟩
  | ask op next =>
      rw [hrest] at h
      rw [step_of_ask hrest]
      exact h s (hrefl s) w

/-- The step lemma: one move is what all can live with. -/
theorem sideBySide_relies (hrefl : ∀ s, Rely s s)
    (htrans : ∀ {s s' s''}, Rely s s' → Rely s' s'' → Rely s s'')
    (h : ∀ k, (c.place k).rest.Relies handle Rely (Post k) c.shared) (m : Move κ W Empty) :
    Rely c.shared (sideBySide handle c m).shared ∧
      ∀ k, ((sideBySide handle c m).place k).rest.Relies handle Rely (Post k)
        (sideBySide handle c m).shared := by
  constructor
  · cases m with
    | call k w => exact (Underway.step_relies hrefl (h k) w).1
    | env e => exact e.elim
  · apply Calls.move_keeps (A := fun k s (p : Underway Op Ans α) =>
      p.rest.Relies handle Rely (Post k) s)
    · intro k w s p hp
      exact (Underway.step_relies hrefl hp w).2
    · intro k j w s p q _ hp hq
      have hmine : p.rest.Relies handle Rely (Post k) s := hp
      have hstep : Rely s (q.step (handle w) s).1 := (Underway.step_relies hrefl hq w).1
      exact Program.Relies.stable @htrans hmine hstep
    · intro k e
      exact e.elim
    · exact h

/-- **The run lemma.** -/
theorem run_relies (hrefl : ∀ s, Rely s s)
    (htrans : ∀ {s s' s''}, Rely s s' → Rely s' s'' → Rely s s'')
    (h : ∀ k, (c.place k).rest.Relies handle Rely (Post k) c.shared) (moves : List (Move κ W Empty)) :
    EveryState (sideBySide handle)
      (fun c' => Rely c.shared c'.shared ∧
        ∀ k a, (c'.place k).rest = .ret a → Post k a c'.shared) c moves := by
  have hreturned : ∀ c' : Calls κ S (Underway Op Ans α),
      (∀ k, (c'.place k).rest.Relies handle Rely (Post k) c'.shared) →
      ∀ k a, (c'.place k).rest = .ret a → Post k a c'.shared := by
    intro c' hc' k a hrest
    have hret := hc' k
    rw [hrest] at hret
    exact hret c'.shared (hrefl _)
  have hkept : ∀ pre : List (Move κ W Empty),
      Rely c.shared (pre.foldl (sideBySide handle) c).shared ∧
        ∀ k, ((pre.foldl (sideBySide handle) c).place k).rest.Relies handle Rely (Post k)
          (pre.foldl (sideBySide handle) c).shared := by
    intro pre
    induction pre using List.reverseRecOn with
    | nil => exact ⟨hrefl _, h⟩
    | append_singleton pre m ih =>
        rw [List.foldl_append]
        obtain ⟨hrely, hall⟩ := sideBySide_relies hrefl @htrans ih.2 m
        exact ⟨htrans ih.1 hrely, hall⟩
  rw [ everyState_iff_prefix]
  intro pre _
  exact ⟨(hkept pre).1, hreturned _ (hkept pre).2⟩

end SideBySide
end Foundation
end Artifacts
