import Artifacts.Error
import Artifacts.Foundation.Reachability

/-!
# Running a child of git

`run_git` writes all of stdin, then reads all of stdout, then all of stderr, and waits for
the child.  The three pipes hold a bounded number of bytes.  A child that writes more than
they hold, while `run_git` is still at an earlier stream, waits for `run_git`, and
`run_git` waits for it.

`Child` is any program that ends, byte by byte.  `Fits` says by recursion on the child how much
it may write before it has read; it is an invariant of every step, and a state that is stuck
does not have it.  Timeouts and killed children are not part of this, nor what the child prints.
-/

namespace Artifacts
namespace GitCmd

open Foundation Relation

/-- What a child still does.  `read` gets the next byte of its stdin, or `none` at the end. -/
inductive Child where
  | exit (status : Option Int)
  | read (next : Option UInt8 → Child)
  | out (b : UInt8) (next : Child)
  | err (b : UInt8) (next : Child)

def Child.exited : Child → Bool
  | .exit _ => true
  | _ => false

/-- How many bytes the pipes hold. Any capacities will do, as long as a pipe holds a byte; on Linux
a pipe holds 65536. -/
structure Capacities where
  stdin : Nat
  stdout : Nat
  stderr : Nat
  stdin_pos : 0 < stdin
  stdout_pos : 0 < stdout
  stderr_pos : 0 < stderr

/-- Where `run_git` is: what is left to write to stdin, or which stream it reads. -/
inductive Phase where
  | writeAll (left : List UInt8)
  | readStdout
  | readStderr
  | wait
  | returned (result : Result (Int × List UInt8 × List UInt8))

/-- The write end of stdin is open. -/
def Phase.writing : Phase → Bool
  | .writeAll _ => true
  | _ => false

/-- What is left to write. -/
def Phase.left : Phase → List UInt8
  | .writeAll left => left
  | _ => []

/-- `run_git` and its child: what is in the pipes, and what `run_git` has read. -/
structure Running where
  phase : Phase
  stdin : List UInt8
  stdout : List UInt8
  stderr : List UInt8
  gotStdout : List UInt8
  gotStderr : List UInt8
  child : Child

/-- Behind `spawn`.  Without bytes for it, stdin is the null device. -/
def spawn (stdin : Option (List UInt8)) (child : Child) : Running where
  phase :=
    match stdin with
    | some data => .writeAll data
    | none => .readStdout
  stdin := []
  stdout := []
  stderr := []
  gotStdout := []
  gotStderr := []
  child := child

/-- The next step of `run_git`, unless it has to wait. -/
def runGitStep (caps : Capacities) (s : Running) : Option Running :=
  match s.phase with
  | .writeAll [] => some { s with phase := .readStdout }
  | .writeAll (b :: left) =>
      if s.child.exited then
        some { s with phase := .returned (.error (.io "Broken pipe (os error 32)")) }
      else if s.stdin.length < caps.stdin then
        some { s with phase := .writeAll left, stdin := s.stdin ++ [b] }
      else none
  | .readStdout =>
      match s.stdout with
      | b :: rest => some { s with stdout := rest, gotStdout := s.gotStdout ++ [b] }
      | [] => if s.child.exited then some { s with phase := .readStderr } else none
  | .readStderr =>
      match s.stderr with
      | b :: rest => some { s with stderr := rest, gotStderr := s.gotStderr ++ [b] }
      | [] => if s.child.exited then some { s with phase := .wait } else none
  | .wait =>
      match s.child with
      | .exit status =>
          some { s with phase := .returned (.ok (status.getD (-1), s.gotStdout, s.gotStderr)) }
      | _ => none
  | .returned _ => none

/-- The next step of the child, unless it has to wait. -/
def childStep (caps : Capacities) (s : Running) : Option Running :=
  match s.child with
  | .exit _ => none
  | .read next =>
      match s.stdin with
      | b :: rest => some { s with stdin := rest, child := next (some b) }
      | [] => if s.phase.writing then none else some { s with child := next none }
  | .out b next =>
      if s.stdout.length < caps.stdout then
        some { s with stdout := s.stdout ++ [b], child := next }
      else none
  | .err b next =>
      if s.stderr.length < caps.stderr then
        some { s with stderr := s.stderr ++ [b], child := next }
      else none

/-- A step of either, of `run_git` or of the child. The order of the two is not fixed, so a run is
any interleaving. -/
def Step (caps : Capacities) (s s' : Running) : Prop :=
  runGitStep caps s = some s' ∨ childStep caps s = some s'

/-- Both are at a pipe, and neither can go on. `run_git` is writing or reading, the child has not
exited, and no step of either is possible any more. -/
structure Deadlocked (caps : Capacities) (s : Running) : Prop where
  runGit : runGitStep caps s = none
  atPipe : s.phase.writing = true ∨ s.phase = .readStdout ∨ s.phase = .readStderr
  child : childStep caps s = none
  alive : s.child.exited = false

/-! ### What fits -/

/-- The child keeps to what the pipes hold.  Of its stdin `unread` is left, and `o` and `e`
bytes have gone to stdout and stderr.  A byte for stdout needs room in the pipe, unless so
little of stdin is left that `run_git` comes to read stdout.  One for stderr needs room. -/
def Fits (caps : Capacities) : Child → List UInt8 → Nat → Nat → Prop
  | .exit _, _, _, _ => True
  | .read next, [], o, e => Fits caps (next none) [] o e
  | .read next, b :: unread, o, e => Fits caps (next (some b)) unread o e
  | .out _ next, unread, o, e =>
      (o < caps.stdout ∨ unread.length ≤ caps.stdin) ∧ Fits caps next unread (o + 1) e
  | .err _ next, unread, o, e => e < caps.stderr ∧ Fits caps next unread o (e + 1)

/-- The same of a state. -/
def Running.Fits (caps : Capacities) (s : Running) : Prop :=
  GitCmd.Fits caps s.child (s.stdin ++ s.phase.left) (s.gotStdout.length + s.stdout.length)
    (s.gotStderr.length + s.stderr.length)

/-! ### The steps, one by one -/

/-- What `run_git` can do, with what each step needs: room in a pipe to write to it, a byte in a
pipe to read one, and the end of the child to see the end of its output. -/
inductive RunGitMoves (caps : Capacities) (s : Running) : Running → Prop where
  | shutdown (hphase : s.phase = .writeAll []) :
      RunGitMoves caps s { s with phase := .readStdout }
  | brokenPipe {b : UInt8} {left : List UInt8} (hphase : s.phase = .writeAll (b :: left))
      (hexited : s.child.exited = true) :
      RunGitMoves caps s
        { s with phase := .returned (.error (.io "Broken pipe (os error 32)")) }
  | write {b : UInt8} {left : List UInt8} (hphase : s.phase = .writeAll (b :: left))
      (hroom : s.stdin.length < caps.stdin) :
      RunGitMoves caps s { s with phase := .writeAll left, stdin := s.stdin ++ [b] }
  | readStdout {b : UInt8} {rest : List UInt8} (hphase : s.phase = .readStdout)
      (hstdout : s.stdout = b :: rest) :
      RunGitMoves caps s { s with stdout := rest, gotStdout := s.gotStdout ++ [b] }
  | endStdout (hphase : s.phase = .readStdout) (hexited : s.child.exited = true) :
      RunGitMoves caps s { s with phase := .readStderr }
  | readStderr {b : UInt8} {rest : List UInt8} (hphase : s.phase = .readStderr)
      (hstderr : s.stderr = b :: rest) :
      RunGitMoves caps s { s with stderr := rest, gotStderr := s.gotStderr ++ [b] }
  | endStderr (hphase : s.phase = .readStderr) (hexited : s.child.exited = true) :
      RunGitMoves caps s { s with phase := .wait }
  | wait {status : Option Int} (hphase : s.phase = .wait) (hchild : s.child = .exit status) :
      RunGitMoves caps s
        { s with phase := .returned (.ok (status.getD (-1), s.gotStdout, s.gotStderr)) }

/-- What the child can do. It sees the end of its input once `run_git` has stopped writing; what it
writes needs room in the pipe. -/
inductive ChildMoves (caps : Capacities) (s : Running) : Running → Prop where
  | read {next : Option UInt8 → Child} {b : UInt8} {rest : List UInt8}
      (hchild : s.child = .read next) (hstdin : s.stdin = b :: rest) :
      ChildMoves caps s { s with stdin := rest, child := next (some b) }
  | readEnd {next : Option UInt8 → Child} (hchild : s.child = .read next) (hstdin : s.stdin = [])
      (hclosed : s.phase.writing = false) :
      ChildMoves caps s { s with child := next none }
  | out {b : UInt8} {next : Child} (hchild : s.child = .out b next)
      (hroom : s.stdout.length < caps.stdout) :
      ChildMoves caps s { s with stdout := s.stdout ++ [b], child := next }
  | err {b : UInt8} {next : Child} (hchild : s.child = .err b next)
      (hroom : s.stderr.length < caps.stderr) :
      ChildMoves caps s { s with stderr := s.stderr ++ [b], child := next }

section Steps

variable {caps : Capacities} {s s' : Running}

theorem runGitStep_moves (h : runGitStep caps s = some s') : RunGitMoves caps s s' := by
  unfold runGitStep at h
  split at h
  · next hphase =>
      cases h
      exact .shutdown hphase
  · next b left hphase =>
      split_ifs at h with hexited hroom
      · cases h
        exact .brokenPipe hphase hexited
      · cases h
        exact .write hphase hroom
  · next hphase =>
      split at h
      · next b rest hstdout =>
          cases h
          exact .readStdout hphase hstdout
      · split_ifs at h with hexited
        cases h
        exact .endStdout hphase hexited
  · next hphase =>
      split at h
      · next b rest hstderr =>
          cases h
          exact .readStderr hphase hstderr
      · split_ifs at h with hexited
        cases h
        exact .endStderr hphase hexited
  · next hphase =>
      split at h
      · next status hchild =>
          cases h
          exact .wait hphase hchild
      · cases h
  · cases h

theorem childStep_moves (h : childStep caps s = some s') : ChildMoves caps s s' := by
  unfold childStep at h
  split at h
  · cases h
  · next next hchild =>
      split at h
      · next b rest hstdin =>
          cases h
          exact .read hchild hstdin
      · next hstdin =>
          split_ifs at h with hwriting
          cases h
          exact .readEnd hchild hstdin (Bool.eq_false_iff.mpr hwriting)
  · next b next hchild =>
      split_ifs at h with hroom
      cases h
      exact .out hchild hroom
  · next b next hchild =>
      split_ifs at h with hroom
      cases h
      exact .err hchild hroom

end Steps

/-! ### Every run ends -/

/-- What a child still does behind one of its calls. A child does finitely much whatever it reads,
and this is what inductions on it go along. -/
inductive Child.Later : Child → Child → Prop where
  | read (next : Option UInt8 → Child) (b : Option UInt8) : Later (next b) (.read next)
  | out (b : UInt8) (next : Child) : Later next (.out b next)
  | err (b : UInt8) (next : Child) : Later next (.err b next)

theorem Child.later_wellFounded : WellFounded Child.Later := by
  constructor
  intro child
  induction child with
  | exit status =>
      constructor
      intro later h
      cases h
  | read next ih =>
      constructor
      intro later h
      cases h with
      | read _ b => exact ih b
  | out b next ih =>
      constructor
      intro later h
      cases h
      exact ih
  | err b next ih =>
      constructor
      intro later h
      cases h
      exact ih

/-- How many steps a phase can take, but for the bytes it reads. -/
def Phase.rank : Phase → Nat
  | .writeAll left => left.length + 4
  | .readStdout => 3
  | .readStderr => 2
  | .wait => 1
  | .returned _ => 0

/-- What `run_git` can do without its child. -/
def Running.work (s : Running) : Nat := s.phase.rank + s.stdout.length + s.stderr.length

section Ends

variable {caps : Capacities} {s s' : Running}

theorem RunGitMoves.work (h : RunGitMoves caps s s') : s'.child = s.child ∧ s'.work < s.work := by
  unfold Running.work
  cases h with
  | shutdown hphase => simp [hphase, Phase.rank]
  | brokenPipe hphase hexited => simp [hphase, Phase.rank]
  | write hphase hroom => simp [hphase, Phase.rank]
  | readStdout hphase hstdout => simp [hphase, Phase.rank, hstdout]
  | endStdout hphase hexited => simp [hphase, Phase.rank]
  | readStderr hphase hstderr => simp [hphase, Phase.rank, hstderr]
  | endStderr hphase hexited => simp [hphase, Phase.rank]
  | wait hphase hchild => simp [hphase, Phase.rank]

theorem ChildMoves.later (h : ChildMoves caps s s') : s'.child.Later s.child := by
  cases h with
  | read hchild hstdin =>
      rw [hchild]
      exact .read _ _
  | readEnd hchild hstdin hclosed =>
      rw [hchild]
      exact .read _ _
  | out hchild hroom =>
      rw [hchild]
      exact .out _ _
  | err hchild hroom =>
      rw [hchild]
      exact .err _ _

/-- A step of the child leaves less of it, and one of `run_git` less to do for the child. -/
theorem step_wellFounded (caps : Capacities) : WellFounded fun s' s => Step caps s s' := by
  have hlex : WellFounded (Prod.Lex Child.Later (· < · : Nat → Nat → Prop)) :=
    WellFounded.prod_lex Child.later_wellFounded Nat.lt_wfRel.wf
  refine Subrelation.wf ?_ (InvImage.wf (fun s : Running => (s.child, s.work)) hlex)
  intro s' s h
  show Prod.Lex _ _ (s'.child, s'.work) (s.child, s.work)
  rw [Prod.lex_def]
  cases h with
  | inl hrun => exact Or.inr (runGitStep_moves hrun).work
  | inr hchild => exact Or.inl (childStep_moves hchild).later

end Ends

/-! ### What every step keeps -/

/-- The invariant: `run_git` reads nothing before it has written all of stdin, and comes to
stderr only when the child has exited. -/
structure Inv (caps : Capacities) (s : Running) : Prop where
  stdin : s.stdin.length ≤ caps.stdin
  unreadStdout : s.phase.writing = true → s.gotStdout = []
  unreadStderr : s.child.exited = false →
    (s.phase.writing = true ∨ s.phase = .readStdout) ∧ s.gotStderr = []

theorem inv_spawn (caps : Capacities) (stdin : Option (List UInt8)) (child : Child) :
    Inv caps (spawn stdin child) := by
  refine ⟨Nat.zero_le _, fun _ => rfl, fun _ => ⟨?_, rfl⟩⟩
  cases stdin with
  | none => exact Or.inr rfl
  | some data => exact Or.inl rfl

section Keeps

variable {caps : Capacities} {s s' : Running}

theorem Inv.runGit (h : Inv caps s) (hmove : RunGitMoves caps s s') : Inv caps s' := by
  obtain ⟨hstdin, hout, herr⟩ := h
  cases hmove with
  | shutdown hphase =>
      refine ⟨hstdin, nofun, fun halive => ⟨Or.inr rfl, (herr halive).2⟩⟩
  | brokenPipe hphase hexited =>
      exact ⟨hstdin, nofun, fun halive => absurd (hexited.symm.trans halive) nofun⟩
  | write hphase hroom =>
      refine ⟨?_, ?_, fun halive => ⟨Or.inl rfl, (herr halive).2⟩⟩
      · rw [List.length_append, List.length_singleton]
        omega
      · intro _
        exact hout (by rw [hphase]; rfl)
  | readStdout hphase hstdout =>
      refine ⟨hstdin, ?_, herr⟩
      intro hwriting
      rw [hphase] at hwriting
      cases hwriting
  | endStdout hphase hexited =>
      exact ⟨hstdin, nofun, fun halive => absurd (hexited.symm.trans halive) nofun⟩
  | readStderr hphase hstderr =>
      refine ⟨hstdin, hout, fun halive => ?_⟩
      obtain ⟨hwhere, -⟩ := herr halive
      rw [hphase] at hwhere
      cases hwhere with
      | inl hwriting => cases hwriting
      | inr hstdout => cases hstdout
  | endStderr hphase hexited =>
      exact ⟨hstdin, nofun, fun halive => absurd (hexited.symm.trans halive) nofun⟩
  | wait hphase hchild =>
      refine ⟨hstdin, nofun, fun halive => ?_⟩
      rw [hchild] at halive
      cases halive

theorem Inv.child (h : Inv caps s) (hmove : ChildMoves caps s s') : Inv caps s' := by
  obtain ⟨hstdin, hout, herr⟩ := h
  cases hmove with
  | read hchild hbytes =>
      rw [hbytes, List.length_cons] at hstdin
      exact ⟨Nat.le_of_succ_le hstdin, hout, fun _ => herr (by rw [hchild]; rfl)⟩
  | readEnd hchild hbytes hclosed => exact ⟨hstdin, hout, fun _ => herr (by rw [hchild]; rfl)⟩
  | out hchild hroom => exact ⟨hstdin, hout, fun _ => herr (by rw [hchild]; rfl)⟩
  | err hchild hroom => exact ⟨hstdin, hout, fun _ => herr (by rw [hchild]; rfl)⟩

theorem Inv.step (h : Inv caps s) (hstep : Step caps s s') : Inv caps s' := by
  cases hstep with
  | inl hrun => exact h.runGit (runGitStep_moves hrun)
  | inr hchild => exact h.child (childStep_moves hchild)

/-- What is left of stdin when it is closed is in the pipe. -/
theorem Phase.left_of_closed {phase : Phase} (h : phase.writing = false) : phase.left = [] := by
  cases phase with
  | writeAll left => cases h
  | readStdout => rfl
  | readStderr => rfl
  | wait => rfl
  | returned result => rfl

theorem Running.fits_of_exited (h : s.child.exited = true) : s.Fits caps := by
  unfold Running.Fits
  cases hchild : s.child with
  | exit status => trivial
  | read next => rw [hchild] at h; cases h
  | out b next => rw [hchild] at h; cases h
  | err b next => rw [hchild] at h; cases h

/-- `run_git` does not change what the child finds to read, or has written. -/
theorem fits_runGit (hmove : RunGitMoves caps s s') : s'.Fits caps ↔ s.Fits caps := by
  cases hmove with
  | shutdown hphase => simp [Running.Fits, hphase, Phase.left]
  | brokenPipe hphase hexited =>
      exact iff_of_true (Running.fits_of_exited hexited) (Running.fits_of_exited hexited)
  | write hphase hroom => simp [Running.Fits, hphase, Phase.left]
  | readStdout hphase hstdout =>
      simp [Running.Fits, hphase, Phase.left, hstdout, Nat.add_assoc, Nat.add_comm 1]
  | endStdout hphase hexited => simp [Running.Fits, hphase, Phase.left]
  | readStderr hphase hstderr =>
      simp [Running.Fits, hphase, Phase.left, hstderr, Nat.add_assoc, Nat.add_comm 1]
  | endStderr hphase hexited => simp [Running.Fits, hphase, Phase.left]
  | wait hphase hchild => simp [Running.Fits, hphase, Phase.left]

/-- A call of the child that is made has fitted. -/
theorem Inv.fits_child (h : Inv caps s) (hmove : ChildMoves caps s s') :
    s'.Fits caps ↔ s.Fits caps := by
  cases hmove with
  | read hchild hbytes => simp [Running.Fits, GitCmd.Fits, hchild, hbytes]
  | readEnd hchild hbytes hclosed =>
      simp [Running.Fits, GitCmd.Fits, hchild, hbytes, Phase.left_of_closed hclosed]
  | @out b next hchild hroom =>
      have hfits : s.gotStdout.length + s.stdout.length < caps.stdout ∨
          s.stdin.length + s.phase.left.length ≤ caps.stdin := by
        obtain ⟨hwhere, -⟩ := h.unreadStderr (by rw [hchild]; rfl)
        cases hwhere with
        | inl hwriting =>
            left
            rw [h.unreadStdout hwriting, List.length_nil, Nat.zero_add]
            exact hroom
        | inr hphase =>
            right
            have hclosed : s.phase.writing = false := by
              rw [hphase]
              rfl
            rw [Phase.left_of_closed hclosed, List.length_nil, Nat.add_zero]
            exact h.stdin
      simp only [Running.Fits, GitCmd.Fits, hchild, hfits, true_and, List.length_append,
        List.length_singleton, Nat.add_assoc]
  | @err b next hchild hroom =>
      have hfits : s.gotStderr.length + s.stderr.length < caps.stderr := by
        obtain ⟨-, hnone⟩ := h.unreadStderr (by rw [hchild]; rfl)
        rw [hnone, List.length_nil, Nat.zero_add]
        exact hroom
      simp only [Running.Fits, GitCmd.Fits, hchild, hfits, true_and, List.length_append,
        List.length_singleton, Nat.add_assoc]

/-- Whether the child fits does not change. -/
theorem Inv.fits_step (h : Inv caps s) (hstep : Step caps s s') : s'.Fits caps ↔ s.Fits caps := by
  cases hstep with
  | inl hrun => exact fits_runGit (runGitStep_moves hrun)
  | inr hchild => exact h.fits_child (childStep_moves hchild)

end Keeps

/-! ### Deadlocks -/

section Deadlocks

variable {caps : Capacities} {s : Running}

/-- `run_git` waits to write when the pipe is full. -/
theorem full_of_blocked (hrun : runGitStep caps s = none) (hwriting : s.phase.writing = true)
    (halive : s.child.exited = false) :
    caps.stdin ≤ s.stdin.length ∧ 0 < s.phase.left.length := by
  cases hphase : s.phase with
  | writeAll left =>
      cases left with
      | nil => simp [runGitStep, hphase] at hrun
      | cons b left =>
          simp only [runGitStep, hphase, halive, Bool.false_eq_true, if_false,
            ite_eq_right_iff, reduceCtorEq, imp_false] at hrun
          exact ⟨Nat.le_of_not_lt hrun, Nat.succ_pos _⟩
  | readStdout => rw [hphase] at hwriting; cases hwriting
  | readStderr => rw [hphase] at hwriting; cases hwriting
  | wait => rw [hphase] at hwriting; cases hwriting
  | returned result => rw [hphase] at hwriting; cases hwriting

/-- It waits to read when the pipe is empty. -/
theorem empty_of_blocked (hrun : runGitStep caps s = none) (hphase : s.phase = .readStdout) :
    s.stdout = [] := by
  cases hstdout : s.stdout with
  | nil => rfl
  | cons b rest => simp [runGitStep, hphase, hstdout] at hrun

/-- What does not fit keeps the child from its call, and `run_git` waits for the child. -/
theorem Deadlocked.not_fits (h : Deadlocked caps s) (hinv : Inv caps s) : ¬ s.Fits caps := by
  obtain ⟨hrun, -, hwaits, halive⟩ := h
  obtain ⟨hwhere, hnone⟩ := hinv.unreadStderr halive
  intro hfits
  unfold Running.Fits at hfits
  cases hchild : s.child with
  | exit status =>
      rw [hchild] at halive
      cases halive
  | read next =>
      -- the child finds nothing, so there is room for a byte
      have hnothing : s.stdin = [] ∧ s.phase.writing = true := by
        cases hstdin : s.stdin with
        | nil => simpa [childStep, hchild, hstdin] using hwaits
        | cons b rest => simp [childStep, hchild, hstdin] at hwaits
      have hfull := (full_of_blocked hrun hnothing.2 halive).1
      rw [hnothing.1, List.length_nil] at hfull
      have hpos := caps.stdin_pos
      omega
  | out b next =>
      have hfull : caps.stdout ≤ s.stdout.length := by
        simpa [childStep, hchild] using hwaits
      rw [hchild] at hfits
      cases hwhere with
      | inl hwriting =>
          have hstdin := full_of_blocked hrun hwriting halive
          have hroom := hfits.1
          rw [hinv.unreadStdout hwriting, List.length_nil, List.length_append] at hroom
          omega
      | inr hphase =>
          rw [empty_of_blocked hrun hphase, List.length_nil] at hfull
          have hpos := caps.stdout_pos
          omega
  | err b next =>
      have hfull : caps.stderr ≤ s.stderr.length := by
        simpa [childStep, hchild] using hwaits
      rw [hchild] at hfits
      have hroom := hfits.1
      rw [hnone, List.length_nil] at hroom
      omega

/-- A state without a next one is a deadlock when the child has not exited. -/
theorem deadlocked_of_stuck (hinv : Inv caps s) (hstuck : ∀ s', ¬ Step caps s s')
    (halive : s.child.exited = false) : Deadlocked caps s := by
  refine ⟨?_, ?_, ?_, halive⟩
  · rw [Option.eq_none_iff_forall_ne_some]
    exact fun s' hrun => hstuck s' (Or.inl hrun)
  · obtain ⟨hwhere, -⟩ := hinv.unreadStderr halive
    cases hwhere with
    | inl hwriting => exact Or.inl hwriting
    | inr hphase => exact Or.inr (Or.inl hphase)
  · rw [Option.eq_none_iff_forall_ne_some]
    exact fun s' hchild => hstuck s' (Or.inr hchild)

end Deadlocks

/-- What holds at every state of a run. -/
theorem inv_of_reaches {caps : Capacities} {stdin : Option (List UInt8)} {child : Child}
    {s : Running} (h : ReflTransGen (Step caps) (spawn stdin child) s) :
    Inv caps s ∧ (s.Fits caps ↔ Fits caps child (stdin.getD []) 0 0) := by
  have hspawn : (spawn stdin child).Fits caps ↔ Fits caps child (stdin.getD []) 0 0 := by
    cases stdin with
    | none => exact Iff.rfl
    | some data => exact Iff.rfl
  have hkeep : ∀ a b, Inv caps a ∧ (a.Fits caps ↔ Fits caps child (stdin.getD []) 0 0) →
      Step caps a b → Inv caps b ∧ (b.Fits caps ↔ Fits caps child (stdin.getD []) 0 0) :=
    fun a b ha hab => ⟨ha.1.step hab, (ha.1.fits_step hab).trans ha.2⟩
  exact holds_of_reaches hkeep ⟨inv_spawn caps stdin child, hspawn⟩ h

/-- A child that does not fit can come to a deadlock. -/
theorem deadlock_of_not_fits {caps : Capacities} {stdin : Option (List UInt8)} {child : Child}
    (h : ¬ Fits caps child (stdin.getD []) 0 0) :
    ∃ s, ReflTransGen (Step caps) (spawn stdin child) s ∧ Deadlocked caps s := by
  obtain ⟨s, hreach, hstuck⟩ := exists_stuck (step_wellFounded caps) (spawn stdin child)
  obtain ⟨hinv, hfits⟩ := inv_of_reaches hreach
  refine ⟨s, hreach, deadlocked_of_stuck hinv hstuck ?_⟩
  by_contra halive
  rw [Bool.not_eq_false] at halive
  exact h (hfits.mp (Running.fits_of_exited halive))

/-- **When `run_git` and its child do not block each other**: exactly when the child fits. The child
is any program that reads its stdin, writes its two outputs and ends, and the capacities of the
pipes are parameters. No step of either is left out, in whatever order they come, so a child that
does not fit has a run that ends with both of them at a pipe. -/
theorem run_git_deadlock_free_iff (caps : Capacities) (stdin : Option (List UInt8))
    (child : Child) :
    (∀ s, ReflTransGen (Step caps) (spawn stdin child) s → ¬ Deadlocked caps s) ↔
      Fits caps child (stdin.getD []) 0 0 := by
  constructor
  · intro h
    by_contra hno
    obtain ⟨s, hreach, hdead⟩ := deadlock_of_not_fits hno
    exact h s hreach hdead
  · intro h s hreach hdead
    obtain ⟨hinv, hfits⟩ := inv_of_reaches hreach
    exact hdead.not_fits hinv (hfits.mpr h)

/-! ### A child with many warnings -/

/-- Pipes of 64 KiB. -/
def linuxPipes : Capacities := ⟨65536, 65536, 65536, by decide, by decide, by decide⟩

/-- A child that writes `n` bytes to stderr and exits. -/
def warnings : Nat → Child
  | 0 => .exit (some 0)
  | n + 1 => .err 119 (warnings n)

theorem lt_of_fits_warnings {caps : Capacities} {unread : List UInt8} {n o e : Nat}
    (h : Fits caps (warnings (n + 1)) unread o e) : e + n < caps.stderr := by
  induction n generalizing e with
  | zero => exact h.1
  | succ n ih =>
      have hrest := ih h.2
      omega

/-- One byte more on stderr than the pipe holds, and neither goes on. -/
theorem warnings_block :
    ¬ ∀ s, ReflTransGen (Step linuxPipes) (spawn none (warnings 65537)) s →
      ¬ Deadlocked linuxPipes s := by
  have hno : ¬ Fits linuxPipes (warnings 65537) ((none : Option (List UInt8)).getD []) 0 0 := by
    intro hfits
    have hlt : 0 + 65536 < linuxPipes.stderr := lt_of_fits_warnings hfits
    exact absurd hlt (by decide)
  intro h
  obtain ⟨s, hreach, hdead⟩ := deadlock_of_not_fits hno
  exact h s hreach hdead

end GitCmd
end Artifacts
