import Artifacts.Foundation.Interleaving
import Artifacts.Foundation.Runs
import Artifacts.Rest.Repos

/-!
# Calls on one id at once

`create_repo`, `fork_repo` and `delete_repo` change the repos directory and the
ownership table in separate steps, without a lock.  `act` takes one call one step
further: a maker checks that the path is free, makes the directory, records the
owner and mints the token; a deleter checks the owner, checks for forks, removes the
directory and deletes the row.  A call that runs alone is the handler.

`create_dir_all` succeeds on a directory that is there, the row is written with
`INSERT OR REPLACE` and deleted without a condition.  So makers that pass the check
together both succeed, and a late deletion takes the row of the next repo.  A fork whose
source is removed behind its check fails, and leaves its directory without a row.
-/

namespace Artifacts
namespace Rest

open Auth Events Foundation Ownership Storage Tokens

/-- A call that makes the repo: from nothing, or as a fork of another one, which may be gone by the
time its directory is made. -/
inductive Maker where
  | create
  | fork (sourceId : String) (readOnly : Bool)

inductive Op where
  | make (maker : Maker)
  | delete (force : Option Bool)

/-- A call for the id, with what belongs to the request: who asks, and the ids and tokens that are
drawn for it. -/
structure Job where
  op : Op
  call : Call

/-- How far a call has come. A maker goes from its check to the directory, the row and the token; a
deleter from its checks to the directory and the row. Between any two of them others may act. -/
inductive Place where
  | start
  /-- A maker found the path free. -/
  | checked (principal : Principal) (sourceId : Option RepoId)
  | made (principal : Principal)
  | recorded (owner : Option Subject)
  | returned (reply : Result RepoHandle)
  /-- A deleter is the owner or the admin. -/
  | allowed
  | unforked
  | removed
  | deleted (reply : Result (List String))

/-- The deployment; which call made the directory that is on disk now; and which calls
returned success since a directory was removed last. -/
structure Site (κ : Type) where
  d : Deployment
  maker : Option κ
  successes : List κ

variable {κ : Type} (lib : Library) (cfg : Config) (id : RepoId) (jobs : κ → Job)

/-- What a fork checks on disk: the source is there and the path is free. -/
def forkPathChecks (disk : Disk) (sourceId forkId : RepoId) : Result Unit :=
  if !disk.isRepo sourceId.text then .error (.repoNotFound sourceId.text)
  else if disk.pathExists forkId.text then .error (.repoExists forkId.text)
  else .ok ()

/-- The first step of a maker. -/
def makerChecks (d : Deployment) (call : Call) : Maker → Result (Principal × Option RepoId)
  | .create => do
      let principal ← createChecks cfg d call
      if d.disk.pathExists id.text then .error (.repoExists id.text)
      else return (principal, none)
  | .fork sourceId _ => do
      let (principal, sourceIdTyped) ← forkChecks cfg d call sourceId
      forkPathChecks d.disk sourceIdTyped id
      return (principal, some sourceIdTyped)

/-- The source of a fork is still on disk. -/
def sourceThere (disk : Disk) : Option RepoId → Bool
  | none => true
  | some source => disk.isRepo source.text

/-- The directory of a new repo, or of a fork with its alternates file and refs.  That the source
of a fork was removed after the check shows only when its `HEAD` is read; the directory and the
alternates file are there by then, and stay. -/
def makeOnDisk (disk : Disk) (sourceId : Option RepoId) : Disk × Result Unit :=
  match sourceId with
  | none => (disk.ensureDir id.text, .ok ())
  | some source =>
      let linked := (disk.ensureDir id.text).writeAlternates cfg.reposDir source.text id.text
      if disk.isRepo source.text then (linked.copyRefs source.text id.text, .ok ())
      else (linked, .error (.io "No such file or directory (os error 2)"))

/-- The directory step succeeds exactly when the source is still there. -/
theorem makeOnDisk_ok_iff (disk : Disk) (sourceId : Option RepoId) :
    (makeOnDisk cfg id disk sourceId).2 = .ok () ↔ sourceThere disk sourceId = true := by
  cases sourceId with
  | none => exact iff_of_true rfl rfl
  | some source =>
      unfold makeOnDisk sourceThere
      dsimp only
      split_ifs with hsource
      · exact iff_of_true rfl hsource
      · exact iff_of_false nofun hsource

/-- The scope of the first token. -/
def Maker.scope : Maker → Scope
  | .create => .write
  | .fork _ readOnly => if readOnly then .read else .write

/-- The event that announces the repo. -/
def Maker.event (call : Call) : Maker → Event
  | .create => .status id.text "unknown" "idle" call.nowMs
  | .fork sourceId _ => .fork sourceId id.text call.nowMs

/-- The last step of a maker. -/
def mintFirst (d : Deployment) (call : Call) (maker : Maker) (owner : Option Subject) :
    Deployment × Result RepoHandle :=
  match d.tokens.mint lib d.now call.randomToken id maker.scope none owner with
  | (_, .error e) => (d, .error e)
  | (tokens, .ok token) =>
      ({ d with
          tokens := tokens
          outbox := d.outbox ++ d.webhooks.publishEvent d.now (maker.event id call) },
        .ok ⟨id.text, remoteUrl cfg id.text token, token⟩)

/-- The first step of a deleter. -/
def ownerChecks (d : Deployment) (call : Call) : Result Unit := do
  let principal ← call.caller
  call.rate
  enforceOwner d.repos principal id.text

/-- The second step of a deleter. -/
def forkCheck (d : Deployment) (cache : String → Option String) (force : Option Bool) :
    Result Unit :=
  match listForksOf (.ok d.disk.names) cache id.text with
  | .error e => .error (.io e)
  | .ok forks =>
      if !forks.isEmpty && !force.getD false then .error (.forkDependency id.text forks)
      else .ok ()

/-- One step of a maker. -/
def makerAct (k : κ) (maker : Maker) (s : Site κ) : Place → Site κ × Place
  | .start =>
      match makerChecks cfg id s.d (jobs k).call maker with
      | .error e => (s, .returned (.error e))
      | .ok (principal, sourceId) => (s, .checked principal sourceId)
  | .checked principal sourceId =>
      let made := makeOnDisk cfg id s.d.disk sourceId
      let s' : Site κ :=
        { s with
          d := { s.d with disk := made.1 }
          maker := if s.d.disk.pathExists id.text then s.maker else some k }
      match made.2 with
      | .error e => (s', .returned (.error e))
      | .ok () => (s', .made principal)
  | .made principal =>
      match typedSubject principal with
      | .error e => (s, .returned (.error e))
      | .ok owner =>
          ({ s with d := { s.d with repos := s.d.repos.recordOwner s.d.now id owner } },
            .recorded owner)
  | .recorded owner =>
      match mintFirst lib cfg id s.d (jobs k).call maker owner with
      | (d, .error e) => ({ s with d := d }, .returned (.error e))
      | (d, .ok handle) =>
          ({ s with d := d, successes := k :: s.successes }, .returned (.ok handle))
  | p => (s, p)

/-- One step of a deleter; `cache` is what the alternates cache answers at that time. -/
def deleterAct (k : κ) (force : Option Bool) (cache : String → Option String) (s : Site κ) :
    Place → Site κ × Place
  | .start =>
      match ownerChecks id s.d (jobs k).call with
      | .error e => (s, .deleted (.error e))
      | .ok () => (s, .allowed)
  | .allowed =>
      match forkCheck id s.d cache force with
      | .error e => (s, .deleted (.error e))
      | .ok () => (s, .unforked)
  | .unforked =>
      match FsStorage.delete s.d.disk id with
      | (_, .error e) => (s, .deleted (.error e))
      | (disk, .ok ()) => (⟨{ s.d with disk := disk }, none, []⟩, .removed)
  | .removed =>
      ({ s with d := { s.d with repos := s.d.repos.remove id } }, .deleted (.ok [id.text]))
  | p => (s, p)

/-- One step of call `k`. -/
def act (k : κ) (cache : String → Option String) (s : Site κ) (p : Place) : Site κ × Place :=
  match (jobs k).op with
  | .make maker => makerAct lib cfg id jobs k maker s p
  | .delete force => deleterAct id jobs k force cache s p

/-- Whatever else the server does: it leaves the path and the row of the id alone. -/
def elsewhere (d' : Deployment) (s : Site κ) : Site κ :=
  if d'.disk.pathExists id.text = s.d.disk.pathExists id.text ∧
      d'.disk.isRepo id.text = s.d.disk.isRepo id.text ∧
      d'.repos.find? id.text = s.d.repos.find? id.text then
    { s with d := d' }
  else
    s

/-- The moves of all calls together. -/
def step [DecidableEq κ] (c : Calls κ (Site κ) Place) (m : Move κ (String → Option String) Deployment) :
    Calls κ (Site κ) Place :=
  c.move (act lib cfg id jobs) (elsewhere id) m

/-! ### A call that runs alone -/

variable {lib cfg id jobs}

/-- Some steps of one call, with nothing between them. -/
def alone (lib : Library) (cfg : Config) (id : RepoId) (jobs : κ → Job) (k : κ)
    (cache : String → Option String) : Nat → Site κ × Place → Site κ × Place
  | 0, sp => sp
  | n + 1, sp => alone lib cfg id jobs k cache n (act lib cfg id jobs k cache sp.1 sp.2)

theorem act_maker {k : κ} {maker : Maker} (hop : (jobs k).op = .make maker)
    (cache : String → Option String) (s : Site κ) (p : Place) :
    act lib cfg id jobs k cache s p = makerAct lib cfg id jobs k maker s p := by
  unfold act
  rw [hop]

theorem act_deleter {k : κ} {force : Option Bool} (hop : (jobs k).op = .delete force)
    (cache : String → Option String) (s : Site κ) (p : Place) :
    act lib cfg id jobs k cache s p = deleterAct id jobs k force cache s p := by
  unfold act
  rw [hop]

theorem alone_maker {k : κ} {maker : Maker} (hop : (jobs k).op = .make maker)
    (cache : String → Option String) (n : Nat) (s : Site κ) (p : Place) :
    alone lib cfg id jobs k cache (n + 1) (s, p) =
      alone lib cfg id jobs k cache n (makerAct lib cfg id jobs k maker s p) :=
  congrArg (alone lib cfg id jobs k cache n) (act_maker hop cache s p)

theorem alone_deleter {k : κ} {force : Option Bool} (hop : (jobs k).op = .delete force)
    (cache : String → Option String) (n : Nat) (s : Site κ) (p : Place) :
    alone lib cfg id jobs k cache (n + 1) (s, p) =
      alone lib cfg id jobs k cache n (deleterAct id jobs k force cache s p) :=
  congrArg (alone lib cfg id jobs k cache n) (act_deleter hop cache s p)

/-- A call that has returned stays where it is. -/
theorem alone_returned {k : κ} {maker : Maker} (hop : (jobs k).op = .make maker)
    (cache : String → Option String) (s : Site κ) (reply : Result RepoHandle) (n : Nat) :
    alone lib cfg id jobs k cache n (s, .returned reply) = (s, .returned reply) := by
  induction n with
  | zero => rfl
  | succ n ih => exact (alone_maker hop cache n s _).trans ih

theorem alone_deleted {k : κ} {force : Option Bool} (hop : (jobs k).op = .delete force)
    (cache : String → Option String) (s : Site κ) (reply : Result (List String)) (n : Nat) :
    alone lib cfg id jobs k cache n (s, .deleted reply) = (s, .deleted reply) := by
  induction n with
  | zero => rfl
  | succ n ih => exact (alone_deleter hop cache n s _).trans ih

/-- After the checks a maker whose source is still there makes the directory, and then does
what `register` does. -/
theorem alone_checked {k : κ} {maker : Maker} (hop : (jobs k).op = .make maker)
    (cache : String → Option String) (s : Site κ) (principal : Principal)
    {sourceId : Option RepoId} (hthere : sourceThere s.d.disk sourceId = true) :
    let registered := register lib cfg
      { s.d with disk := (makeOnDisk cfg id s.d.disk sourceId).1 } (jobs k).call principal id
      maker.scope (maker.event id (jobs k).call)
    ∃ s', alone lib cfg id jobs k cache 3 (s, .checked principal sourceId) =
      (s', .returned registered.2) ∧ s'.d = registered.1 := by
  have hmade := (makeOnDisk_ok_iff cfg id s.d.disk sourceId).mpr hthere
  unfold register
  rw [alone_maker hop, makerAct]
  dsimp only
  rw [hmade]
  dsimp only
  rw [alone_maker hop, makerAct]
  cases typedSubject principal with
  | error e => exact ⟨_, alone_returned hop cache _ _ 1, rfl⟩
  | ok owner =>
      dsimp only
      rw [alone_maker hop, makerAct, mintFirst]
      dsimp only
      rcases s.d.tokens.mint lib s.d.now (jobs k).call.randomToken id maker.scope none owner
        with ⟨tokens, minted⟩
      cases minted with
      | error e => exact ⟨_, rfl, rfl⟩
      | ok token => exact ⟨_, rfl, rfl⟩

/-- **`create_repo`, step by step.** -/
theorem create_alone {k : κ} (hop : (jobs k).op = .make .create)
    (cache : String → Option String) (s : Site κ) :
    ∃ s', alone lib cfg id jobs k cache 4 (s, .start) =
        (s', .returned (createRepo lib cfg s.d (jobs k).call (some id)).2) ∧
      s'.d = (createRepo lib cfg s.d (jobs k).call (some id)).1 := by
  unfold createRepo
  rw [alone_maker hop]
  dsimp only [makerAct, makerChecks, Option.getD]
  cases createChecks cfg s.d (jobs k).call with
  | error e => exact ⟨s, alone_returned hop cache s _ 3, rfl⟩
  | ok principal =>
      unfold FsStorage.create
      dsimp only [bind, Except.bind]
      split_ifs with hpath
      · exact ⟨s, alone_returned hop cache s _ 3, rfl⟩
      · have hmake : s.d.disk.makeDir id.text bareRepo = (makeOnDisk cfg id s.d.disk none).1 :=
          (if_neg hpath).symm
        dsimp only
        rw [hmake]
        exact alone_checked hop cache s principal rfl

/-- **`fork_repo`, step by step.** -/
theorem fork_alone {k : κ} {sourceId : String} {readOnly : Bool}
    (hop : (jobs k).op = .make (.fork sourceId readOnly)) (cache : String → Option String)
    (s : Site κ) :
    ∃ s', alone lib cfg id jobs k cache 4 (s, .start) =
        (s', .returned
          (forkRepo lib cfg s.d (jobs k).call sourceId (some id) readOnly).2) ∧
      s'.d = (forkRepo lib cfg s.d (jobs k).call sourceId (some id) readOnly).1 := by
  unfold forkRepo
  rw [alone_maker hop]
  dsimp only [makerAct, makerChecks, Option.getD]
  cases forkChecks cfg s.d (jobs k).call sourceId with
  | error e => exact ⟨s, alone_returned hop cache s _ 3, rfl⟩
  | ok checked =>
      obtain ⟨principal, source⟩ := checked
      dsimp only [bind, Except.bind]
      by_cases hsource : (!s.d.disk.isRepo source.text) = true
      · rw [forkPathChecks, FsStorage.fork, if_pos hsource, if_pos hsource]
        exact ⟨s, alone_returned hop cache s _ 3, rfl⟩
      · by_cases hpath : s.d.disk.pathExists id.text = true
        · rw [forkPathChecks, FsStorage.fork, if_neg hsource, if_neg hsource, if_pos hpath,
            if_pos hpath]
          exact ⟨s, alone_returned hop cache s _ 3, rfl⟩
        · have hthere : s.d.disk.isRepo source.text = true := by simpa using hsource
          have hfork := Disk.addFork_eq cfg.reposDir hthere (Bool.eq_false_iff.mpr hpath)
          have hmake : (((s.d.disk.ensureDir id.text).writeAlternates cfg.reposDir source.text
                id.text).copyRefs source.text id.text) =
              (makeOnDisk cfg id s.d.disk (some source)).1 := by
            rw [makeOnDisk, if_pos hthere]
          rw [forkPathChecks, FsStorage.fork, if_neg hsource, if_neg hsource, if_neg hpath,
            if_neg hpath, hfork]
          dsimp only
          rw [hmake]
          exact alone_checked hop cache s principal hthere

theorem deletePlan_plain (d : Deployment) (call : Call) (cache : String → Option String)
    (force : Option Bool) :
    deletePlan d call cache id.text force none =
      (do
        ownerChecks id d call
        forkCheck id d cache force
        return [id.text]) := by
  unfold deletePlan ownerChecks forkCheck
  cases call.caller with
  | error e => rfl
  | ok principal =>
      cases call.rate with
      | error e => rfl
      | ok _ =>
          dsimp only [bind, Except.bind]
          cases enforceOwner d.repos principal id.text with
          | error e => rfl
          | ok _ =>
              dsimp only
              rw [RepoId.tryFrom_text]
              dsimp only
              -- without `cascade` the two options do not exclude each other
              have hboth : ¬ (force.getD false && none.getD false) = true := by simp
              rw [if_neg hboth]
              cases listForksOf (.ok d.disk.names) cache id.text with
              | error e => rfl
              | ok forks =>
                  have hcascade : ¬ (none : Option Bool).getD false = true := by simp
                  dsimp only
                  rw [if_neg hcascade]
                  split_ifs <;> rfl

/-- **`delete_repo`, step by step.** -/
theorem delete_alone {k : κ} {force : Option Bool} (hop : (jobs k).op = .delete force)
    (cache : String → Option String) (s : Site κ) :
    ∃ s', alone lib cfg id jobs k cache 4 (s, .start) =
        (s', .deleted (deleteRepo s.d (jobs k).call cache id.text force none).2) ∧
      s'.d = (deleteRepo s.d (jobs k).call cache id.text force none).1 := by
  unfold deleteRepo
  rw [deletePlan_plain, alone_deleter hop, deleterAct]
  cases ownerChecks id s.d (jobs k).call with
  | error e => exact ⟨s, alone_deleted hop cache s _ 3, rfl⟩
  | ok _ =>
      dsimp only [bind, Except.bind]
      rw [alone_deleter hop, deleterAct]
      cases forkCheck id s.d cache force with
      | error e => exact ⟨s, alone_deleted hop cache s _ 2, rfl⟩
      | ok _ =>
          dsimp only [pure, Except.pure, removeRepos]
          rw [alone_deleter hop, deleterAct, RepoId.tryFrom_text]
          dsimp only
          rcases FsStorage.delete s.d.disk id with ⟨disk, removed⟩
          cases removed with
          | error e => exact ⟨s, alone_deleted hop cache s _ 1, rfl⟩
          | ok _ => exact ⟨_, alone_deleter hop cache 0 _ _, rfl⟩

end Rest
end Artifacts
