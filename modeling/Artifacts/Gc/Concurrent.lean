import Artifacts.Foundation.Runs
import Artifacts.Foundation.Scan
import Artifacts.Gc.Exact

/-!
# A collection among writers

`run` split into its steps: compute the network, list the loose objects, read
what each member reaches, delete.  Between two steps other requests may write
objects, move or delete refs, and fork repos.  The collection is a scan of the
members for each object, so it can only lose an object whose references move
behind its back.

`run_alone` ties the steps to `run`: with nobody else at work they delete the same.  The disk
changes by whole operations, each of one request; what a request does between two of its own
operations is up to the order of the run.
-/

namespace Artifacts
namespace Gc

open Foundation Relation Rust Storage

/-- The collection of one repo: its surroundings, the repo, and its cutoff. -/
structure Collection where
  host : Host
  /-- What the alternates cache answers, on each disk. -/
  cache : Disk → String → Option String
  id : RepoId
  cutoff : Int64
  reposDir : String

/-- What the collection has read so far: the members of the network, the loose objects of the repo,
and what the refs of the members reach. Each was read at a time of its own, and the disk may have
changed meanwhile. -/
structure Survey where
  network : List String
  loose : List LooseInfo
  reachable : List String

inductive Phase where
  | idle
  | networkKnown (network : List String)
  | scanning (seen : Survey) (todo : List String)
  | deleting (seen : Survey) (todo : List LooseInfo) (counts : SweepCounts) (deleted : List Oid)
  | failed

structure State where
  disk : Disk
  phase : Phase

/-- A step of the collection, or of a push, a ref deletion or a fork. -/
inductive Action where
  | gc
  | writeObject (repo : String) (info : LooseInfo)
  | updateRef (repo name : String) (oid : Oid)
  | deleteRef (repo name : String)
  | forkDir (source fork : String)
  | forkRefs (source fork : String)

/-- The next step of the collection. -/
def gcStep (c : Collection) (s : State) : State :=
  match s.phase with
  | .idle =>
      match networkOf c.host s.disk (c.cache s.disk) c.id.text with
      | .error _ => { s with phase := .failed }
      | .ok network => { s with phase := .networkKnown network }
  | .networkKnown network =>
      match fsObjectStore.listLoose s.disk c.id with
      | .error _ => { s with phase := .failed }
      | .ok loose => { s with phase := .scanning ⟨network, loose, []⟩ network }
  | .scanning seen (member :: todo) =>
      match revListObjects c.host.texts member (c.host.revList s.disk member) with
      | .error _ => { s with phase := .failed }
      | .ok oids =>
          { s with
            phase := .scanning
              { seen with
                reachable := oids.foldl (fun set oid => set.insert oid) seen.reachable } todo }
  | .scanning seen [] => { s with phase := .deleting seen seen.loose ⟨0, 0, 0⟩ [] }
  | .deleting seen (info :: todo) counts deleted =>
      let (disk', counts') :=
        sweepOne fsObjectStore c.id seen.reachable c.cutoff (s.disk, counts) info
      let deleted' :=
        if doomed seen.reachable c.cutoff info && s.disk.hasLoose c.id.text info.oid then
          info.oid :: deleted
        else
          deleted
      ⟨disk', .deleting seen todo counts' deleted'⟩
  | .deleting _ [] _ _ => s
  | .failed => s

def step (c : Collection) (s : State) : Action → State
  | .gc => gcStep c s
  | .writeObject repo info => { s with disk := s.disk.modify repo fun dir => dir.writeLoose info }
  | .updateRef repo name oid =>
      { s with disk := s.disk.modify repo fun dir => dir.updateRef name oid }
  | .deleteRef repo name => { s with disk := s.disk.modify repo fun dir => dir.deleteRef name }
  | .forkDir source fork => { s with disk := s.disk.addFork c.reposDir source fork }
  | .forkRefs source fork => { s with disk := s.disk.copyRefs source fork }

/-! ### The collection alone -/

theorem foldl_replicate_add (c : Collection) (s : State) (m n : Nat) :
    (List.replicate (m + n) Action.gc).foldl (step c) s =
      (List.replicate n Action.gc).foldl (step c)
        ((List.replicate m Action.gc).foldl (step c) s) := by
  rw [List.replicate_add, List.foldl_append]

/-- Reading the members one by one is `unionReachable`. -/
theorem scan_alone (c : Collection) (disk : Disk) (network : List String)
    (loose : List LooseInfo) (todo reachable : List String) :
    (List.replicate (todo.length + 1) Action.gc).foldl (step c)
        ⟨disk, .scanning ⟨network, loose, reachable⟩ todo⟩ =
      match unionReachable c.host disk todo reachable with
      | .error _ => ⟨disk, .failed⟩
      | .ok reachable' =>
          ⟨disk, .deleting ⟨network, loose, reachable'⟩ loose ⟨0, 0, 0⟩ []⟩ := by
  have hfailed : ∀ n, (List.replicate n Action.gc).foldl (step c) ⟨disk, .failed⟩ =
      ⟨disk, .failed⟩ := by
    intro n
    induction n with
    | zero => rfl
    | succ n ih => exact ih
  induction todo generalizing reachable with
  | nil => rfl
  | cons member todo ih =>
      rw [List.length_cons, List.replicate_succ, List.foldl_cons, unionReachable, step, gcStep]
      dsimp only
      cases revListObjects c.host.texts member (c.host.revList disk member) with
      | error e => exact hfailed _
      | ok oids => exact ih _

/-- The deletions one by one are the deletion loop. -/
theorem delete_alone (c : Collection) (seen : Survey) (todo : List LooseInfo) (disk : Disk)
    (counts : SweepCounts) (deleted : List Oid) :
    ((List.replicate todo.length Action.gc).foldl (step c)
        ⟨disk, .deleting seen todo counts deleted⟩).disk =
      (todo.foldl (sweepOne fsObjectStore c.id seen.reachable c.cutoff) (disk, counts)).1 := by
  induction todo generalizing disk counts deleted with
  | nil => rfl
  | cons info todo ih =>
      rw [List.length_cons, List.replicate_succ, List.foldl_cons, List.foldl_cons]
      exact ih _ _ _

theorem surveyed_error_of_network {c : Collection} {cache : String → Option String} {disk : Disk}
    {e : Error} (h : networkOf c.host disk cache c.id.text = .error e) :
    surveyed c.host fsObjectStore cache disk c.id.text = .error e := by
  simp only [surveyed, preview, h, bind, Except.bind]

theorem surveyed_error_of_scan {c : Collection} {cache : String → Option String} {disk : Disk}
    {network : List String} {e : Error}
    (hnetwork : networkOf c.host disk cache c.id.text = .ok network)
    (h : unionReachable c.host disk network [] = .error e) :
    surveyed c.host fsObjectStore cache disk c.id.text = .error e := by
  simp only [surveyed, preview, hnetwork, h, bind, Except.bind]

theorem surveyed_ok {c : Collection} {cache : String → Option String} {disk : Disk}
    {network reachable : List String} {loose : List LooseInfo}
    (hnetwork : networkOf c.host disk cache c.id.text = .ok network)
    (hreachable : unionReachable c.host disk network [] = .ok reachable)
    (hlist : fsObjectStore.listLoose disk c.id = .ok loose) :
    ∃ seen, surveyed c.host fsObjectStore cache disk c.id.text =
      .ok (seen, c.id, loose, reachable) := by
  obtain ⟨seen, hseen, hnet⟩ := preview_ok hnetwork hreachable hlist
  exact ⟨seen, by simp only [surveyed, hseen, hnet, hreachable, RepoId.tryFrom_text, hlist, bind,
    Except.bind, pure, Except.pure]⟩

theorem listLoose_ok (disk : Disk) (id : RepoId) :
    ∃ loose, fsObjectStore.listLoose disk id = .ok loose := by
  unfold fsObjectStore
  dsimp only
  cases disk.repo id.text with
  | none => exact ⟨[], rfl⟩
  | some dir => exact ⟨dir.loose, rfl⟩

/-- **Refinement.** Without interruption, the steps do what `run` does. -/
theorem run_alone (c : Collection) (systemTime : Int64) (minAge : UInt64)
    (hcutoff : c.cutoff = cutoffSecs (nowSecs systemTime) minAge) (disk : Disk) :
    ∃ n, ((List.replicate n Action.gc).foldl (step c) ⟨disk, .idle⟩).disk =
      (run c.host fsObjectStore (c.cache disk) systemTime disk c.id.text minAge).1 := by
  cases hnetwork : networkOf c.host disk (c.cache disk) c.id.text with
  | error e =>
      refine ⟨1, ?_⟩
      rw [run, surveyed_error_of_network hnetwork]
      simp only [List.replicate_one, List.foldl_cons, List.foldl_nil, step, gcStep, hnetwork]
  | ok network =>
      obtain ⟨loose, hlist⟩ := listLoose_ok disk c.id
      -- the network and the list, before the scan
      have hstart : (List.replicate 2 Action.gc).foldl (step c) ⟨disk, .idle⟩ =
          ⟨disk, .scanning ⟨network, loose, []⟩ network⟩ := by
        simp only [List.replicate_succ, List.replicate_zero, List.foldl_cons, List.foldl_nil, step,
          gcStep, hnetwork, hlist]
      have hscan := scan_alone c disk network loose network []
      cases hreachable : unionReachable c.host disk network [] with
      | error e =>
          refine ⟨2 + (network.length + 1), ?_⟩
          rw [hreachable] at hscan
          rw [foldl_replicate_add, hstart, hscan, run, surveyed_error_of_scan hnetwork hreachable]
      | ok reachable =>
          refine ⟨2 + (network.length + 1) + loose.length, ?_⟩
          rw [hreachable] at hscan
          obtain ⟨seen, hsurvey⟩ := surveyed_ok hnetwork hreachable hlist
          rw [foldl_replicate_add, foldl_replicate_add, hstart, hscan, delete_alone, run, hsurvey,
            hcutoff]

/-! ### The collection as a scan -/

/-- A ref of the repo reaches the object. -/
def Reaches (links : Oid → List Oid) (disk : Disk) (id : String) (o : Oid) : Prop :=
  ReachFrom (fun a b => b ∈ links a) (tipsOf disk id) o

/-- The alternates chain of the repo leads to `target`. -/
def DependsOn (paths : Disk → Paths) (disk : Disk) (id target : String) : Prop :=
  ReflTransGen (fun a b => sourceOf (paths disk) disk a = some b) id target

/-- The repo reads its objects from `target` too, and reaches this one. -/
def Needs (links : Oid → List Oid) (paths : Disk → Paths) (target : String) (o : Oid) (disk : Disk)
    (id : String) : Prop :=
  DependsOn paths disk id target ∧ Reaches links disk id o

/-- The state as a scan for one object: the members still to be read, and
whether some member was found to reach it. -/
def State.scan (s : State) (o : Oid) : Scan Disk String :=
  match s.phase with
  | .idle => ⟨s.disk, [], True⟩
  | .networkKnown network => ⟨s.disk, network, False⟩
  | .scanning seen todo => ⟨s.disk, todo, o.text ∈ seen.reachable⟩
  | .deleting seen _ _ _ => ⟨s.disk, [], o.text ∈ seen.reachable⟩
  | .failed => ⟨s.disk, [], True⟩

@[simp] theorem State.scan_world (s : State) (o : Oid) : (s.scan o).world = s.disk := by
  obtain ⟨disk, phase⟩ := s
  cases phase <;> rfl

/-- What `git rev-list` does, whatever the disk: if it succeeds, it lists what the refs and `HEAD`
of the repo reach at that moment. It may fail at any time, and then the whole collection stops. -/
def RevListContract (host : Host) (links : Oid → List Oid) : Prop :=
  ∀ disk id out, host.revList disk id = .ok out → out.success = true →
    ∃ listing stderr, out = ⟨true, printListing listing, stderr⟩ ∧
      (∀ entry ∈ listing, entry.Printable) ∧
      ∀ o, (∃ entry ∈ listing, entry.oid = o) ↔ Reaches links disk id o

variable {c : Collection} {links : Oid → List Oid} {paths : Disk → Paths}

/-- A member that is read is read completely. -/
theorem mem_revListObjects (hgit : RevListContract c.host links) {disk : Disk} {member : String}
    {oids : List String}
    (h : revListObjects c.host.texts member (c.host.revList disk member) = .ok oids) {o : Oid}
    (ho : Reaches links disk member o) : o.text ∈ oids := by
  cases hout : c.host.revList disk member with
  | error e =>
      rw [hout] at h
      cases h
  | ok out =>
      have hsuccess : out.success = true := by
        rw [hout] at h
        by_contra hfailed
        rw [Bool.not_eq_true] at hfailed
        simp [revListObjects, hfailed] at h
      obtain ⟨listing, stderr, rfl, hprint, hlists⟩ := hgit disk member out hout hsuccess
      rw [hout] at h
      obtain ⟨hread, hfail⟩ := revListObjects_printListing c.host.texts member stderr hprint
      by_cases hutf8 : Utf8Paths listing
      · rw [hread hutf8] at h
        obtain ⟨entry, hentry, rfl⟩ := (hlists o).mpr ho
        cases h
        exact List.mem_map_of_mem hentry
      · obtain ⟨e, he⟩ := hfail hutf8
        rw [he] at h
        cases h

/-- The collection has begun: its network is computed. -/
def State.Begun (s : State) : Prop := s.phase ≠ .idle

theorem scan_setDisk (s : State) (disk : Disk) (sees : Disk → String → Prop) (o : Oid) :
    Scan.Step sees (s.scan o) (State.scan { s with disk := disk } o) := by
  obtain ⟨disk', phase⟩ := s
  cases phase <;> exact Scan.Step.move

/-- **Simulation.** Every step of a collection that has begun is a step of the
scan for an object. -/
theorem step_scan (hgit : RevListContract c.host links) (o : Oid) {s : State} (hs : s.Begun)
    (a : Action) :
    (step c s a).Begun ∧
      Scan.Step (fun disk id => Reaches links disk id o) (s.scan o) ((step c s a).scan o) := by
  obtain ⟨disk, phase⟩ := s
  cases a with
  | gc =>
      rw [step]
      cases phase with
      | idle => exact absurd rfl hs
      | networkKnown network =>
          obtain ⟨loose, hlist⟩ := listLoose_ok disk c.id
          simp only [gcStep, hlist]
          refine ⟨Phase.noConfusion, ?_⟩
          have hnone : (o.text ∈ ([] : List String)) = False := by simp
          simp only [State.scan, hnone]
          exact Scan.Step.move
      | scanning seen todo =>
          cases todo with
          | nil => exact ⟨Phase.noConfusion, Scan.Step.move⟩
          | cons member todo =>
              simp only [gcStep]
              cases hread : revListObjects c.host.texts member (c.host.revList disk member) with
              | error e => exact ⟨Phase.noConfusion, Scan.Step.giveUp⟩
              | ok oids =>
                  refine ⟨Phase.noConfusion, Scan.Step.read ?_ ?_⟩
                  · exact fun hfound => (mem_foldl_insert oids _ _).mpr (Or.inr hfound)
                  · exact fun hreach =>
                      (mem_foldl_insert oids _ _).mpr (Or.inl (mem_revListObjects hgit hread hreach))
      | deleting seen todo counts deleted =>
          cases todo with
          | nil => exact ⟨hs, Scan.Step.move⟩
          | cons info todo => exact ⟨Phase.noConfusion, Scan.Step.move⟩
      | failed => exact ⟨hs, Scan.Step.move⟩
  | writeObject repo info => exact ⟨hs, scan_setDisk ⟨disk, phase⟩ _ _ o⟩
  | updateRef repo name oid => exact ⟨hs, scan_setDisk ⟨disk, phase⟩ _ _ o⟩
  | deleteRef repo name => exact ⟨hs, scan_setDisk ⟨disk, phase⟩ _ _ o⟩
  | forkDir source fork => exact ⟨hs, scan_setDisk ⟨disk, phase⟩ _ _ o⟩
  | forkRefs source fork => exact ⟨hs, scan_setDisk ⟨disk, phase⟩ _ _ o⟩

end Gc
end Artifacts
