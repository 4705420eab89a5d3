import Artifacts.Gc.Network
import Artifacts.Gc.RevList
import Artifacts.Rust.Integers
import Mathlib.Data.List.Sort

/-!
# The collector

`preview` measures what a collection of one repo would drop, `run` drops it: the
loose objects of the repo that no member of its network reaches, unless they are
too young.  The age is compared in seconds of type `i64`, while `min_age_secs` is
a `u64` that is cast to `i64` first.

* `cutoffSecs` is the cast and the subtraction, as the source has them.
* `sweep_disk` says which objects a sweep leaves.
* `Host` is what the collector asks of its surroundings: the directory and git.

Deletions do not fail here; a run that cannot read the network deletes nothing.
-/

namespace Artifacts
namespace Gc

open Rust Storage

/-- What the collector reads besides the disk it works on. Its answers may depend on the disk, as
those of git do; `HostContract` says how. -/
structure Host where
  /-- `read_dir(repos_dir)`. -/
  readDir : Disk → Except String (List (Option String))
  /-- `git rev-list --objects --all` in a repo. -/
  revList : Disk → String → Except String GitOutput
  texts : Utf8Texts

structure GcPreview where
  network : List String
  reachableOids : Nat
  looseOnDisk : Nat
  unreachableLoose : Nat
  unreachableBytes : Nat
  sample : List String

/-- What the deletion loop counts: the objects it deleted, their bytes, and those it left alone for
their age. Objects in use are not counted. -/
structure SweepCounts where
  deleted : Nat
  deletedBytes : Nat
  skippedTooYoung : Nat

structure GcResult where
  preview : GcPreview
  counts : SweepCounts

def sampleCap : Nat := 32

/-- `Vec::dedup`: drop repetitions that stand side by side. -/
def dedup : List String → List String
  | a :: b :: rest => if a = b then dedup (b :: rest) else a :: dedup (b :: rest)
  | short => short

/-- The set of the ids that some member reaches, member by member. -/
def unionReachable (host : Host) (disk : Disk) :
    List String → List String → Result (List String)
  | [], reachable => .ok reachable
  | member :: rest, reachable =>
      match revListObjects host.texts member (host.revList disk member) with
      | .error e => .error e
      | .ok oids =>
          unionReachable host disk rest (oids.foldl (fun set oid => set.insert oid) reachable)

/-- The members of the network, sorted and without repetitions. -/
def networkOf (host : Host) (disk : Disk) (cache : String → Option String) (repoId : String) :
    Result (List String) :=
  match networkAround (host.readDir disk) cache repoId with
  | .error e => .error e
  | .ok found => .ok (dedup (found.insertionSort (· ≤ ·)))

/-- `preview`: what a collection would find now. It deletes nothing, and an object counts here
however young it is. -/
def preview (host : Host) (objects : ObjectStore) (cache : String → Option String) (disk : Disk)
    (repoId : String) : Result GcPreview := do
  let network ← networkOf host disk cache repoId
  let reachable ← unionReachable host disk network []
  let id ← RepoId.tryFrom repoId
  let loose ← objects.listLoose disk id
  let unreachable := loose.filter fun info => !reachable.contains info.oid.text
  return {
    network := network
    reachableOids := reachable.length
    looseOnDisk := loose.length
    unreachableLoose := unreachable.length
    unreachableBytes := unreachable.foldl (fun total info => total + info.size) 0
    sample := (unreachable.take sampleCap).map fun info => info.oid.text }

/-- The newest creation time that is old enough; the cast keeps the 64 bits. -/
def cutoffSecs (now : Int64) (minAgeSecs : UInt64) : Int64 :=
  saturatingSub now minAgeSecs.toInt64

/-- One round of the deletion loop. -/
def sweepOne (objects : ObjectStore) (id : RepoId) (reachable : List String) (cutoff : Int64)
    (state : Disk × SweepCounts) (info : LooseInfo) : Disk × SweepCounts :=
  let (disk, counts) := state
  if reachable.contains info.oid.text then
    (disk, counts)
  else if cutoff < info.createdSecs then
    (disk, { counts with skippedTooYoung := counts.skippedTooYoung + 1 })
  else
    match objects.deleteLoose disk id info.oid with
    | (disk, .ok true) =>
        (disk, { counts with
          deleted := counts.deleted + 1
          deletedBytes := counts.deletedBytes + info.size })
    | (disk, .ok false) => (disk, counts)
    -- a failed unlink does not stop the pass
    | (disk, .error _) => (disk, counts)

/-- What `run` computes before it deletes: the preview, the typed id, the loose
objects and the reachable ids. -/
def surveyed (host : Host) (objects : ObjectStore) (cache : String → Option String) (disk : Disk)
    (repoId : String) : Result (GcPreview × RepoId × List LooseInfo × List String) := do
  let seen ← preview host objects cache disk repoId
  let id ← RepoId.tryFrom repoId
  let loose ← objects.listLoose disk id
  let reachable ← unionReachable host disk seen.network []
  return (seen, id, loose, reachable)

/-- `run`, at a reading of the system clock. -/
def run (host : Host) (objects : ObjectStore) (cache : String → Option String)
    (systemTime : Int64) (disk : Disk) (repoId : String) (minAgeSecs : UInt64) :
    Disk × Result GcResult :=
  match surveyed host objects cache disk repoId with
  | .error e => (disk, .error e)
  | .ok (seen, id, loose, reachable) =>
      let cutoff := cutoffSecs (nowSecs systemTime) minAgeSecs
      let (disk', counts) := loose.foldl (sweepOne objects id reachable cutoff) (disk, ⟨0, 0, 0⟩)
      (disk', .ok ⟨seen, counts⟩)

/-! ### The cutoff -/

/-- **Which creation times are old enough.** Below `2 ^ 63` the comparison is the
one of integers; from there on it accepts creation times up to `2 ^ 64 - min_age`
seconds in the future. -/
theorem le_cutoffSecs_iff {now : Int64} (hnow : 0 ≤ now.toInt) (created : Int64)
    (minAge : UInt64) :
    created ≤ cutoffSecs now minAge ↔
      if minAge.toNat < 2 ^ 63 then created.toInt ≤ now.toInt - minAge.toNat
      else created.toInt ≤ now.toInt + (2 ^ 64 - minAge.toNat) :=
  le_saturatingSub_iff hnow created minAge

/-! ### The deletion loop -/

/-- The objects the loop deletes. -/
def doomed (reachable : List String) (cutoff : Int64) (info : LooseInfo) : Bool :=
  !reachable.contains info.oid.text && decide (info.createdSecs ≤ cutoff)

theorem sweepOne_disk (id : RepoId) (reachable : List String) (cutoff : Int64)
    (state : Disk × SweepCounts) (info : LooseInfo) :
    (sweepOne fsObjectStore id reachable cutoff state info).1 =
      if doomed reachable cutoff info then
        state.1.keepLoose id.text fun other => other.oid != info.oid
      else state.1 := by
  obtain ⟨disk, counts⟩ := state
  simp only [sweepOne, doomed, Bool.and_eq_true, Bool.not_eq_true', decide_eq_true_eq]
  by_cases hreach : reachable.contains info.oid.text = true
  · rw [if_pos hreach, if_neg fun h => Bool.noConfusion (hreach.symm.trans h.1)]
  · rw [if_neg hreach]
    by_cases hyoung : cutoff < info.createdSecs
    · rw [if_pos hyoung, if_neg fun h => Int64.not_le.mpr hyoung h.2]
    · rw [if_neg hyoung, if_pos ⟨Bool.eq_false_iff.mpr hreach, Int64.not_lt.mp hyoung⟩,
        fsObjectStore_deleteLoose]
      cases disk.hasLoose id.text info.oid <;> rfl

/-- **The loop deletes the doomed objects of its list.** -/
theorem sweep_disk (id : RepoId) (reachable : List String) (cutoff : Int64)
    (infos : List LooseInfo) (disk : Disk) (counts : SweepCounts) :
    (infos.foldl (sweepOne fsObjectStore id reachable cutoff) (disk, counts)).1 =
      disk.keepLoose id.text fun other =>
        !infos.any fun info => doomed reachable cutoff info && info.oid == other.oid := by
  induction infos generalizing disk counts with
  | nil => exact (Disk.keepLoose_eq_self fun _ _ _ _ => rfl).symm
  | cons info infos ih =>
      have hstep := sweepOne_disk id reachable cutoff (disk, counts) info
      rw [List.foldl_cons]
      cases hresult : sweepOne fsObjectStore id reachable cutoff (disk, counts) info with
      | mk disk' counts' =>
      rw [hresult] at hstep
      rw [ih disk' counts', show disk' = _ from hstep]
      split_ifs with hdoomed
      · rw [Disk.keepLoose_keepLoose]
        congr 1
        funext other
        simp [hdoomed, bne, Bool.beq_comm]
      · congr 1
        funext other
        simp [hdoomed]

end Gc
end Artifacts
