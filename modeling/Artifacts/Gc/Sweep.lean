import Artifacts.Gc.Exact
import Mathlib.Algebra.BigOperators.Group.Finset.Basic

/-!
# The periodic sweep

`runSweep` runs the collector over every directory `<id>.git` that `read_dir` yields, each
at its own reading of the clock, and passes over the runs that fail.  A run changes what
later runs find, but only by objects that nothing reaches; so every repo loses what a run on
the first disk would have deleted, in whatever order the directory lists them.

* `Loses` compares two disks repo by repo; sweeps and runs are all stated in it.
* `SweepContract` is `HostContract` for a whole directory, with a set of members that break
  the run of every network they are in.
* `Garbage` is what a run on the first disk would delete.

Nothing else is at work during a sweep.
-/

namespace Artifacts
namespace Gc

open Foundation Relation Rust Storage

/-- An entry that `read_dir` yields: its name, if that is UTF-8, and whether `file_type`
says it is a directory. -/
structure DirEntry where
  name : Option String
  isDir : Except String Bool

/-- What a sweep adds up for its log line. -/
structure SweepTotals where
  deleted : Nat
  bytes : Nat
  repos : Nat

/-- One entry of the sweep, with the reading of the system clock for each repo. -/
def sweepEntry (host : Host) (objects : ObjectStore) (cache : String → Option String)
    (clock : String → Int64) (minAgeSecs : UInt64) (state : Disk × SweepTotals)
    (entry : DirEntry) : Disk × SweepTotals :=
  match entry.name with
  | none => state
  | some nameStr =>
      match stripSuffix nameStr ".git" with
      | none => state
      | some repoId =>
          match entry.isDir with
          | .error _ => state
          | .ok false => state
          | .ok true =>
              let (disk, totals) := state
              match run host objects cache (clock repoId) disk repoId minAgeSecs with
              -- a repo that is broken does not stop the sweep
              | (disk, .error _) => (disk, { totals with repos := totals.repos + 1 })
              | (disk, .ok r) =>
                  (disk, ⟨totals.deleted + r.counts.deleted, totals.bytes + r.counts.deletedBytes,
                    totals.repos + 1⟩)

/-- `run_sweep`, on the entries that `read_dir` yields without an error. -/
def runSweep (host : Host) (objects : ObjectStore) (cache : String → Option String)
    (clock : String → Int64) (minAgeSecs : UInt64) (readDir : Except String (List DirEntry))
    (disk : Disk) : Disk × SweepTotals :=
  match readDir with
  | .error _ => (disk, ⟨0, 0, 0⟩)
  | .ok entries => entries.foldl (sweepEntry host objects cache clock minAgeSecs) (disk, ⟨0, 0, 0⟩)

/-- The repos that a sweep visits: directories with the right suffix, whose kind can be read.
Whether git works in them is not asked. -/
def Visits (entries : List DirEntry) (id : String) : Prop :=
  ∃ entry ∈ entries, entry.name = some (id ++ ".git") ∧ entry.isDir = .ok true

/-- The repo that an entry stands for, if it is a directory `<id>.git`. -/
def DirEntry.repoId (entry : DirEntry) : Option String :=
  match entry.isDir with
  | .ok true => entry.name.bind fun nameStr => stripSuffix nameStr ".git"
  | _ => none

theorem visits_iff {entries : List DirEntry} {id : String} :
    Visits entries id ↔ id ∈ entries.filterMap DirEntry.repoId := by
  unfold Visits
  rw [List.mem_filterMap]
  refine exists_congr fun entry => and_congr_right fun _ => ?_
  unfold DirEntry.repoId
  constructor
  · rintro ⟨hname, hdir⟩
    rw [hdir, hname]
    exact stripSuffix_eq_some.mpr rfl
  · intro h
    split at h
    · rename_i hdir
      obtain ⟨nameStr, hname, hstrip⟩ := Option.bind_eq_some_iff.mp h
      exact ⟨by rw [hname, stripSuffix_eq_some.mp hstrip], hdir⟩
    · cases h

/-! ### Disks that lost garbage -/

/-- From `disk` to `disk'` the loose objects that are `gone` are deleted, in every repo, and
nothing else changes. -/
structure Loses (gone : String → LooseInfo → Prop) (disk disk' : Disk) : Prop where
  names : disk'.names = disk.names
  absent : ∀ id, disk.repo id = none → disk'.repo id = none
  kept : ∀ id dir, disk.repo id = some dir → ∃ dir', disk'.repo id = some dir' ∧
    dir'.alternates = dir.alternates ∧ dir'.refs = dir.refs ∧ dir'.packed = dir.packed ∧
    ∀ info, info ∈ dir'.loose ↔ info ∈ dir.loose ∧ ¬ gone id info

section Loses

variable {gone gone' : String → LooseInfo → Prop} {disk disk' disk'' : Disk}

theorem Loses.refl (disk : Disk) : Loses (fun _ _ => False) disk disk where
  names := rfl
  absent _ h := h
  kept id dir h := ⟨dir, h, rfl, rfl, rfl, by simp⟩

theorem Loses.trans (h : Loses gone disk disk') (h' : Loses gone' disk' disk'') :
    Loses (fun id info => gone id info ∨ gone' id info) disk disk'' where
  names := h'.names.trans h.names
  absent id hnone := h'.absent id (h.absent id hnone)
  kept id dir hdir := by
    obtain ⟨dir', hdir', halternates, hrefs, hpacked, hloose⟩ := h.kept id dir hdir
    obtain ⟨dir'', hdir'', halternates', hrefs', hpacked', hloose'⟩ := h'.kept id dir' hdir'
    refine ⟨dir'', hdir'', halternates'.trans halternates, hrefs'.trans hrefs,
      hpacked'.trans hpacked, fun info => ?_⟩
    rw [hloose', hloose, and_assoc, not_or]

/-- Only what is there can be lost. -/
theorem Loses.congr (h : Loses gone disk disk')
    (heq : ∀ id dir, disk.repo id = some dir → ∀ info ∈ dir.loose, gone id info ↔ gone' id info) :
    Loses gone' disk disk' where
  names := h.names
  absent := h.absent
  kept id dir hdir := by
    obtain ⟨dir', hdir', halternates, hrefs, hpacked, hloose⟩ := h.kept id dir hdir
    refine ⟨dir', hdir', halternates, hrefs, hpacked, fun info => ?_⟩
    rw [hloose]
    exact and_congr_right fun hinfo => not_congr (heq id dir hdir info hinfo)

theorem loses_keepLoose (disk : Disk) (id : String) (keep : LooseInfo → Bool) :
    Loses (fun id' info => id' = id ∧ ¬ keep info = true) disk (disk.keepLoose id keep) where
  names := rfl
  absent id' h := by
    by_cases heq : id' = id
    · rw [heq, Disk.keepLoose_repo_self, ← heq, h, Option.map_none]
    · rw [disk.keepLoose_repo_of_ne keep heq, h]
  kept id' dir h := by
    by_cases heq : id' = id
    · subst heq
      refine ⟨dir.keepLoose keep, ?_, rfl, rfl, rfl, fun info => ?_⟩
      · rw [Disk.keepLoose_repo_self, h, Option.map_some]
      · rw [RepoDir.keepLoose_loose, List.mem_filter]
        simp
    · refine ⟨dir, ?_, rfl, rfl, rfl, fun info => ?_⟩
      · rw [disk.keepLoose_repo_of_ne keep heq, h]
      · simp [heq]

theorem Loses.sourceOf (h : Loses gone disk disk') (paths : Paths) (id : String) :
    sourceOf paths disk' id = sourceOf paths disk id := by
  have halternates : disk'.alternates id = disk.alternates id := by
    unfold Disk.alternates
    cases hdir : disk.repo id with
    | none => rw [h.absent id hdir]
    | some dir =>
        obtain ⟨dir', hdir', halternates, -⟩ := h.kept id dir hdir
        rw [hdir', Option.bind_some, Option.bind_some, halternates]
  rw [Gc.sourceOf, Gc.sourceOf, halternates]

theorem Loses.network (h : Loses gone disk disk') (paths : Paths) (seed id : String) :
    Network paths disk' seed id ↔ Network paths disk seed id := by
  have hlinked : Linked paths disk' = Linked paths disk := by
    funext a b
    rw [Linked, Linked, h.sourceOf, h.sourceOf]
  rw [Network, Network, hlinked]

theorem Loses.tipsOf (h : Loses gone disk disk') (id : String) :
    tipsOf disk' id = tipsOf disk id := by
  ext o
  cases hdir : disk.repo id with
  | none =>
      have hnone := h.absent id hdir
      simp [Gc.tipsOf, hdir, hnone]
  | some dir =>
      obtain ⟨dir', hdir', -, hrefs, -⟩ := h.kept id dir hdir
      simp [Gc.tipsOf, hdir, hdir', RepoDir.tips, hrefs]

/-- Loose objects are no references. -/
theorem Loses.live (h : Loses gone disk disk') (links : Oid → List Oid) (paths : Paths)
    (seed : String) (o : Oid) : Live links paths disk' seed o ↔ Live links paths disk seed o := by
  unfold Live
  simp only [h.network, h.tipsOf]

end Loses

/-! ### The surroundings -/

/-- What a sweep relies on, on one disk: the directory can be read, `canonicalize` only finds what
exists, and git fails in the repos that are broken and lists what the refs and `HEAD` of the others
reach. Which repos are broken is any set; nothing is said of what git prints there. -/
structure SweepContract (host : Host) (links : Oid → List Oid) (paths : Paths) (disk : Disk)
    (broken : String → Prop) (listing : String → List Listed) : Prop where
  readDir : host.readDir disk = .ok disk.names
  pathsExist : PathsExist paths disk
  prints : ∀ member, ¬ broken member → ∃ stderr,
    host.revList disk member = .ok ⟨true, printListing (listing member), stderr⟩
  printable : ∀ member, ¬ broken member → ∀ entry ∈ listing member, entry.Printable
  lists : ∀ member, ¬ broken member → ∀ o, (∃ entry ∈ listing member, entry.oid = o) ↔
    ReachFrom (fun a b => b ∈ links a) (tipsOf disk member) o
  breaks : ∀ member, broken member → ∃ e,
    revListObjects host.texts member (host.revList disk member) = .error e

/-- Git runs in all repos of the network, and prints no path that is not UTF-8. -/
def Readable (paths : Paths) (disk : Disk) (broken : String → Prop)
    (listing : String → List Listed) (id : String) : Prop :=
  ∀ member, Network paths disk id member → ¬ broken member ∧ Utf8Paths (listing member)

/-- What a sweep deletes in a repo: the loose objects that nothing in the network reaches
and that are old enough, if the id is valid and the network is readable. -/
def Garbage (links : Oid → List Oid) (paths : Paths) (disk : Disk) (broken : String → Prop)
    (listing : String → List Listed) (clock : String → Int64) (minAge : UInt64) (id : String)
    (info : LooseInfo) : Prop :=
  validRepoId id = true ∧ Readable paths disk broken listing id ∧
    ¬ Live links paths disk id info.oid ∧
      info.createdSecs ≤ cutoffSecs (nowSecs (clock id)) minAge

section Sweep

variable {host : Host} {links : Oid → List Oid} {paths : Paths} {disk disk' : Disk}
  {broken : String → Prop} {listing : String → List Listed} {cache : String → Option String}
  {clock : String → Int64} {minAge : UInt64}

/-- Garbage stays garbage while garbage is deleted. -/
theorem Loses.garbage {gone : String → LooseInfo → Prop} (h : Loses gone disk disk') (id : String)
    (info : LooseInfo) :
    Garbage links paths disk' broken listing clock minAge id info ↔
      Garbage links paths disk broken listing clock minAge id info := by
  unfold Garbage Readable
  simp only [h.live, h.network]

/-- Without a broken member the surroundings are those of one run. -/
theorem SweepContract.hostContract
    (h : SweepContract host links paths disk broken listing) {id : String}
    (hwhole : ∀ member, Network paths disk id member → ¬ broken member) :
    HostContract host links paths disk id listing where
  readDir := h.readDir
  pathsExist := h.pathsExist
  prints member hmember := h.prints member (hwhole member hmember)
  printable member hmember := h.printable member (hwhole member hmember)
  lists member hmember := h.lists member (hwhole member hmember)

theorem unionReachable_error {members acc : List String} {member : String} {e : Error}
    (hmember : member ∈ members)
    (h : revListObjects host.texts member (host.revList disk member) = .error e) :
    ∃ e, unionReachable host disk members acc = .error e := by
  induction members generalizing acc with
  | nil => cases hmember
  | cons first members ih =>
      rw [unionReachable]
      cases hfirst : revListObjects host.texts first (host.revList disk first) with
      | error e' => exact ⟨e', rfl⟩
      | ok oids =>
          rcases List.mem_cons.mp hmember with rfl | hlater
          · rw [h] at hfirst
            cases hfirst
          · exact ih hlater

/-- A broken member makes the run fail. -/
theorem surveyed_of_broken (h : SweepContract host links paths disk broken listing)
    (hcache : CacheFresh paths disk cache) {id member : String}
    (hmember : Network paths disk id member) (hbroken : broken member) :
    ∃ e, surveyed host fsObjectStore cache disk id = .error e := by
  obtain ⟨network, hnetwork, hmem⟩ := networkOf_spec h.readDir h.pathsExist hcache id
  obtain ⟨e, he⟩ := h.breaks member hbroken
  obtain ⟨e', he'⟩ := @unionReachable_error host disk network [] member e ((hmem member).mpr hmember) he
  exact ⟨e', by simp only [surveyed, preview, hnetwork, he', bind, Except.bind]⟩

/-- What a survey that succeeds has looked at. -/
theorem surveyed_found {repoId : String} {seen : GcPreview} {id : RepoId} {loose : List LooseInfo}
    {reachable : List String}
    (h : surveyed host fsObjectStore cache disk repoId = .ok (seen, id, loose, reachable)) :
    repoId = id.text ∧ loose = ((disk.repo repoId).map RepoDir.loose).getD [] := by
  unfold surveyed at h
  simp only [bind, Except.bind, pure, Except.pure] at h
  split at h
  · cases h
  split at h
  · cases h
  rename_i id' hid
  obtain rfl := RepoId.tryFrom_eq_ok.mp hid
  split at h
  · cases h
  rename_i loose' hloose
  split at h
  · cases h
  cases h
  refine ⟨rfl, ?_⟩
  simp only [fsObjectStore] at hloose
  cases hdir : disk.repo id.text with
  | none =>
      rw [hdir] at hloose
      cases hloose
      rfl
  | some dir =>
      rw [hdir] at hloose
      cases hloose
      rfl

/-- **One run of the sweep** deletes the garbage of its repo. -/
theorem run_loses (h : SweepContract host links paths disk broken listing)
    (hcache : CacheFresh paths disk cache) (id : String) :
    Loses (fun id' info => id' = id ∧ Garbage links paths disk broken listing clock minAge id' info)
      disk (run host fsObjectStore cache (clock id) disk id minAge).1 := by
  -- where the survey fails there is no garbage
  have hfails : (∃ e, surveyed host fsObjectStore cache disk id = .error e) →
      (∀ info, ¬ Garbage links paths disk broken listing clock minAge id info) →
      Loses (fun id' info => id' = id ∧
        Garbage links paths disk broken listing clock minAge id' info) disk
        (run host fsObjectStore cache (clock id) disk id minAge).1 := by
    rintro ⟨e, he⟩ hnone
    have hrun : (run host fsObjectStore cache (clock id) disk id minAge).1 = disk := by
      rw [run, he]
    rw [hrun]
    refine (Loses.refl disk).congr fun id' _ _ info _ => iff_of_false not_false ?_
    rintro ⟨rfl, hgarbage⟩
    exact hnone info hgarbage
  by_cases hvalid : validRepoId id = true
  · by_cases hwhole : ∀ member, Network paths disk id member → ¬ broken member
    · have hhost := h.hostContract hwhole
      cases hdir : disk.repo id with
      | none =>
          -- nothing to list
          have hrun : (run host fsObjectStore cache (clock id) disk id minAge).1 = disk := by
            rw [run]
            cases hsurvey : surveyed host fsObjectStore cache disk id with
            | error e => rfl
            | ok found =>
                obtain ⟨seen, rid, loose, reachable⟩ := found
                obtain ⟨-, rfl⟩ := surveyed_found hsurvey
                rw [hdir]
                rfl
          rw [hrun]
          refine (Loses.refl disk).congr fun id' dir hdir' info _ => iff_of_false not_false ?_
          rintro ⟨rfl, -⟩
          rw [hdir] at hdir'
          cases hdir'
      | some dir =>
          obtain ⟨keep, hrun, hkeep⟩ := @run_spec host links paths disk listing cache
            ⟨id, hvalid⟩ hhost hcache dir hdir (clock id) minAge
          rw [hrun]
          refine (loses_keepLoose disk id keep).congr fun id' dir' hdir' info hinfo => ?_
          refine and_congr_right ?_
          rintro rfl
          rw [hdir] at hdir'
          obtain rfl := Option.some.inj hdir'
          rw [hkeep info hinfo, not_not]
          unfold Garbage Readable AllUtf8
          constructor
          · rintro ⟨hutf8, hdead, hold⟩
            exact ⟨hvalid, fun m hm => ⟨hwhole m hm, hutf8 m hm⟩, hdead, hold⟩
          · rintro ⟨-, hreadable, hdead, hold⟩
            exact ⟨fun m hm => (hreadable m hm).2, hdead, hold⟩
    · push Not at hwhole
      obtain ⟨member, hmember, hbroken⟩ := hwhole
      refine hfails (surveyed_of_broken h hcache hmember hbroken) ?_
      rintro info ⟨-, hreadable, -⟩
      exact (hreadable member hmember).1 hbroken
  · refine hfails ?_ fun info hgarbage => hvalid hgarbage.1
    cases hsurvey : surveyed host fsObjectStore cache disk id with
    | error e => exact ⟨e, rfl⟩
    | ok found =>
        obtain ⟨seen, rid, loose, reachable⟩ := found
        obtain ⟨rfl, -⟩ := surveyed_found hsurvey
        exact absurd rid.valid hvalid

/-- The run lemma: behind the visits so far the garbage of the visited repos is gone. -/
theorem sweep_loses {entries : List DirEntry} (totals : SweepTotals) {visited : String → Prop}
    (hcontract : ∀ (gone : String → LooseInfo → Prop) (disk' : Disk), Loses gone disk disk' →
      (∀ id info, gone id info → ¬ Live links paths disk id info.oid) →
      SweepContract host links paths disk' broken listing)
    (hcache : CacheFresh paths disk cache)
    (h : Loses (fun id info => visited id ∧
      Garbage links paths disk broken listing clock minAge id info) disk disk') :
    Loses (fun id info => (visited id ∨ Visits entries id) ∧
        Garbage links paths disk broken listing clock minAge id info) disk
      (entries.foldl (sweepEntry host fsObjectStore cache clock minAge) (disk', totals)).1 := by
  induction entries generalizing disk' totals visited with
  | nil => exact h.congr fun id _ _ info _ => by simp [Visits]
  | cons entry entries ih =>
      -- an entry that is passed over
      have hskip : (∀ id, ¬ (entry.name = some (id ++ ".git") ∧ entry.isDir = .ok true)) →
          Loses (fun id info => (visited id ∨ Visits (entry :: entries) id) ∧
              Garbage links paths disk broken listing clock minAge id info) disk
            (entries.foldl (sweepEntry host fsObjectStore cache clock minAge) (disk', totals)).1 := by
        intro hno
        refine (ih totals h).congr fun id _ _ info _ => ?_
        simp only [Visits, List.exists_mem_cons_iff, hno id, false_or]
      rw [List.foldl_cons, sweepEntry]
      cases hname : entry.name with
      | none => exact hskip fun id hid => by rw [hname] at hid; cases hid.1
      | some nameStr =>
          simp only []
          cases hstrip : stripSuffix nameStr ".git" with
          | none =>
              refine hskip fun id hid => ?_
              rw [hname, Option.some.injEq] at hid
              rw [stripSuffix_eq_some.mpr hid.1] at hstrip
              cases hstrip
          | some repoId =>
              have hrepo := stripSuffix_eq_some.mp hstrip
              cases hdir : entry.isDir with
              | error e => exact hskip fun id hid => by rw [hdir] at hid; cases hid.2
              | ok isDir =>
                  cases isDir with
                  | false => exact hskip fun id hid => by rw [hdir] at hid; cases hid.2
                  | true =>
                      simp only []
                      have hdead : ∀ id info, (visited id ∧
                          Garbage links paths disk broken listing clock minAge id info) →
                            ¬ Live links paths disk id info.oid := fun id info hgone => hgone.2.2.2.1
                      have hnow := hcontract _ disk' h hdead
                      have hfresh : CacheFresh paths disk' cache := fun id =>
                        (hcache id).trans (h.sourceOf paths id).symm
                      have hrun := h.trans (@run_loses _ links _ _ _ _ _ clock minAge hnow hfresh repoId)
                      have hmore : Loses (fun id info => (visited id ∨ id = repoId) ∧
                          Garbage links paths disk broken listing clock minAge id info) disk
                          (run host fsObjectStore cache (clock repoId) disk' repoId minAge).1 := by
                        refine hrun.congr fun id _ _ info _ => ?_
                        rw [h.garbage, or_and_right]
                      have hvisits : ∀ id, (visited id ∨ id = repoId) ∨ Visits entries id ↔
                          visited id ∨ Visits (entry :: entries) id := by
                        intro id
                        have hself : nameStr = id ++ ".git" ↔ id = repoId := by
                          rw [← stripSuffix_eq_some, hstrip, Option.some.injEq, eq_comm]
                        simp only [Visits, List.exists_mem_cons_iff, hname, hdir, Option.some.injEq,
                          hself, and_true]
                        exact or_assoc
                      cases hresult : run host fsObjectStore cache (clock repoId) disk' repoId minAge with
                      | mk disk₁ result =>
                          rw [hresult] at hmore
                          cases result with
                          | error e =>
                              refine (ih _ hmore).congr fun id _ _ info _ => ?_
                              rw [hvisits]
                          | ok r =>
                              refine (ih _ hmore).congr fun id _ _ info _ => ?_
                              rw [hvisits]

end Sweep

/-! ### The totals -/

/-- What the loose objects of a repo weigh. -/
def stock (weight : LooseInfo → Nat) (disk : Disk) (id : String) : Nat :=
  match disk.repo id with
  | none => 0
  | some dir => (dir.loose.map weight).sum

theorem stock_of_eq {weight : LooseInfo → Nat} {disk disk' : Disk} {id : String}
    (h : disk'.repo id = disk.repo id) : stock weight disk' id = stock weight disk id := by
  rw [stock, stock, h]

/-- One object is taken out. -/
theorem sum_filter_oid {loose : List LooseInfo} (hdistinct : (loose.map LooseInfo.oid).Nodup)
    {info : LooseInfo} (hinfo : info ∈ loose) (weight : LooseInfo → Nat) :
    weight info + ((loose.filter fun other => other.oid != info.oid).map weight).sum =
      (loose.map weight).sum := by
  induction loose with
  | nil => cases hinfo
  | cons first loose ih =>
      rw [List.map_cons, List.nodup_cons] at hdistinct
      obtain ⟨hfirst, hrest⟩ := hdistinct
      rcases List.mem_cons.mp hinfo with rfl | hinfo
      · have hothers : loose.filter (fun other => other.oid != info.oid) = loose := by
          refine List.filter_eq_self.mpr fun other hother => ?_
          rw [bne_iff_ne]
          intro heq
          exact hfirst (heq ▸ List.mem_map_of_mem hother)
        rw [List.filter_cons_of_neg (by simp), hothers, List.map_cons, List.sum_cons]
      · have hne : first.oid ≠ info.oid := fun heq => hfirst (heq ▸ List.mem_map_of_mem hinfo)
        rw [List.filter_cons_of_pos (by simpa using hne), List.map_cons, List.map_cons,
          List.sum_cons, List.sum_cons, ← ih hrest hinfo]
        omega

/-- The object is the one of the repo with its id, if there is one. -/
def IsOwn (disk : Disk) (id : String) (info : LooseInfo) : Prop :=
  ∀ dir, disk.repo id = some dir → ∀ other ∈ dir.loose, other.oid = info.oid → other = info

theorem IsOwn.keepLoose {disk : Disk} {id : String} {info : LooseInfo} (h : IsOwn disk id info)
    (keep : LooseInfo → Bool) : IsOwn (disk.keepLoose id keep) id info := by
  intro dir hdir other hother
  rw [Disk.keepLoose_repo_self] at hdir
  obtain ⟨old, hold, rfl⟩ := Option.map_eq_some_iff.mp hdir
  rw [RepoDir.keepLoose_loose, List.mem_filter] at hother
  exact h old hold other hother.1

/-- `delete_loose` takes away what it answers for. -/
theorem stock_deleteLoose {disk : Disk} {id : String} {info : LooseInfo} (h : IsOwn disk id info)
    (weight : LooseInfo → Nat) :
    (if disk.hasLoose id info.oid then weight info else 0) +
        stock weight (disk.keepLoose id fun other => other.oid != info.oid) id =
      stock weight disk id := by
  unfold stock Disk.hasLoose
  rw [Disk.keepLoose_repo_self]
  cases hdir : disk.repo id with
  | none => rfl
  | some dir =>
      simp only [Option.map_some, RepoDir.keepLoose_loose]
      split_ifs with hhas
      · obtain ⟨other, hother, hoid⟩ := List.any_eq_true.mp hhas
        obtain rfl := h dir hdir other hother (beq_iff_eq.mp hoid)
        exact sum_filter_oid dir.distinct hother weight
      · rw [Bool.not_eq_true, List.any_eq_false] at hhas
        rw [List.filter_eq_self.mpr fun other hother => by simpa using hhas other hother]
        omega

/-- The counts of the deletion loop and what is left add up. -/
theorem sweepOne_counts {id : RepoId} (reachable : List String) (cutoff : Int64) {disk : Disk}
    (counts : SweepCounts) {info : LooseInfo} (h : IsOwn disk id.text info) :
    let after := sweepOne fsObjectStore id reachable cutoff (disk, counts) info
    after.2.deleted + stock (fun _ => 1) after.1 id.text =
        counts.deleted + stock (fun _ => 1) disk id.text ∧
      after.2.deletedBytes + stock LooseInfo.size after.1 id.text =
        counts.deletedBytes + stock LooseInfo.size disk id.text := by
  simp only [sweepOne]
  split_ifs with hreach hyoung
  · exact ⟨rfl, rfl⟩
  · exact ⟨rfl, rfl⟩
  · have hone := stock_deleteLoose h fun _ => 1
    have hsize := stock_deleteLoose h LooseInfo.size
    rw [fsObjectStore_deleteLoose]
    cases hhas : disk.hasLoose id.text info.oid with
    | true =>
        simp only [hhas, if_true] at hone hsize ⊢
        omega
    | false =>
        simp only [hhas, Bool.false_eq_true, if_false] at hone hsize ⊢
        omega

theorem foldl_sweepOne_counts {id : RepoId} (reachable : List String) (cutoff : Int64)
    {infos : List LooseInfo} {disk : Disk} (counts : SweepCounts)
    (h : ∀ info ∈ infos, IsOwn disk id.text info) :
    let after := infos.foldl (sweepOne fsObjectStore id reachable cutoff) (disk, counts)
    after.2.deleted + stock (fun _ => 1) after.1 id.text =
        counts.deleted + stock (fun _ => 1) disk id.text ∧
      after.2.deletedBytes + stock LooseInfo.size after.1 id.text =
        counts.deletedBytes + stock LooseInfo.size disk id.text := by
  induction infos generalizing disk counts with
  | nil => exact ⟨rfl, rfl⟩
  | cons info infos ih =>
      have hfirst := sweepOne_counts reachable cutoff counts (h info List.mem_cons_self)
      have hdisk := sweepOne_disk id reachable cutoff (disk, counts) info
      rw [List.foldl_cons]
      generalize sweepOne fsObjectStore id reachable cutoff (disk, counts) info = after
        at hfirst hdisk ⊢
      obtain ⟨disk₁, counts₁⟩ := after
      have hown : ∀ other ∈ infos, IsOwn disk₁ id.text other := by
        intro other hother
        have hbefore := h other (List.mem_cons_of_mem info hother)
        simp only [] at hdisk
        rw [hdisk]
        split_ifs
        · exact hbefore.keepLoose _
        · exact hbefore
      have hrest := ih counts₁ hown
      simp only [] at hfirst hrest ⊢
      omega

section Totals

variable {host : Host} {cache : String → Option String} {clock : String → Int64} {minAge : UInt64}

/-- What a run counts is what its repo has lost. -/
theorem run_counts (disk : Disk) (repoId : String) (systemTime : Int64) :
    match run host fsObjectStore cache systemTime disk repoId minAge with
    | (disk', .error _) => disk' = disk
    | (disk', .ok r) =>
        r.counts.deleted + stock (fun _ => 1) disk' repoId = stock (fun _ => 1) disk repoId ∧
          r.counts.deletedBytes + stock LooseInfo.size disk' repoId =
            stock LooseInfo.size disk repoId ∧
          ∀ id, id ≠ repoId → disk'.repo id = disk.repo id := by
  rw [run]
  cases hsurvey : surveyed host fsObjectStore cache disk repoId with
  | error e => rfl
  | ok found =>
      obtain ⟨seen, id, loose, reachable⟩ := found
      obtain ⟨rfl, rfl⟩ := surveyed_found hsurvey
      have hown : ∀ info ∈ ((disk.repo id.text).map RepoDir.loose).getD [],
          IsOwn disk id.text info := by
        intro info hinfo dir hdir other hother hoid
        rw [hdir] at hinfo
        exact RepoDir.loose_ext hother hinfo hoid
      have hcounts := foldl_sweepOne_counts reachable (cutoffSecs (nowSecs systemTime) minAge)
        ⟨0, 0, 0⟩ hown
      have hdisk := sweep_disk id reachable (cutoffSecs (nowSecs systemTime) minAge)
        (((disk.repo id.text).map RepoDir.loose).getD []) disk ⟨0, 0, 0⟩
      simp only [] at hcounts ⊢
      generalize (((disk.repo id.text).map RepoDir.loose).getD []).foldl (sweepOne fsObjectStore id
        reachable (cutoffSecs (nowSecs systemTime) minAge)) (disk, ⟨0, 0, 0⟩) = after
        at hcounts hdisk ⊢
      obtain ⟨disk', counts⟩ := after
      simp only [Nat.zero_add] at hcounts hdisk ⊢
      refine ⟨hcounts.1, hcounts.2, fun other hne => ?_⟩
      rw [hdisk]
      exact disk.keepLoose_repo_of_ne _ hne

/-- What is added to the totals is taken from the repos. -/
theorem sum_stock_of_run {weight : LooseInfo → Nat} {disk disk' : Disk} {repoId : String}
    {gone total : Nat} {ids : Finset String} (hmem : repoId ∈ ids)
    (hgone : gone + stock weight disk' repoId = stock weight disk repoId)
    (hothers : ∀ id, id ≠ repoId → disk'.repo id = disk.repo id) :
    total + gone + ∑ id ∈ ids, stock weight disk' id = total + ∑ id ∈ ids, stock weight disk id := by
  have hrest : ∑ id ∈ ids.erase repoId, stock weight disk' id =
      ∑ id ∈ ids.erase repoId, stock weight disk id :=
    Finset.sum_congr rfl fun id hid => stock_of_eq (hothers id (Finset.ne_of_mem_erase hid))
  rw [← Finset.add_sum_erase ids _ hmem, ← Finset.add_sum_erase ids _ hmem, hrest]
  omega

/-- The run lemma for the totals, over any repos that include the visited ones. -/
theorem sweep_totals {entries : List DirEntry} {disk : Disk} (totals : SweepTotals)
    {ids : Finset String} (hids : ∀ id, Visits entries id → id ∈ ids) :
    let after := entries.foldl (sweepEntry host fsObjectStore cache clock minAge) (disk, totals)
    after.2.deleted + ∑ id ∈ ids, stock (fun _ => 1) after.1 id =
        totals.deleted + ∑ id ∈ ids, stock (fun _ => 1) disk id ∧
      after.2.bytes + ∑ id ∈ ids, stock LooseInfo.size after.1 id =
        totals.bytes + ∑ id ∈ ids, stock LooseInfo.size disk id := by
  induction entries generalizing disk totals with
  | nil => exact ⟨rfl, rfl⟩
  | cons entry entries ih =>
      have hlater : ∀ id, Visits entries id → id ∈ ids := by
        rintro id ⟨other, hother, hvisit⟩
        exact hids id ⟨other, List.mem_cons_of_mem entry hother, hvisit⟩
      rw [List.foldl_cons, sweepEntry]
      cases hname : entry.name with
      | none => exact ih totals hlater
      | some nameStr =>
          simp only []
          cases hstrip : stripSuffix nameStr ".git" with
          | none => exact ih totals hlater
          | some repoId =>
              simp only []
              cases hdir : entry.isDir with
              | error e => exact ih totals hlater
              | ok isDir =>
                  cases isDir with
                  | false => exact ih totals hlater
                  | true =>
                      simp only []
                      have hmem : repoId ∈ ids := hids repoId ⟨entry, List.mem_cons_self, by
                        rw [hname, stripSuffix_eq_some.mp hstrip], hdir⟩
                      have hrun := @run_counts host cache minAge disk repoId (clock repoId)
                      generalize run host fsObjectStore cache (clock repoId) disk repoId minAge =
                        result at hrun ⊢
                      obtain ⟨disk', outcome⟩ := result
                      -- a run that fails has deleted nothing and is not counted
                      cases outcome with
                      | error e =>
                          simp only [] at hrun ⊢
                          subst hrun
                          exact ih _ hlater
                      | ok r =>
                          obtain ⟨hone, hsize, hothers⟩ := hrun
                          obtain ⟨hdeleted, hbytes⟩ := @ih disk' ⟨totals.deleted + r.counts.deleted,
                            totals.bytes + r.counts.deletedBytes, totals.repos + 1⟩ hlater
                          exact ⟨hdeleted.trans (sum_stock_of_run hmem hone hothers),
                            hbytes.trans (sum_stock_of_run hmem hsize hothers)⟩

/-- Every repo is counted, also one in which the run fails. -/
theorem sweepEntry_repos (state : Disk × SweepTotals) (entry : DirEntry) :
    (sweepEntry host fsObjectStore cache clock minAge state entry).2.repos =
      state.2.repos + entry.repoId.toList.length := by
  obtain ⟨disk, totals⟩ := state
  obtain ⟨name, isDir⟩ := entry
  unfold sweepEntry DirEntry.repoId
  dsimp only
  cases name with
  | none => rcases isDir with e | _ | _ <;> rfl
  | some nameStr =>
      rw [Option.bind_some]
      dsimp only
      cases hstrip : stripSuffix nameStr ".git" with
      | none => rcases isDir with e | _ | _ <;> rfl
      | some repoId =>
          rcases isDir with e | _ | _
          · rfl
          · rfl
          · dsimp only
            rcases run host fsObjectStore cache (clock repoId) disk repoId minAge with
              ⟨disk', outcome⟩
            cases outcome <;> rfl

theorem sweep_repos {entries : List DirEntry} (state : Disk × SweepTotals) :
    (entries.foldl (sweepEntry host fsObjectStore cache clock minAge) state).2.repos =
      state.2.repos + (entries.filterMap DirEntry.repoId).length := by
  induction entries generalizing state with
  | nil => rfl
  | cons entry entries ih =>
      rw [List.foldl_cons, ih, sweepEntry_repos, List.filterMap_cons]
      cases entry.repoId with
      | none => rfl
      | some id =>
          simp only [Option.toList_some, List.length_cons, List.length_nil]
          omega

end Totals

theorem visits_finite (entries : List DirEntry) :
    ∃ ids : Finset String, ∀ id, Visits entries id → id ∈ ids := by
  refine ⟨(siblings (entries.map DirEntry.name)).toFinset, ?_⟩
  rintro id ⟨entry, hentry, hname, -⟩
  rw [List.mem_toFinset, mem_siblings, ← hname]
  exact List.mem_map_of_mem hentry

/-- Nothing is lost, nothing is missing. -/
theorem Loses.stock_eq {gone : String → LooseInfo → Prop} {disk disk' : Disk}
    (h : Loses gone disk disk') (weight : LooseInfo → Nat) {id : String}
    (hnone : ∀ dir, disk.repo id = some dir → ∀ info ∈ dir.loose, ¬ gone id info) :
    stock weight disk' id = stock weight disk id := by
  unfold stock
  cases hdir : disk.repo id with
  | none => rw [h.absent id hdir]
  | some dir =>
      obtain ⟨dir', hdir', -, -, -, hloose⟩ := h.kept id dir hdir
      have hsame : dir'.loose.Perm dir.loose := by
        refine (List.perm_ext_iff_of_nodup (List.Nodup.of_map _ dir'.distinct)
          (List.Nodup.of_map _ dir.distinct)).mpr fun info => ?_
        rw [hloose]
        exact and_iff_left_of_imp (hnone dir hdir info)
      rw [hdir']
      exact (hsame.map weight).sum_eq

/-- **The sweep.** Behind it every visited repo has lost its garbage, as it was before the
sweep, and nothing else has changed, whatever the order of the entries and whichever repos
are broken.  Every repo that the directory lists is counted, and one whose network has a broken
member keeps all its objects.  The other totals are what the repos have lost.  A second sweep
at the same times deletes nothing. -/
theorem gc_sweep_exact (host : Host) (links : Oid → List Oid) (paths : Paths) (disk : Disk)
    (broken : String → Prop) (listing : String → List Listed) (cache : String → Option String)
    (clock : String → Int64) (minAge : UInt64) (entries : List DirEntry)
    (hcontract : ∀ (gone : String → LooseInfo → Prop) (disk' : Disk), Loses gone disk disk' →
      (∀ id info, gone id info → ¬ Live links paths disk id info.oid) →
      SweepContract host links paths disk' broken listing)
    (hcache : CacheFresh paths disk cache) :
    let swept := runSweep host fsObjectStore cache clock minAge (.ok entries) disk
    let again := runSweep host fsObjectStore cache clock minAge (.ok entries) swept.1
    Loses (fun id info => Visits entries id ∧
        Garbage links paths disk broken listing clock minAge id info) disk swept.1 ∧
      swept.2.repos = (entries.filterMap DirEntry.repoId).length ∧
      (∀ id member, Network paths disk id member → broken member →
        ∀ dir, disk.repo id = some dir → ∃ dir', swept.1.repo id = some dir' ∧
          ∀ info, info ∈ dir'.loose ↔ info ∈ dir.loose) ∧
      (∀ ids : Finset String, (∀ id, Visits entries id → id ∈ ids) →
        swept.2.deleted + ∑ id ∈ ids, stock (fun _ => 1) swept.1 id =
            ∑ id ∈ ids, stock (fun _ => 1) disk id ∧
          swept.2.bytes + ∑ id ∈ ids, stock LooseInfo.size swept.1 id =
            ∑ id ∈ ids, stock LooseInfo.size disk id) ∧
      Loses (fun _ _ => False) swept.1 again.1 ∧ again.2.deleted = 0 ∧ again.2.bytes = 0 := by
  intro swept again
  have hstart : Loses (fun id info => False ∧
      Garbage links paths disk broken listing clock minAge id info) disk disk :=
    (Loses.refl disk).congr fun id _ _ info _ => by simp
  have hswept : Loses (fun id info => Visits entries id ∧
      Garbage links paths disk broken listing clock minAge id info) disk swept.1 :=
    (sweep_loses ⟨0, 0, 0⟩ hcontract hcache hstart).congr fun id _ _ info _ => by simp
  have hagain : Loses (fun id info => Visits entries id ∧
      Garbage links paths swept.1 broken listing clock minAge id info) swept.1 again.1 := by
    have hlater : ∀ (gone : String → LooseInfo → Prop) (disk' : Disk), Loses gone swept.1 disk' →
        (∀ id info, gone id info → ¬ Live links paths swept.1 id info.oid) →
        SweepContract host links paths disk' broken listing := by
      intro gone disk' hloses hdead
      refine hcontract _ disk' (hswept.trans hloses) fun id info hgone => ?_
      rcases hgone with hfirst | hsecond
      · exact hfirst.2.2.2.1
      · rw [← hswept.live]
        exact hdead id info hsecond
    have hfresh : CacheFresh paths swept.1 cache := fun id =>
      (hcache id).trans (hswept.sourceOf paths id).symm
    have hnone : Loses (fun id info => False ∧
        Garbage links paths swept.1 broken listing clock minAge id info) swept.1 swept.1 :=
      (Loses.refl swept.1).congr fun id _ _ info _ => by simp
    exact (sweep_loses ⟨0, 0, 0⟩ hlater hfresh hnone).congr
      fun id _ _ info _ => by simp
  -- what is left in a visited repo is no garbage
  have hclean : ∀ id dir, swept.1.repo id = some dir → ∀ info ∈ dir.loose,
      ¬ (Visits entries id ∧ Garbage links paths swept.1 broken listing clock minAge id info) := by
    rintro id dir' hdir' info hinfo ⟨hvisits, hgarbage⟩
    cases hdir : disk.repo id with
    | none =>
        rw [hswept.absent id hdir] at hdir'
        cases hdir'
    | some dir =>
        obtain ⟨dir'', hdir'', -, -, -, hloose⟩ := hswept.kept id dir hdir
        rw [hdir'] at hdir''
        obtain rfl := Option.some.inj hdir''
        exact ((hloose info).mp hinfo).2 ⟨hvisits, (hswept.garbage id info).mp hgarbage⟩
  refine ⟨hswept, ?_, ?_, fun ids hids => ?_, ?_, ?_⟩
  · exact (sweep_repos (disk, ⟨0, 0, 0⟩)).trans (Nat.zero_add _)
  · intro id member hmember hbroken dir hdir
    obtain ⟨dir', hdir', -, -, -, hloose⟩ := hswept.kept id dir hdir
    refine ⟨dir', hdir', fun info => (hloose info).trans (and_iff_left ?_)⟩
    rintro ⟨-, -, hreadable, -⟩
    exact (hreadable member hmember).1 hbroken
  · obtain ⟨hdeleted, hbytes⟩ := @sweep_totals host cache clock minAge entries disk ⟨0, 0, 0⟩ ids hids
    simp only [Nat.zero_add] at hdeleted hbytes
    exact ⟨hdeleted, hbytes⟩
  · exact hagain.congr fun id dir hdir info hinfo =>
      iff_of_false (hclean id dir hdir info hinfo) not_false
  · obtain ⟨ids, hids⟩ := visits_finite entries
    obtain ⟨hdeleted, hbytes⟩ :=
      @sweep_totals host cache clock minAge entries swept.1 ⟨0, 0, 0⟩ ids hids
    have hstock : ∀ weight, ∑ id ∈ ids, stock weight again.1 id =
        ∑ id ∈ ids, stock weight swept.1 id := fun weight =>
      Finset.sum_congr rfl fun id _ => hagain.stock_eq weight (hclean id)
    simp only [Nat.zero_add] at hdeleted hbytes
    change again.2.deleted + ∑ id ∈ ids, stock (fun _ => 1) again.1 id = _ at hdeleted
    change again.2.bytes + ∑ id ∈ ids, stock LooseInfo.size again.1 id = _ at hbytes
    rw [hstock] at hdeleted hbytes
    omega

/-! ### A sweep over a repo, its fork and a broken repo -/

/-- The three repos, a file and a name that is not UTF-8. -/
def familyEntries : List DirEntry :=
  [⟨some "notes.git", .ok false⟩, ⟨some "sick.git", .ok true⟩, ⟨none, .ok true⟩,
    ⟨some "fork.git", .ok true⟩, ⟨some "base.git", .ok true⟩]

theorem familyHost_sweep {gone : String → LooseInfo → Prop} {disk' : Disk}
    (h : Loses gone familyDisk disk') :
    SweepContract familyHost familyLinks familyPaths disk' (fun id => id = "sick")
      familyListing where
  readDir := rfl
  pathsExist := family_pathsExist disk' h.names
  prints _ hmember := ⟨"", if_neg hmember⟩
  printable member _ := family_printable member
  lists member hmember o := by
    rw [h.tipsOf]
    exact family_lists hmember o
  breaks member hmember := by
    obtain rfl := hmember
    exact ⟨_, rfl⟩

/-- An hour is asked for: the repo loses the old object that nobody names and keeps the one of
its fork, the broken repo loses nothing, and three repos are counted. -/
theorem gc_sweep_exact_family :
    let swept := runSweep familyHost fsObjectStore (fun id => if id = "fork" then some "base" else none)
      (fun _ => 1000000) 3600 (.ok familyEntries) familyDisk
    swept.2.repos = 3 ∧
      (∃ dir', swept.1.repo "base" = some dir' ∧
        ∀ info, info ∈ dir'.loose ↔ info ∈ baseDir.loose ∧ info.oid ≠ junkId) ∧
      ∃ dir', swept.1.repo "sick" = some dir' ∧ ∀ info, info ∈ dir'.loose ↔ info ∈ sickDir.loose := by
  obtain ⟨hswept, hrepos, hbroken, -⟩ := gc_sweep_exact familyHost familyLinks familyPaths
    familyDisk (fun id => id = "sick") familyListing _ (fun _ => 1000000) 3600 familyEntries
    (fun _ _ h _ => familyHost_sweep h) family_fresh
  refine ⟨hrepos, ?_, hbroken "sick" "sick" Relation.ReflTransGen.refl rfl sickDir rfl⟩
  obtain ⟨dir', hdir', -, -, -, hloose⟩ := hswept.kept "base" baseDir rfl
  refine ⟨dir', hdir', fun info => (hloose info).trans (and_congr_right fun hinfo => ?_)⟩
  have hreadable : Readable familyPaths familyDisk (fun id => id = "sick") familyListing "base" := by
    refine fun member hmember => ⟨?_, family_utf8 member⟩
    rintro rfl
    exact absurd ((family_network _).mp hmember) (by decide)
  have hvisits : Visits familyEntries "base" := visits_iff.mpr (by decide +kernel)
  have hvalid : validRepoId "base" = true := rfl
  unfold Garbage
  simp only [hvisits, hvalid, hreadable, true_and, family_live]
  simp only [baseDir, List.mem_cons, List.not_mem_nil, or_false] at hinfo
  rcases hinfo with rfl | rfl | rfl | rfl | rfl <;> decide

end Gc
end Artifacts
