import Artifacts.Gc.Run

/-!
# What a collection deletes

With no writer and no I/O error, `run` on a repo should delete its loose objects
that nothing in the network reaches and that are old enough, and nothing else.
The age is where it can miss: from `2 ^ 63` on, `min_age_secs` turns negative in
the cast, and objects that are too young are deleted.  And a member with a path
that is not UTF-8 makes the pass fail, so that nothing is deleted.

* `Live` is what the refs and `HEAD` of some member of the network reach, `Due` what is left
  over and old enough.
* `HostContract` is all that is taken of the file system and of `git rev-list`.
* `AllUtf8` and the window of the cast are the two conditions.

A pass is one call here.  What writers may do in the meantime is the subject of `Keeps`.
-/

namespace Artifacts
namespace Gc

open Foundation Relation Storage Rust

/-- The objects that the refs and `HEAD` of a repo name. -/
def tipsOf (disk : Disk) (id : String) : Set Oid :=
  {o | ∃ dir, disk.repo id = some dir ∧ o ∈ dir.tips}

/-- Some member of the network of `seed` reaches the object. What an object
refers to follows from its id, as ids are hashes of contents. -/
def Live (links : Oid → List Oid) (paths : Paths) (disk : Disk) (seed : String) (o : Oid) : Prop :=
  ∃ member, Network paths disk seed member ∧
    ReachFrom (fun a b => b ∈ links a) (tipsOf disk member) o

/-- Unreachable, and created at least `minAge` seconds before `now`, by numbers without a bound:
what a collection should delete, apart from how it computes it. -/
def Due (links : Oid → List Oid) (paths : Paths) (disk : Disk) (seed : String) (now : Int)
    (minAge : Nat) (info : LooseInfo) : Prop :=
  ¬ Live links paths disk seed info.oid ∧ info.createdSecs.toInt ≤ now - minAge

/-- From `disk` to `disk'`, the loose objects of one repo that are `gone` are
deleted, and nothing else changes. -/
structure DeletesExactly (disk : Disk) (id : String) (gone : LooseInfo → Prop) (disk' : Disk) :
    Prop where
  names : disk'.names = disk.names
  others : ∀ id', id' ≠ id → disk'.repo id' = disk.repo id'
  own : ∀ dir, disk.repo id = some dir → ∃ dir', disk'.repo id = some dir' ∧
    dir'.alternates = dir.alternates ∧ dir'.refs = dir.refs ∧ dir'.packed = dir.packed ∧
    ∀ info, info ∈ dir'.loose ↔ info ∈ dir.loose ∧ ¬ gone info

/-- What the collector relies on: the directory can be read, `canonicalize` only finds what exists,
and git lists what the refs and `HEAD` of a repo reach. It is asked for the members of one network,
on the disk as it is when the pass begins. -/
structure HostContract (host : Host) (links : Oid → List Oid) (paths : Paths) (disk : Disk)
    (seed : String) (listing : String → List Listed) : Prop where
  readDir : host.readDir disk = .ok disk.names
  pathsExist : PathsExist paths disk
  prints : ∀ member, Network paths disk seed member → ∃ stderr,
    host.revList disk member = .ok ⟨true, printListing (listing member), stderr⟩
  printable : ∀ member, Network paths disk seed member →
    ∀ entry ∈ listing member, entry.Printable
  lists : ∀ member, Network paths disk seed member → ∀ o,
    (∃ entry ∈ listing member, entry.oid = o) ↔
      ReachFrom (fun a b => b ∈ links a) (tipsOf disk member) o

/-- Every path that git prints for a member is UTF-8. Git prints the bytes of a name as they are. -/
def AllUtf8 (paths : Paths) (disk : Disk) (seed : String) (listing : String → List Listed) :
    Prop :=
  ∀ member, Network paths disk seed member → Utf8Paths (listing member)

/-! ### The survey -/

theorem mem_dedup (l : List String) (x : String) : x ∈ dedup l ↔ x ∈ l := by
  induction l using dedup.induct with
  | case1 a rest ih => simp [dedup, ih]
  | case2 a b rest hne ih => simp [dedup, hne, ih]
  | case3 short h =>
      unfold dedup
      split
      · rename_i a b rest
        exact absurd rfl (h a b rest)
      · rfl

theorem mem_foldl_insert (oids set : List String) (x : String) :
    x ∈ oids.foldl (fun set oid => set.insert oid) set ↔ x ∈ oids ∨ x ∈ set := by
  induction oids generalizing set with
  | nil => simp
  | cons oid oids ih => simp [ih, List.mem_insert_iff, or_assoc, or_left_comm]

section Survey

variable {host : Host} {links : Oid → List Oid} {paths : Paths} {disk : Disk} {seed : String}
  {listing : String → List Listed} {cache : String → Option String}

/-- **Specification of the scan.** It unites what was listed for the members, or
fails where some path is not UTF-8. -/
theorem unionReachable_spec (hhost : HostContract host links paths disk seed listing)
    (members acc : List String) (hmembers : ∀ m ∈ members, Network paths disk seed m) :
    ((∀ m ∈ members, Utf8Paths (listing m)) →
      ∃ reachable, unionReachable host disk members acc = .ok reachable ∧
        ∀ x, x ∈ reachable ↔
          (∃ m ∈ members, ∃ entry ∈ listing m, entry.oid.text = x) ∨ x ∈ acc) ∧
    ((∃ m ∈ members, ¬ Utf8Paths (listing m)) →
      ∃ e, unionReachable host disk members acc = .error e) := by
  induction members generalizing acc with
  | nil => simp [unionReachable]
  | cons m members ih =>
      have hm := hmembers m List.mem_cons_self
      obtain ⟨stderr, hprints⟩ := hhost.prints m hm
      obtain ⟨hread, hfail⟩ :=
        revListObjects_printListing host.texts m stderr (hhost.printable m hm)
      by_cases hutf8 : Utf8Paths (listing m)
      · have hstep : unionReachable host disk (m :: members) acc =
            unionReachable host disk members
              (((listing m).map fun entry => entry.oid.text).foldl
                (fun set oid => set.insert oid) acc) := by
          rw [unionReachable, hprints, hread hutf8]
        obtain ⟨hok, herror⟩ := ih (((listing m).map fun entry => entry.oid.text).foldl
          (fun set oid => set.insert oid) acc) fun m' hm' => hmembers m' (List.mem_cons_of_mem m hm')
        constructor
        · intro hall
          obtain ⟨reachable, hreachable, hmem⟩ :=
            hok fun m' hm' => hall m' (List.mem_cons_of_mem m hm')
          refine ⟨reachable, hstep.trans hreachable, fun x => ?_⟩
          rw [hmem, mem_foldl_insert]
          simp only [List.mem_map, List.exists_mem_cons_iff]
          exact or_left_comm.trans or_assoc.symm
        · rintro ⟨m', hm', hbad⟩
          rcases List.mem_cons.mp hm' with rfl | hm'
          · exact absurd hutf8 hbad
          · obtain ⟨e, he⟩ := herror ⟨m', hm', hbad⟩
            exact ⟨e, hstep.trans he⟩
      · obtain ⟨e, he⟩ := hfail hutf8
        have hstep : unionReachable host disk (m :: members) acc = .error e := by
          rw [unionReachable, hprints, he]
        exact ⟨fun hall => absurd (hall m List.mem_cons_self) hutf8, fun _ => ⟨e, hstep⟩⟩

theorem networkOf_spec (hreadDir : host.readDir disk = .ok disk.names)
    (hpaths : PathsExist paths disk) (hcache : CacheFresh paths disk cache) (seed : String) :
    ∃ network, networkOf host disk cache seed = .ok network ∧
      ∀ member, member ∈ network ↔ Network paths disk seed member := by
  obtain ⟨found, hfound⟩ := networkAround_ok disk.names cache seed
  refine ⟨dedup (found.insertionSort (· ≤ ·)), ?_, fun member => ?_⟩
  · rw [networkOf, hreadDir, hfound]
  · rw [mem_dedup, List.mem_insertionSort, mem_networkAround hpaths hcache hfound]

theorem preview_ok {id : RepoId} {network reachable : List String} {loose : List LooseInfo}
    (hnetwork : networkOf host disk cache id.text = .ok network)
    (hreachable : unionReachable host disk network [] = .ok reachable)
    (hlist : fsObjectStore.listLoose disk id = .ok loose) :
    ∃ seen, preview host fsObjectStore cache disk id.text = .ok seen ∧
      seen.network = network := by
  simp only [preview, hnetwork, hreachable, RepoId.tryFrom_text, hlist, bind, Except.bind, pure,
    Except.pure]
  exact ⟨_, rfl, rfl⟩

/-- **The survey.** It fails where some path is not UTF-8; otherwise it holds the
loose objects of the repo and the ids of everything live. -/
theorem surveyed_spec {id : RepoId} (hhost : HostContract host links paths disk id.text listing)
    (hcache : CacheFresh paths disk cache) {dir : RepoDir} (hdir : disk.repo id.text = some dir) :
    (AllUtf8 paths disk id.text listing → ∃ seen reachable,
      surveyed host fsObjectStore cache disk id.text = .ok (seen, id, dir.loose, reachable) ∧
        ∀ o : Oid, o.text ∈ reachable ↔ Live links paths disk id.text o) ∧
    (¬ AllUtf8 paths disk id.text listing →
      ∃ e, surveyed host fsObjectStore cache disk id.text = .error e) := by
  obtain ⟨network, hnetwork, hmember⟩ := networkOf_spec hhost.readDir hhost.pathsExist hcache id.text
  have hmembers : ∀ m ∈ network, Network paths disk id.text m := fun m => (hmember m).mp
  obtain ⟨hok, herror⟩ := unionReachable_spec hhost network [] hmembers
  have hlist : fsObjectStore.listLoose disk id = .ok dir.loose := by
    simp only [fsObjectStore, hdir]
  constructor
  · intro hutf8
    obtain ⟨reachable, hreachable, hmem⟩ := hok fun m hm => hutf8 m (hmembers m hm)
    obtain ⟨seen, hseen, hnet⟩ := preview_ok hnetwork hreachable hlist
    refine ⟨seen, reachable, ?_, fun o => ?_⟩
    · simp only [surveyed, hseen, hnet, hreachable, RepoId.tryFrom_text, hlist, bind, Except.bind,
        pure, Except.pure]
    · rw [hmem, Live]
      simp only [List.not_mem_nil, or_false]
      constructor
      · rintro ⟨m, hm, entry, hentry, htext⟩
        have hoid : entry.oid = o := Oid.ext htext
        exact ⟨m, hmembers m hm, (hhost.lists m (hmembers m hm) o).mp ⟨entry, hentry, hoid⟩⟩
      · rintro ⟨m, hm, hreach⟩
        obtain ⟨entry, hentry, rfl⟩ := (hhost.lists m hm o).mpr hreach
        exact ⟨m, (hmember m).mpr hm, entry, hentry, rfl⟩
  · intro hutf8
    have hbad : ∃ m ∈ network, ¬ Utf8Paths (listing m) := by
      by_contra hnone
      push Not at hnone
      exact hutf8 fun m hm => hnone m ((hmember m).mpr hm)
    obtain ⟨e, he⟩ := herror hbad
    exact ⟨e, by simp only [surveyed, preview, hnetwork, he, bind, Except.bind]⟩

theorem run_ok {id : RepoId} {seen : GcPreview} {loose : List LooseInfo} {reachable : List String}
    (hsurvey : surveyed host fsObjectStore cache disk id.text = .ok (seen, id, loose, reachable))
    (systemTime : Int64) (minAge : UInt64) :
    (run host fsObjectStore cache systemTime disk id.text minAge).1 =
      disk.keepLoose id.text fun other => !loose.any fun info =>
        doomed reachable (cutoffSecs (nowSecs systemTime) minAge) info && info.oid == other.oid := by
  rw [run, hsurvey]
  exact sweep_disk id reachable _ loose disk ⟨0, 0, 0⟩

/-- **Specification of `run`**: which loose objects of the repo it keeps. -/
theorem run_spec {id : RepoId} (hhost : HostContract host links paths disk id.text listing)
    (hcache : CacheFresh paths disk cache) {dir : RepoDir} (hdir : disk.repo id.text = some dir)
    (systemTime : Int64) (minAge : UInt64) :
    ∃ keep, (run host fsObjectStore cache systemTime disk id.text minAge).1 =
        disk.keepLoose id.text keep ∧
      ∀ info ∈ dir.loose, keep info = true ↔
        ¬ (AllUtf8 paths disk id.text listing ∧ ¬ Live links paths disk id.text info.oid ∧
          info.createdSecs ≤ cutoffSecs (nowSecs systemTime) minAge) := by
  obtain ⟨hok, herror⟩ := surveyed_spec hhost hcache hdir
  by_cases hutf8 : AllUtf8 paths disk id.text listing
  · obtain ⟨seen, reachable, hsurvey, hlive⟩ := hok hutf8
    refine ⟨_, run_ok hsurvey systemTime minAge, ?_⟩
    · intro info hinfo
      rw [Bool.not_eq_true', ← Bool.not_eq_true, List.any_eq_true]
      refine not_congr ?_
      constructor
      · rintro ⟨other, hother, htest⟩
        simp only [doomed, Bool.and_eq_true, Bool.not_eq_true', decide_eq_true_eq,
          beq_iff_eq] at htest
        obtain ⟨⟨hunreached, hold⟩, hoid⟩ := htest
        obtain rfl := dir.loose_ext hother hinfo hoid
        exact ⟨hutf8, fun h => by simp [(hlive other.oid).mpr h] at hunreached, hold⟩
      · rintro ⟨-, hdead, hold⟩
        refine ⟨info, hinfo, ?_⟩
        simp [doomed, hold, hlive, hdead]
  · obtain ⟨e, he⟩ := herror hutf8
    refine ⟨fun _ => true, ?_, ?_⟩
    · rw [run, he]
      exact (Disk.keepLoose_eq_self fun _ _ _ _ => rfl).symm
    · intro info hinfo
      simp [hutf8]

end Survey

/-! ### Exactness -/

theorem deletesExactly_keepLoose_iff {disk : Disk} {id : String} {dir : RepoDir}
    (hdir : disk.repo id = some dir) {gone : LooseInfo → Prop} {keep : LooseInfo → Bool} :
    DeletesExactly disk id gone (disk.keepLoose id keep) ↔
      ∀ info ∈ dir.loose, keep info = true ↔ ¬ gone info := by
  have hself : (disk.keepLoose id keep).repo id = some (dir.keepLoose keep) := by
    rw [Disk.keepLoose_repo_self, hdir, Option.map_some]
  constructor
  · intro h info hinfo
    obtain ⟨dir', hdir', -, -, -, hloose⟩ := h.own dir hdir
    rw [hself, Option.some.injEq] at hdir'
    have hkept := hloose info
    rw [← hdir', RepoDir.keepLoose_loose, List.mem_filter] at hkept
    simpa [hinfo] using hkept
  · intro h
    refine ⟨rfl, fun id' hne => disk.keepLoose_repo_of_ne keep hne, fun other hother => ?_⟩
    rw [hdir, Option.some.injEq] at hother
    subst hother
    refine ⟨_, hself, rfl, rfl, rfl, fun info => ?_⟩
    rw [RepoDir.keepLoose_loose, List.mem_filter]
    exact and_congr_right fun hinfo => h info hinfo

/-- What a pass with one age keeps, another keeps too. -/
def KeepsAtLeast (id : String) (disk disk' : Disk) : Prop :=
  ∀ dir dir', disk.repo id = some dir → disk'.repo id = some dir' →
    ∀ info ∈ dir.loose, info ∈ dir'.loose

/-- **When a pass is exact.** A pass that fails must have had nothing to delete; a pass with an age
from `2 ^ 63` on must meet no unreachable object whose creation time lies in the window that the
cast opens. Exact means two things: the pass deletes what is due and nothing else, and what it keeps
under a smaller age it keeps under the given one. The disk, the network and the clock are any. No
writer is at work meanwhile and the cache is fresh; the directory and `git rev-list` answer as
`HostContract` says. -/
theorem gc_run_exact_iff (host : Host) (links : Oid → List Oid) (paths : Paths) (disk : Disk)
    (id : RepoId) (dir : RepoDir) (hdir : disk.repo id.text = some dir)
    (listing : String → List Listed)
    (hhost : HostContract host links paths disk id.text listing)
    (cache : String → Option String) (hcache : CacheFresh paths disk cache)
    (systemTime : Int64) (minAge : UInt64) :
    (DeletesExactly disk id.text
        (Due links paths disk id.text (nowSecs systemTime).toInt minAge.toNat)
        (run host fsObjectStore cache systemTime disk id.text minAge).1 ∧
      ∀ smaller ≤ minAge, KeepsAtLeast id.text
        (run host fsObjectStore cache systemTime disk id.text smaller).1
        (run host fsObjectStore cache systemTime disk id.text minAge).1) ↔
    ((¬ AllUtf8 paths disk id.text listing → ∀ info ∈ dir.loose,
        ¬ Due links paths disk id.text (nowSecs systemTime).toInt minAge.toNat info) ∧
      (AllUtf8 paths disk id.text listing → 2 ^ 63 ≤ minAge.toNat → ∀ info ∈ dir.loose,
        ¬ Live links paths disk id.text info.oid →
          info.createdSecs.toInt ≤ (nowSecs systemTime).toInt - minAge.toNat ∨
          (nowSecs systemTime).toInt + (2 ^ 64 - minAge.toNat) < info.createdSecs.toInt)) := by
  have hnow := nowSecs_nonneg systemTime
  generalize hnowSecs : nowSecs systemTime = now at hnow ⊢
  obtain ⟨keep, hrun, hkeep⟩ := run_spec hhost hcache hdir systemTime minAge
  rw [hrun, deletesExactly_keepLoose_iff hdir]
  rw [hnowSecs] at hkeep
  constructor
  · rintro ⟨hexact, -⟩
    have hdue : ∀ info ∈ dir.loose, (AllUtf8 paths disk id.text listing ∧
        ¬ Live links paths disk id.text info.oid ∧ info.createdSecs ≤ cutoffSecs now minAge) ↔
          Due links paths disk id.text now.toInt minAge.toNat info := fun info hinfo =>
      not_iff_not.mp ((hkeep info hinfo).symm.trans (hexact info hinfo))
    constructor
    · intro hutf8 info hinfo h
      exact hutf8 ((hdue info hinfo).mpr h).1
    · intro hutf8 hlarge info hinfo hdead
      by_contra hwindow
      push Not at hwindow
      have hold : info.createdSecs ≤ cutoffSecs now minAge := by
        rw [le_cutoffSecs_iff hnow, if_neg (by omega)]
        exact hwindow.2
      have hage := ((hdue info hinfo).mp ⟨hutf8, hdead, hold⟩).2
      omega
  · rintro ⟨hfail, hwindow⟩
    have hexact : ∀ info ∈ dir.loose, keep info = true ↔
        ¬ Due links paths disk id.text now.toInt minAge.toNat info := by
      intro info hinfo
      rw [hkeep info hinfo]
      refine not_congr ?_
      constructor
      · rintro ⟨hutf8, hdead, hold⟩
        refine ⟨hdead, ?_⟩
        rw [le_cutoffSecs_iff hnow] at hold
        split_ifs at hold with hsmall
        · exact hold
        · rcases hwindow hutf8 (by omega) info hinfo hdead with hage | hfuture
          · exact hage
          · omega
      · rintro ⟨hdead, hage⟩
        refine ⟨?_, hdead, ?_⟩
        · by_contra hutf8
          exact hfail hutf8 info hinfo ⟨hdead, hage⟩
        · rw [le_cutoffSecs_iff hnow]
          have hrange := minAge.toNat_lt
          split_ifs <;> omega
    refine ⟨hexact, ?_⟩
    intro smaller hle one two hone htwo info hinfo
    obtain ⟨keep', hrun', hkeep'⟩ := run_spec hhost hcache hdir systemTime smaller
    rw [hnowSecs] at hkeep'
    rw [hrun', Disk.keepLoose_repo_self, hdir, Option.map_some, Option.some.injEq] at hone
    rw [Disk.keepLoose_repo_self, hdir, Option.map_some, Option.some.injEq] at htwo
    subst hone htwo
    rw [RepoDir.keepLoose_loose, List.mem_filter] at hinfo ⊢
    refine ⟨hinfo.1, (hexact info hinfo.1).mpr ?_⟩
    -- what is due at the larger age was deleted at the smaller one
    rintro ⟨hdead, hage⟩
    refine (hkeep' info hinfo.1).mp hinfo.2 ⟨?_, hdead, ?_⟩
    · by_contra hutf8
      exact hfail hutf8 info hinfo.1 ⟨hdead, hage⟩
    · rw [le_cutoffSecs_iff hnow]
      have hrange := minAge.toNat_lt
      have hle' : smaller.toNat ≤ minAge.toNat := UInt64.le_iff_toNat_le.mp hle
      split_ifs <;> omega

/-! ### A repo with one unreachable object -/

def loneId : RepoId := ⟨"lone", rfl⟩

/-- A blob that no ref reaches, written at second 990000. -/
def loneInfo : LooseInfo :=
  ⟨⟨"dddddddddddddddddddddddddddddddddddddddd", rfl⟩, 10, 990000⟩

def loneDir : RepoDir where
  alternates := none
  refs := []
  loose := [loneInfo]
  packed := []
  distinct := List.nodup_singleton _

def loneDisk : Disk where
  names := [some "lone.git"]
  repo id := if id = "lone" then some loneDir else none
  listed := by
    intro id h
    split_ifs at h with hid
    · rw [hid]
      exact List.mem_singleton.mpr rfl
    · cases h

/-- A host on which git lists nothing, as there is no ref. -/
def loneHost : Host where
  readDir disk := .ok disk.names
  revList _ _ := .ok ⟨true, [], ""⟩
  texts := ⟨fun _ => "invalid utf-8 sequence"⟩

def lonePaths : Paths := ⟨some ["srv"], fun _ => none⟩

theorem loneDisk_alternates (id : String) : loneDisk.alternates id = none := by
  unfold Disk.alternates loneDisk
  dsimp only
  split_ifs <;> rfl

theorem loneDisk_fresh : CacheFresh lonePaths loneDisk fun _ => none := by
  intro id
  rw [sourceOf, loneDisk_alternates]
  rfl

theorem loneDisk_reach (links : Oid → List Oid) (member : String) (o : Oid) :
    ¬ ReachFrom (fun a b => b ∈ links a) (tipsOf loneDisk member) o := by
  rintro ⟨t, ⟨dir, hdir, ht⟩, -⟩
  simp only [loneDisk] at hdir
  split_ifs at hdir
  obtain rfl := Option.some.inj hdir
  cases ht

theorem loneHost_contract (links : Oid → List Oid) :
    HostContract loneHost links lonePaths loneDisk loneId.text fun _ => [] where
  readDir := rfl
  pathsExist := by
    intro root target name _ htarget
    cases htarget
  prints := fun _ _ => ⟨"", rfl⟩
  printable := fun _ _ entry hentry => absurd hentry List.not_mem_nil
  lists := by
    intro member _ o
    constructor
    · rintro ⟨entry, hentry, -⟩
      exact absurd hentry List.not_mem_nil
    · exact fun hreach => absurd hreach (loneDisk_reach links member o)

/-! ### A repo and its fork -/

def commitId : Oid := ⟨"12ab34cd56ef12ab34cd56ef12ab34cd56ef12ab", rfl⟩

def treeId : Oid := ⟨"23ab34cd56ef12ab34cd56ef12ab34cd56ef12ab", rfl⟩

def forkedId : Oid := ⟨"34ab34cd56ef12ab34cd56ef12ab34cd56ef12ab", rfl⟩

def junkId : Oid := ⟨"45ab34cd56ef12ab34cd56ef12ab34cd56ef12ab", rfl⟩

def youngId : Oid := ⟨"56ab34cd56ef12ab34cd56ef12ab34cd56ef12ab", rfl⟩

def familyLinks (o : Oid) : List Oid := if o = commitId then [treeId] else []

/-- A commit with its tree, an object that only the fork names, and two that nobody names,
the second one ten minutes old at second 1000000. -/
def baseDir : RepoDir where
  alternates := none
  refs := [("refs/heads/main", commitId)]
  loose := [⟨commitId, 10, 990000⟩, ⟨treeId, 10, 990000⟩, ⟨forkedId, 10, 990000⟩,
    ⟨junkId, 10, 990000⟩, ⟨youngId, 10, 999400⟩]
  packed := []
  distinct := by decide

def forkDir : RepoDir where
  alternates := some "/srv/base.git/objects\n"
  refs := [("refs/heads/main", forkedId)]
  loose := []
  packed := []
  distinct := List.nodup_nil

/-- A repo in which git fails. -/
def sickDir : RepoDir where
  alternates := none
  refs := [("refs/heads/main", commitId)]
  loose := [⟨junkId, 10, 990000⟩]
  packed := []
  distinct := List.nodup_singleton _

def familyDisk : Disk where
  names := [some "base.git", some "fork.git", some "sick.git"]
  repo id :=
    if id = "base" then some baseDir
    else if id = "fork" then some forkDir
    else if id = "sick" then some sickDir
    else none
  listed := by
    intro id h
    split_ifs at h with hbase hfork hsick
    · simp [hbase]
    · simp [hfork]
    · simp [hsick]
    · cases h

def familyPaths : Paths where
  canonRoot := some ["srv"]
  canonicalize target :=
    if target = "/srv/base.git/objects" then some ["srv", "base.git", "objects"] else none

def familyListing (member : String) : List Listed :=
  if member = "base" then [⟨commitId, none⟩, ⟨treeId, some []⟩]
  else if member = "fork" then [⟨forkedId, none⟩]
  else []

def familyHost : Host where
  readDir disk := .ok disk.names
  revList _ member :=
    if member = "sick" then .ok ⟨false, [], "fatal: bad object refs/heads/main"⟩
    else .ok ⟨true, printListing (familyListing member), ""⟩
  texts := ⟨fun _ => "invalid utf-8 sequence"⟩

theorem family_sourceOf (id : String) :
    sourceOf familyPaths familyDisk id = if id = "fork" then some "base" else none := by
  have hnone : resolve familyPaths none = none := rfl
  have hfork : resolve familyPaths forkDir.alternates = some "base" := by decide +kernel
  unfold sourceOf Disk.alternates familyDisk
  dsimp only
  split_ifs with h1 h2 h3 h4
  · rw [h1] at h2
    exact absurd h2 (by decide)
  · exact hnone
  · exact hfork
  · exact hnone
  · exact hnone

/-- The fork and its source are the only two repos that are linked. -/
theorem family_linked {a b : String} (h : Linked familyPaths familyDisk a b) :
    (a = "base" ∧ b = "fork") ∨ (a = "fork" ∧ b = "base") := by
  unfold Linked at h
  rw [family_sourceOf, family_sourceOf] at h
  rcases h with h | h
  · split_ifs at h with hfork
    exact Or.inr ⟨hfork, (Option.some.inj h).symm⟩
  · split_ifs at h with hfork
    exact Or.inl ⟨(Option.some.inj h).symm, hfork⟩

theorem family_network (member : String) :
    Network familyPaths familyDisk "base" member ↔ member = "base" ∨ member = "fork" := by
  constructor
  · intro h
    induction h with
    | refl => exact Or.inl rfl
    | tail _ hlinked _ =>
        rcases family_linked hlinked with ⟨-, rfl⟩ | ⟨-, rfl⟩
        · exact Or.inr rfl
        · exact Or.inl rfl
  · rintro (rfl | rfl)
    · exact ReflTransGen.refl
    · exact ReflTransGen.single (Or.inr (family_sourceOf "fork"))

/-- What git lists is what the refs reach, in every repo but the broken one. -/
theorem family_lists {member : String} (hmember : member ≠ "sick") (o : Oid) :
    (∃ entry ∈ familyListing member, entry.oid = o) ↔
      ReachFrom (fun a b => b ∈ familyLinks a) (tipsOf familyDisk member) o := by
  have hlinks : ∀ a b, b ∈ familyLinks a ↔ a = commitId ∧ b = treeId := by
    intro a b
    unfold familyLinks
    split_ifs with ha <;> simp [ha]
  by_cases hbase : member = "base"
  · subst hbase
    have htips : ∀ t, t ∈ tipsOf familyDisk "base" ↔ t = commitId := by
      intro t
      simp [tipsOf, familyDisk, baseDir, RepoDir.tips]
    simp only [familyListing, if_true, List.mem_cons, List.not_mem_nil, or_false,
      exists_eq_or_imp, exists_eq_left]
    constructor
    · rintro (rfl | rfl)
      · exact ReachFrom.root ((htips _).mpr rfl)
      · exact (ReachFrom.root ((htips _).mpr rfl)).step ((hlinks _ _).mpr ⟨rfl, rfl⟩)
    · intro h
      have hclosed : o ∈ ({o | commitId = o ∨ treeId = o} : Set Oid) := by
        refine h.mem_of_closed (fun t ht => Or.inl ((htips t).mp ht).symm) ?_
        intro a _ b hab
        exact Or.inr ((hlinks a b).mp hab).2.symm
      exact hclosed
  · by_cases hfork : member = "fork"
    · subst hfork
      have htips : ∀ t, t ∈ tipsOf familyDisk "fork" ↔ t = forkedId := by
        intro t
        simp [tipsOf, familyDisk, forkDir, RepoDir.tips]
      simp only [familyListing, if_neg hbase, if_true, List.mem_singleton, exists_eq_left]
      constructor
      · rintro rfl
        exact ReachFrom.root ((htips _).mpr rfl)
      · intro h
        have hclosed : o ∈ ({o | forkedId = o} : Set Oid) := by
          refine h.mem_of_closed (fun t ht => ((htips t).mp ht).symm) ?_
          rintro a rfl b hab
          exact absurd ((hlinks _ b).mp hab).1 (by decide)
        exact hclosed
    · have hnone : familyDisk.repo member = none := by simp [familyDisk, hbase, hfork, hmember]
      simp only [familyListing, if_neg hbase, if_neg hfork, List.not_mem_nil, false_and,
        exists_false, false_iff]
      rintro ⟨t, ⟨dir, hdir, -⟩, -⟩
      rw [hnone] at hdir
      cases hdir

theorem family_printable (member : String) : ∀ entry ∈ familyListing member, entry.Printable := by
  intro entry hentry path hpath
  unfold familyListing at hentry
  split_ifs at hentry
  all_goals
    simp only [List.mem_cons, List.not_mem_nil, or_false] at hentry
  · rcases hentry with rfl | rfl
    · cases hpath
    · obtain rfl := Option.some.inj hpath
      exact List.not_mem_nil
  · subst hentry
    cases hpath

theorem family_utf8 (member : String) : Utf8Paths (familyListing member) := by
  intro entry hentry path hpath
  unfold familyListing at hentry
  split_ifs at hentry
  all_goals
    simp only [List.mem_cons, List.not_mem_nil, or_false] at hentry
  · rcases hentry with rfl | rfl
    · cases hpath
    · obtain rfl := Option.some.inj hpath
      exact congrArg Option.isSome (fromUtf8_asBytes "")
  · subst hentry
    cases hpath

theorem family_pathsExist (disk : Disk) (h : disk.names = familyDisk.names) :
    PathsExist familyPaths disk := by
  intro root target name hroot htarget
  unfold familyPaths at hroot htarget
  dsimp only at hroot htarget
  split_ifs at htarget
  obtain rfl := Option.some.inj hroot
  simp only [Option.some.injEq, List.cons_append, List.nil_append, List.cons.injEq, true_and,
    and_true] at htarget
  rw [h, ← htarget]
  simp [familyDisk]

theorem family_fresh : CacheFresh familyPaths familyDisk fun id =>
    if id = "fork" then some "base" else none :=
  fun id => (family_sourceOf id).symm

theorem family_contract :
    HostContract familyHost familyLinks familyPaths familyDisk "base" familyListing where
  readDir := rfl
  pathsExist := family_pathsExist familyDisk rfl
  prints := by
    intro member hmember
    refine ⟨"", if_neg ?_⟩
    rintro rfl
    exact absurd ((family_network _).mp hmember) (by decide)
  printable member _ := family_printable member
  lists := by
    intro member hmember o
    refine family_lists ?_ o
    rintro rfl
    exact absurd ((family_network _).mp hmember) (by decide)

/-- The network of the repo reaches its own two objects and the one of the fork. -/
theorem family_live (o : Oid) :
    Live familyLinks familyPaths familyDisk "base" o ↔
      o = commitId ∨ o = treeId ∨ o = forkedId := by
  unfold Live
  simp only [family_network, or_and_right, exists_or, exists_eq_left]
  rw [← family_lists (by decide), ← family_lists (by decide)]
  simp [familyListing, eq_comm, or_assoc]

/-- With an hour for the age only the old object that nobody names is deleted. -/
theorem gc_run_exact_hour :
    ∃ dir', (run familyHost fsObjectStore (fun id => if id = "fork" then some "base" else none)
        1000000 familyDisk "base" 3600).1.repo "base" = some dir' ∧
      ∀ info, info ∈ dir'.loose ↔ info ∈ baseDir.loose ∧ info.oid ≠ junkId := by
  obtain ⟨hexact, -⟩ := (gc_run_exact_iff familyHost familyLinks familyPaths familyDisk
    ⟨"base", rfl⟩ baseDir rfl familyListing family_contract _ family_fresh 1000000 3600).mpr
    ⟨fun hutf8 => absurd (fun member _ => family_utf8 member) hutf8,
      fun _ hlarge => absurd hlarge (by decide)⟩
  obtain ⟨dir', hdir', -, -, -, hloose⟩ := hexact.own baseDir rfl
  refine ⟨dir', hdir', fun info => (hloose info).trans (and_congr_right fun hinfo => ?_)⟩
  unfold Due
  rw [family_live]
  simp only [baseDir, List.mem_cons, List.not_mem_nil, or_false] at hinfo
  rcases hinfo with rfl | rfl | rfl | rfl | rfl <;> decide

/-- The largest age asks to keep everything, and deletes an object that is not
three hours old. -/
theorem gc_run_deletes_young :
    HostContract loneHost (fun _ => []) lonePaths loneDisk loneId.text (fun _ => []) ∧
      CacheFresh lonePaths loneDisk (fun _ => none) ∧
      ¬ DeletesExactly loneDisk loneId.text
        (Due (fun _ => []) lonePaths loneDisk loneId.text 1000000 (2 ^ 64 - 1))
        (run loneHost fsObjectStore (fun _ => none) 1000000 loneDisk loneId.text
          18446744073709551615).1 := by
  refine ⟨loneHost_contract _, loneDisk_fresh, ?_⟩
  obtain ⟨keep, hrun, hkeep⟩ := run_spec (loneHost_contract fun _ => []) loneDisk_fresh
    (show loneDisk.repo loneId.text = some loneDir from rfl) 1000000 18446744073709551615
  rw [hrun, deletesExactly_keepLoose_iff (show loneDisk.repo loneId.text = some loneDir from rfl)]
  intro hexact
  have hmem : loneInfo ∈ loneDir.loose := List.mem_singleton.mpr rfl
  refine (hkeep loneInfo hmem).mp ((hexact loneInfo hmem).mpr ?_) ⟨?_, ?_, by decide⟩
  · rintro ⟨-, hage⟩
    exact absurd hage (by decide)
  · exact fun _ _ entry hentry => absurd hentry List.not_mem_nil
  · rintro ⟨member, -, hreach⟩
    exact loneDisk_reach _ member _ hreach

end Gc
end Artifacts
