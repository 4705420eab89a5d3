import Artifacts.Foundation.Runs
import Artifacts.Storage.Links

/-!
# Lookups among forks and deletions

A lookup stats the alternates file and takes the cached answer if the mtime is the one
it was cached under.  But the answer hangs on more than the file: `resolve` wants the
named repo to be there, and a file that is written twice within one tick of the clock
keeps its mtime.

The runs here are made of the file-system steps of `create`, `fork` and `delete`, of
lookups and of `invalidate`, in any order and for any ids.

`Transparent` is about every id at every moment, not only about the lookups of the run.  The
granularity of the clock is a parameter, 0 included.  Changes of the files by hand are not
among the steps.
-/

namespace Artifacts
namespace Storage

open Foundation

/-- `objects/info/alternates` of a repo. -/
structure AlternatesFile where
  content : String
  mtime : Nat
  deriving DecidableEq

/-- What lookups depend on: the files, the clock that an mtime is taken from, and the entries of the
cache. The clock may stand still between two writes. -/
structure CacheSite where
  /-- The repos whose `objects` directory is there, each with its alternates file. -/
  files : String → Option (Option AlternatesFile)
  clock : Nat
  entries : String → Option CacheEntry

/-- One step of a call: the single calls into the file system that a fork or a deletion makes, the
lookups, and the passing of time. -/
inductive CacheStep where
  /-- `create_dir_all` of `objects/info`. -/
  | makeObjects (id : String)
  /-- `fs::write` opens the alternates file, and truncates it. -/
  | createAlternates (id : String)
  /-- `fs::write` writes the content. -/
  | writeAlternates (id content : String)
  /-- `remove_dir_all` comes to the alternates file. -/
  | removeAlternates (id : String)
  /-- `remove_dir_all` comes to `objects`, which has to be empty. -/
  | removeObjects (id : String)
  | invalidate (id : String)
  | lookup (id : String)
  | wait (time : Nat)

namespace CacheSite

/-- The repo's `objects` directory is there. -/
def there (s : CacheSite) (id : String) : Bool := (s.files id).isSome

def alternates (s : CacheSite) (id : String) : Option AlternatesFile := (s.files id).bind fun f => f

def stat (s : CacheSite) (id : String) : Option Nat := (s.alternates id).map AlternatesFile.mtime

/-- The repo that the alternates file names. -/
def named (fs : FileSystem) (s : CacheSite) (id : String) : Option String :=
  fs.target ((s.alternates id).map AlternatesFile.content)

/-- What `resolve` returns at this moment. -/
def resolved (fs : FileSystem) (s : CacheSite) (id : String) : Option String :=
  resolve (fs.pathsWhere s.there) ((s.alternates id).map AlternatesFile.content)

/-- What `lookup` returns, and the entries after it. -/
def lookup (fs : FileSystem) (s : CacheSite) (id : String) :
    Option String × (String → Option CacheEntry) :=
  cacheLookup s.entries (s.stat id) (s.resolved fs id) id

/-- The mtime of a file written now, on a clock of this granularity. -/
def tick (granularity : Nat) (s : CacheSite) : Nat := s.clock / granularity

def setFiles (s : CacheSite) (id : String) (repo : Option (Option AlternatesFile)) : CacheSite :=
  { s with files := Function.update s.files id repo }

/-- One step; a call on a path that is not there fails and changes nothing. -/
def step (fs : FileSystem) (granularity : Nat) (s : CacheSite) : CacheStep → CacheSite
  | .makeObjects id => if s.there id then s else s.setFiles id (some none)
  | .createAlternates id =>
      if s.there id then s.setFiles id (some (some ⟨"", s.tick granularity⟩)) else s
  | .writeAlternates id content =>
      if (s.alternates id).isSome then
        s.setFiles id (some (some ⟨content, s.tick granularity⟩))
      else s
  | .removeAlternates id => if s.there id then s.setFiles id (some none) else s
  | .removeObjects id => if s.files id = some none then s.setFiles id none else s
  | .invalidate id => { s with entries := Function.update s.entries id none }
  | .lookup id => { s with entries := (s.lookup fs id).2 }
  | .wait time => { s with clock := s.clock + time }

/-- A lookup now, of any id, returns what `resolve` returns: one cannot tell that there is a cache.
-/
def Transparent (fs : FileSystem) (s : CacheSite) : Prop :=
  ∀ id, (s.lookup fs id).1 = s.resolved fs id

/-- No cached answer counts for a repo whose alternates file names `id`. -/
def Unread (fs : FileSystem) (s : CacheSite) (id : String) : Prop :=
  ∀ child e, s.named fs child = some id → s.entries child = some e → e.mtime ≠ s.stat child

/-- An answer cached for `id` under an mtime of this tick is that of a file with this
content. -/
def TickUsed (fs : FileSystem) (granularity : Nat) (s : CacheSite) (id content : String) : Prop :=
  ∀ e, s.entries id = some e → e.mtime = some (s.tick granularity) →
    e.sourceId = (fs.target (some content)).filter s.there

/-- The steps that leave no cached answer behind that has become wrong: a repo comes or goes only
while nothing is cached for the forks that name it, and an alternates file is written only in a tick
that nothing else is cached under. Lookups and `invalidate` are always fine. -/
def Settled (fs : FileSystem) (granularity : Nat) (s : CacheSite) : CacheStep → Prop
  | .makeObjects id => s.there id = false → s.Unread fs id
  | .removeObjects id => s.files id = some none → s.Unread fs id
  | .createAlternates id => s.there id = true → s.TickUsed fs granularity id ""
  | .writeAlternates id content =>
      (s.alternates id).isSome = true → s.TickUsed fs granularity id content
  | _ => True

end CacheSite

/-! ### The calls -/

/-- `FsStorage::create`, as far as lookups go. -/
def createSteps (id : String) : List CacheStep := [.makeObjects id]

/-- `FsStorage::fork`, as far as lookups go: the directory, and the alternates file in two steps,
between which it is empty. -/
def forkSteps (reposDir sourceId forkId : String) : List CacheStep :=
  [.makeObjects forkId, .createAlternates forkId,
    .writeAlternates forkId (reposDir ++ "/" ++ sourceId ++ ".git/objects\n")]

/-- `delete_repo` of one repo, with force or without forks: `list_forks_of` looks its
siblings up, and the handler forgets the id at the end. -/
def deleteSteps (siblings : List String) (id : String) : List CacheStep :=
  siblings.map .lookup ++ [.removeAlternates id, .removeObjects id, .invalidate id]

namespace CacheSite

variable {fs : FileSystem} {granularity : Nat} {s : CacheSite}

/-! ### What a step changes -/

theorem resolved_eq (fs : FileSystem) (s : CacheSite) (id : String) :
    s.resolved fs id = (s.named fs id).filter s.there :=
  fs.resolve_eq s.there _

/-- **Specification of `lookup`.** -/
theorem transparent_iff :
    s.Transparent fs ↔
      ∀ id e, s.entries id = some e → e.mtime = s.stat id → e.sourceId = s.resolved fs id := by
  apply forall_congr'
  intro id
  unfold lookup cacheLookup
  dsimp only
  cases hentry : s.entries id with
  | none => simp
  | some e =>
      dsimp only
      by_cases hmtime : e.mtime = s.stat id
      · rw [if_pos hmtime]
        constructor
        · intro h e' he' _
          cases he'
          exact h
        · intro h
          exact h e rfl hmtime
      · rw [if_neg hmtime]
        constructor
        · intro _ e' he' hmtime'
          cases he'
          exact absurd hmtime' hmtime
        · intro _
          rfl

@[simp] theorem setFiles_entries (id : String) (repo : Option (Option AlternatesFile)) :
    (s.setFiles id repo).entries = s.entries := rfl

theorem alternates_setFiles (id other : String) (repo : Option (Option AlternatesFile)) :
    (s.setFiles id repo).alternates other =
      if other = id then repo.bind fun f => f else s.alternates other := by
  unfold alternates setFiles
  dsimp only
  by_cases heq : other = id
  · rw [heq, Function.update_self, if_pos rfl]
  · rw [Function.update_of_ne heq, if_neg heq]

theorem there_setFiles (id other : String) (repo : Option (Option AlternatesFile)) :
    (s.setFiles id repo).there other = if other = id then repo.isSome else s.there other := by
  unfold there setFiles
  dsimp only
  by_cases heq : other = id
  · rw [heq, Function.update_self, if_pos rfl]
  · rw [Function.update_of_ne heq, if_neg heq]

/-- A new alternates file matters for its own repo only. -/
theorem transparent_write_iff (h : s.Transparent fs) {id : String} (hthere : s.there id = true)
    (file : Option AlternatesFile) :
    (s.setFiles id (some file)).Transparent fs ↔
      ∀ e, s.entries id = some e → e.mtime = file.map AlternatesFile.mtime →
        e.sourceId = (fs.target (file.map AlternatesFile.content)).filter s.there := by
  have hsame : (s.setFiles id (some file)).there = s.there := by
    funext other
    rw [there_setFiles]
    split_ifs with heq
    · rw [heq, hthere]
      rfl
    · rfl
  rw [transparent_iff] at h ⊢
  constructor
  · intro h' e he hmtime
    have hself := h' id e he
    rw [resolved_eq, stat, named, alternates_setFiles, if_pos rfl, hsame] at hself
    exact hself hmtime
  · intro hself other e he
    rw [resolved_eq, stat, named, alternates_setFiles, hsame]
    by_cases heq : other = id
    · rw [if_pos heq]
      rw [heq] at he
      exact hself e he
    · rw [if_neg heq]
      have hold := h other e he
      rw [resolved_eq] at hold
      exact hold

/-- A repo without an alternates file that comes or goes matters for the forks that name
it. -/
theorem transparent_move_iff (h : s.Transparent fs) {id : String}
    {repo : Option (Option AlternatesFile)} (hnone : s.alternates id = none)
    (hnone' : (repo.bind fun f => f) = none) (hmoves : repo.isSome = !s.there id) :
    (s.setFiles id repo).Transparent fs ↔ s.Unread fs id := by
  have halternates : ∀ other, (s.setFiles id repo).alternates other = s.alternates other := by
    intro other
    rw [alternates_setFiles]
    split_ifs with heq
    · rw [heq, hnone, hnone']
    · rfl
  have hnames : ∀ child, (s.setFiles id repo).named fs child = s.named fs child := by
    intro child
    unfold named
    rw [halternates]
  rw [transparent_iff] at h ⊢
  constructor
  · intro h' child e hnamed he hmtime
    have hbefore := h child e he hmtime
    have hafter := h' child e he
    rw [stat, halternates] at hafter
    have hboth := hbefore.symm.trans (hafter hmtime)
    rw [resolved_eq, resolved_eq, hnames, hnamed, Option.filter_some, Option.filter_some, there_setFiles, if_pos rfl, hmoves] at hboth
    cases hthere : s.there id with
    | true => simp [hthere] at hboth
    | false => simp [hthere] at hboth
  · intro hunread child e he hmtime
    rw [stat, halternates] at hmtime
    have hbefore := h child e he hmtime
    rw [hbefore, resolved_eq, resolved_eq, hnames]
    cases hnamed : s.named fs child with
    | none => rfl
    | some source =>
        have hne : source ≠ id := by
          rintro rfl
          exact hunread child e hnamed he hmtime
        rw [Option.filter_some, Option.filter_some, there_setFiles, if_neg hne]

/-! ### Runs -/

/-- An answer cached when there was no file is that there is no source. -/
def Absent (s : CacheSite) : Prop :=
  ∀ id e, s.entries id = some e → e.mtime = none → e.sourceId = none

theorem resolved_of_stat_none {id : String} (h : s.stat id = none) : s.resolved fs id = none := by
  unfold resolved
  rw [Option.map_eq_none_iff.mp h]
  rfl

theorem entries_lookup (id : String) (other : String) {e : CacheEntry}
    (he : (s.lookup fs id).2 other = some e) :
    s.entries other = some e ∨ e = ⟨s.stat other, s.resolved fs other⟩ := by
  have hmissed : Function.update s.entries id (some ⟨s.stat id, s.resolved fs id⟩) other = some e →
      s.entries other = some e ∨ e = ⟨s.stat other, s.resolved fs other⟩ := by
    intro he
    by_cases heq : other = id
    · subst heq
      rw [Function.update_self] at he
      exact Or.inr (Option.some.inj he).symm
    · rw [Function.update_of_ne heq] at he
      exact Or.inl he
  unfold lookup cacheLookup at he
  dsimp only at he
  split at he
  · split_ifs at he
    · exact Or.inl he
    · exact hmissed he
  · exact hmissed he

theorem entries_invalidate {id other : String} {e : CacheEntry}
    (he : Function.update s.entries id none other = some e) : s.entries other = some e := by
  by_cases heq : other = id
  · subst heq
    rw [Function.update_self] at he
    cases he
  · rwa [Function.update_of_ne heq] at he

/-- Where an entry comes from: it was there, or the step was a lookup that missed. -/
theorem entries_step (m : CacheStep) (other : String) {e : CacheEntry}
    (he : (s.step fs granularity m).entries other = some e) :
    s.entries other = some e ∨ e = ⟨s.stat other, s.resolved fs other⟩ := by
  have hfiles : ∀ {s' : CacheSite}, s'.entries = s.entries → s'.entries other = some e →
      s.entries other = some e ∨ e = ⟨s.stat other, s.resolved fs other⟩ := by
    intro s' hsame he
    exact Or.inl (hsame ▸ he)
  cases m with
  | makeObjects id =>
      rw [step] at he
      split_ifs at he
      · exact hfiles rfl he
      · exact hfiles rfl he
  | createAlternates id =>
      rw [step] at he
      split_ifs at he
      · exact hfiles rfl he
      · exact hfiles rfl he
  | writeAlternates id content =>
      rw [step] at he
      split_ifs at he
      · exact hfiles rfl he
      · exact hfiles rfl he
  | removeAlternates id =>
      rw [step] at he
      split_ifs at he
      · exact hfiles rfl he
      · exact hfiles rfl he
  | removeObjects id =>
      rw [step] at he
      split_ifs at he
      · exact hfiles rfl he
      · exact hfiles rfl he
  | invalidate id => exact Or.inl (entries_invalidate he)
  | lookup id => exact entries_lookup id other he
  | wait time => exact Or.inl he

theorem absent_step (h : s.Absent) (m : CacheStep) : (s.step fs granularity m).Absent := by
  intro other e he hnone
  rcases entries_step m other he with hold | rfl
  · exact h other e hold hnone
  · exact resolved_of_stat_none hnone

/-- **One step.** A cache that is right stays right if and only if the step is settled. -/
theorem transparent_step_iff (h : s.Transparent fs) (habsent : s.Absent) (m : CacheStep) :
    (s.step fs granularity m).Transparent fs ↔ s.Settled fs granularity m := by
  cases m with
  | makeObjects id =>
      rw [step, Settled]
      by_cases hthere : s.there id = true
      · rw [if_pos hthere]
        simp [h, hthere]
      · have hfalse : s.there id = false := Bool.not_eq_true _ ▸ hthere
        have hnone : s.alternates id = none := by
          unfold alternates
          rw [Option.not_isSome_iff_eq_none.mp hthere]
          rfl
        rw [if_neg hthere, transparent_move_iff h hnone rfl (by rw [hfalse]; rfl)]
        exact ⟨fun hunread _ => hunread, fun hunread => hunread hfalse⟩
  | createAlternates id =>
      rw [step, Settled]
      split_ifs with hthere
      · -- the file comes into being with the mtime of this tick
        rw [transparent_write_iff h hthere]
        exact ⟨fun hused _ => hused, fun hused => hused hthere⟩
      · exact ⟨fun _ hthere' => absurd hthere' hthere, fun _ => h⟩
  | writeAlternates id content =>
      rw [step, Settled]
      split_ifs with hfile
      · have hthere : s.there id = true := by
          unfold there
          cases hrepo : s.files id with
          | none =>
              unfold alternates at hfile
              rw [hrepo] at hfile
              cases hfile
          | some file => rfl
        rw [transparent_write_iff h hthere]
        exact ⟨fun hused _ => hused, fun hused => hused hfile⟩
      · exact ⟨fun _ hfile' => absurd hfile' hfile, fun _ => h⟩
  | removeAlternates id =>
      rw [step]
      show _ ↔ True
      split_ifs with hthere
      · -- without the file only the answers without a source count
        rw [transparent_write_iff h hthere]
        exact ⟨fun _ => trivial, fun _ e he hnone => habsent id e he hnone⟩
      · exact ⟨fun _ => trivial, fun _ => h⟩
  | removeObjects id =>
      rw [step, Settled]
      split_ifs with hempty
      · have hnone : s.alternates id = none := by
          unfold alternates
          rw [hempty]
          rfl
        have hthere : s.there id = true := by
          unfold there
          rw [hempty]
          rfl
        rw [transparent_move_iff h hnone rfl (by rw [hthere]; rfl)]
        exact ⟨fun hunread _ => hunread, fun hunread => hunread hempty⟩
      · exact ⟨fun _ hempty' => absurd hempty' hempty, fun _ => h⟩
  | invalidate id =>
      rw [transparent_iff] at h
      refine ⟨fun _ => trivial, fun _ => transparent_iff.mpr ?_⟩
      exact fun other e he => h other e (entries_invalidate he)
  | lookup id =>
      rw [transparent_iff] at h
      refine ⟨fun _ => trivial, fun _ => transparent_iff.mpr ?_⟩
      intro other e he hmtime
      -- a lookup caches what it has just resolved
      rcases entries_lookup id other he with hold | rfl
      · exact h other e hold hmtime
      · rfl
  | wait time => exact ⟨fun _ => trivial, fun _ => h⟩

/-- **Lookups answer what `resolve` would, exactly in settled runs.** From an empty cache, with
whatever there is on disk, every lookup that could be made in the course of a run returns what
`resolve` returns at that moment if and only if every step of the run is settled. The steps are any,
of any calls on any ids, and the tick of the file system's clock is a parameter. A settled step is
one that leaves no cached answer behind that has become wrong, which is a condition on the moves of
the run and the mtimes cached so far. -/
theorem lookups_transparent_iff (fs : FileSystem) (granularity : Nat)
    (files : String → Option (Option AlternatesFile)) (clock : Nat) (steps : List CacheStep) :
    EveryState (step fs granularity) (Transparent fs) ⟨files, clock, fun _ => none⟩ steps ↔
      EveryStep (step fs granularity) (Settled fs granularity) ⟨files, clock, fun _ => none⟩
        steps := by
  have hstart : Transparent fs ⟨files, clock, fun _ => none⟩ ∧
      Absent ⟨files, clock, fun _ => none⟩ :=
    ⟨transparent_iff.mpr nofun, nofun⟩
  have hkeep : ∀ s m, (Transparent fs s ∧ Absent s) → Settled fs granularity s m →
      Transparent fs (step fs granularity s m) ∧ Absent (step fs granularity s m) :=
    fun s m hs hsettled =>
      ⟨(transparent_step_iff hs.1 hs.2 m).mpr hsettled, absent_step hs.2 m⟩
  constructor
  · exact everyStep_of_everyState hkeep
      (fun s m hs _ hafter => (transparent_step_iff hs.1 hs.2 m).mp hafter) hstart
  · exact everyState_of_everyStep (fun s hs => hs.1) hkeep hstart

/-! ### Stale answers -/

/-- A filesystem without symbolic links. -/
def plainFileSystem : FileSystem where
  root := ["data", "repos"]
  real path := (Rust.split path '/').filter (· != "")

def nothingYet : CacheSite := ⟨fun _ => none, 0, fun _ => none⟩

/-- `base` is created and forked, and is then deleted by force.  The answer for the fork is
cached by the deletion itself. -/
def orphanedRun : List CacheStep :=
  createSteps "base" ++ [.wait 1000] ++ forkSteps "/data/repos" "base" "child" ++
    [.wait 1000] ++ deleteSteps ["child"] "base"

/-- A lookup comes between the two halves of the write, in the same tick. -/
def halfWrittenRun : List CacheStep :=
  createSteps "base" ++ [.wait 1000, .makeObjects "child", .createAlternates "child",
    .lookup "child", .writeAlternates "child" "/data/repos/base.git/objects\n"]

/-- What a lookup of `child` returns after a run, and what `resolve` does. -/
def answers (granularity : Nat) (run : List CacheStep) : Option String × Option String :=
  let s := run.foldl (step plainFileSystem granularity) nothingYet
  ((s.lookup plainFileSystem "child").1, s.resolved plainFileSystem "child")

theorem lookups_stale :
    answers 1 orphanedRun = (some "base", none) ∧
      answers 10 halfWrittenRun = (none, some "base") ∧
      ¬ EveryState (step plainFileSystem 1) (Transparent plainFileSystem) nothingYet
        orphanedRun ∧
      ¬ EveryState (step plainFileSystem 10) (Transparent plainFileSystem) nothingYet
        halfWrittenRun := by
  have horphaned : answers 1 orphanedRun = (some "base", none) := by decide +kernel
  have hhalf : answers 10 halfWrittenRun = (none, some "base") := by decide +kernel
  refine ⟨horphaned, hhalf, ?_, ?_⟩
  · intro h
    have hlast := everyState_iff_prefix.mp h orphanedRun (List.prefix_refl _) "child"
    exact absurd ((Prod.mk.inj horphaned).1.symm.trans (hlast.trans (Prod.mk.inj horphaned).2))
      nofun
  · intro h
    have hlast := everyState_iff_prefix.mp h halfWrittenRun (List.prefix_refl _) "child"
    exact absurd ((Prod.mk.inj hhalf).1.symm.trans (hlast.trans (Prod.mk.inj hhalf).2)) nofun

end CacheSite

end Storage
end Artifacts
