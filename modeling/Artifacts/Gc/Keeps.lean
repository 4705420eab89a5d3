import Artifacts.Gc.Concurrent

/-!
# What a collection among writers keeps

A collection never deletes an object that the collected repo, or a repo that
reads from it, reaches when it ends, as long as its network is right and no old
object moves behind the scan.  The age guard does not cover a move: three runs at
the end of this file delete a reachable object, one by moving a ref, one by
writing an old object again after it was listed, one by a stale cache entry.

The argument is that of a scan in general (`Foundation`): an object that is needed at the end,
and was not found, must have come to be needed behind the scan or must have left before it.
`GainsLate` and `LosesEarly` are the two.  Nothing is said of what the collection deletes too
little of.
-/

namespace Artifacts
namespace Gc

open Foundation Relation Storage

variable {c : Collection} {links : Oid → List Oid} {paths : Disk → Paths}

/-! ### What is deleted -/

/-- The objects deleted so far. -/
def State.deleted (s : State) : List Oid :=
  match s.phase with
  | .deleting _ _ _ deleted => deleted
  | _ => []

/-- The objects the collection listed. -/
def State.listed (s : State) : List LooseInfo :=
  match s.phase with
  | .scanning seen _ => seen.loose
  | .deleting seen _ _ _ => seen.loose
  | _ => []

/-- Only listed objects that are old and were not found are deleted. -/
def DeletesOld (cutoff : Int64) (s : State) : Prop :=
  match s.phase with
  | .deleting seen todo _ deleted =>
      (∀ info ∈ todo, info ∈ seen.loose) ∧
        ∀ o ∈ deleted, o.text ∉ seen.reachable ∧
          ∃ info ∈ seen.loose, info.oid = o ∧ info.createdSecs ≤ cutoff
  | _ => True

theorem step_deletesOld {s : State} (h : DeletesOld c.cutoff s) (a : Action) :
    DeletesOld c.cutoff (step c s a) := by
  obtain ⟨disk, phase⟩ := s
  cases a with
  | gc =>
      rw [step]
      cases phase with
      | idle =>
          simp only [gcStep]
          cases networkOf c.host disk (c.cache disk) c.id.text <;> trivial
      | networkKnown network =>
          obtain ⟨loose, hlist⟩ := listLoose_ok disk c.id
          simp only [gcStep, hlist]
          trivial
      | scanning seen todo =>
          cases todo with
          | nil => exact ⟨fun _ hinfo => hinfo, fun _ ho => absurd ho List.not_mem_nil⟩
          | cons member todo =>
              simp only [gcStep]
              cases revListObjects c.host.texts member (c.host.revList disk member) <;> trivial
      | deleting seen todo counts deleted =>
          cases todo with
          | nil => exact h
          | cons info todo =>
              obtain ⟨htodo, hdeleted⟩ := h
              refine ⟨fun other hother => htodo other (List.mem_cons_of_mem info hother), ?_⟩
              intro o ho
              split_ifs at ho with hdoomed
              · rcases List.mem_cons.mp ho with rfl | ho
                · simp only [doomed, Bool.and_eq_true, Bool.not_eq_true', decide_eq_true_eq]
                    at hdoomed
                  refine ⟨?_, info, htodo info List.mem_cons_self, rfl, hdoomed.1.2⟩
                  simpa using hdoomed.1.1
                · exact hdeleted o ho
              · exact hdeleted o ho
      | failed => trivial
  | writeObject repo info => exact h
  | updateRef repo name oid => exact h
  | deleteRef repo name => exact h
  | forkDir source fork => exact h
  | forkRefs source fork => exact h

/-- A repo whose chain leads to the seed is in the network of the seed. -/
theorem network_of_dependsOn {disk : Disk} {id target : String}
    (h : DependsOn paths disk id target) : Network (paths disk) disk target id := by
  have hback : ReflTransGen (Function.swap fun a b => sourceOf (paths disk) disk a = some b)
      target id := ReflTransGen.swap _ _ h
  exact ReflTransGen.mono (fun a b hab => Or.inr hab) _ _ hback

/-- The state in which the run has begun, with its network computed. -/
def start (c : Collection) (disk : Disk) : State := step c ⟨disk, .idle⟩ .gc

/-- In this step a repo that is not to be read any more comes to need the object. -/
def GainsLate (c : Collection) (links : Oid → List Oid) (paths : Disk → Paths) (o : Oid)
    (s : State) (a : Action) : Prop :=
  Scan.LateGain (Needs links paths c.id.text o) (s.scan o) ((step c s a).scan o)

/-- In this step a member that is still to be read ceases to reach the object. -/
def LosesEarly (c : Collection) (links : Oid → List Oid) (o : Oid) (s : State) (a : Action) :
    Prop :=
  Scan.EarlyLoss (fun disk id => Reaches links disk id o) (s.scan o) ((step c s a).scan o)

theorem run_deletesOld (c : Collection) {s : State} (h : DeletesOld c.cutoff s)
    (actions : List Action) : DeletesOld c.cutoff (actions.foldl (step c) s) := by
  induction actions generalizing s with
  | nil => exact h
  | cons a actions ih => exact ih (step_deletesOld h a)

theorem run_covered (hgit : RevListContract c.host links) {o : Oid} {s : State}
    {actions : List Action} (hs : s.Begun)
    (h : Scan.Covered (Needs links paths c.id.text o) (s.scan o))
    (hrun : EveryStep (step c) (fun s a => ¬ GainsLate c links paths o s a) s actions) :
    Scan.Covered (Needs links paths c.id.text o) ((actions.foldl (step c) s).scan o) := by
  have hkeep : ∀ s a, (s.Begun ∧ Scan.Covered (Needs links paths c.id.text o) (s.scan o)) →
      ¬ GainsLate c links paths o s a →
      (step c s a).Begun ∧ Scan.Covered (Needs links paths c.id.text o) ((step c s a).scan o) := by
    rintro s a ⟨hbegun, hcovered⟩ hgain
    obtain ⟨hbegun', hstep⟩ := step_scan hgit o hbegun a
    exact ⟨hbegun', hcovered.step hstep (fun _ _ hneeds => hneeds.2) hgain⟩
  have hstates := everyState_of_everyStep (fun _ hI => hI.2) hkeep ⟨hs, h⟩ hrun
  exact everyState_iff_prefix.mp hstates actions (List.prefix_refl actions)

theorem run_pending (hgit : RevListContract c.host links) {o : Oid} {s : State}
    {actions : List Action} (hs : s.Begun)
    (h : Scan.Pending (fun disk id => Reaches links disk id o) (s.scan o))
    (hrun : EveryStep (step c) (fun s a => ¬ LosesEarly c links o s a) s actions) :
    Scan.Pending (fun disk id => Reaches links disk id o)
      ((actions.foldl (step c) s).scan o) := by
  have hkeep : ∀ s a, (s.Begun ∧ Scan.Pending (fun disk id => Reaches links disk id o) (s.scan o)) →
      ¬ LosesEarly c links o s a → (step c s a).Begun ∧
        Scan.Pending (fun disk id => Reaches links disk id o) ((step c s a).scan o) := by
    rintro s a ⟨hbegun, hpending⟩ hloss
    obtain ⟨hbegun', hstep⟩ := step_scan hgit o hbegun a
    exact ⟨hbegun', hpending.step hstep hloss⟩
  have hstates := everyState_of_everyStep (fun _ hI => hI.2) hkeep ⟨hs, h⟩ hrun
  exact everyState_iff_prefix.mp hstates actions (List.prefix_refl actions)

/-! ### Tips -/

theorem mem_tips_modify {disk : Disk} {id id' : String} {change : RepoDir → RepoDir} {o : Oid}
    (h : o ∈ tipsOf (disk.modify id change) id') :
    o ∈ tipsOf disk id' ∨ ∃ dir, disk.repo id = some dir ∧ o ∈ (change dir).tips := by
  obtain ⟨new, hnew, ho⟩ := h
  by_cases heq : id' = id
  · subst heq
    have hself : (disk.modify id' change).repo id' = (disk.repo id').map change :=
      Function.update_self ..
    rw [hself] at hnew
    obtain ⟨dir, hdir, rfl⟩ := Option.map_eq_some_iff.mp hnew
    exact Or.inr ⟨dir, hdir, ho⟩
  · have hother : (disk.modify id change).repo id' = disk.repo id' := Function.update_of_ne heq ..
    rw [hother] at hnew
    exact Or.inl ⟨new, hnew, ho⟩

theorem mem_tips_deleteRef {dir : RepoDir} {name : String} {o : Oid}
    (h : o ∈ (dir.deleteRef name).tips) : o ∈ dir.tips := by
  obtain ⟨ref, href, rfl⟩ := List.mem_map.mp h
  exact List.mem_map_of_mem (List.mem_filter.mp href).1

theorem mem_tips_updateRef {dir : RepoDir} {name : String} {oid o : Oid}
    (h : o ∈ (dir.updateRef name oid).tips) : o = oid ∨ o ∈ dir.tips := by
  rcases List.mem_cons.mp h with heq | hrest
  · exact Or.inl heq
  · exact Or.inr (mem_tips_deleteRef hrest)

/-- A ref update adds the object it names, and nothing else. -/
theorem mem_tips_push {disk : Disk} {repo id name : String} {oid o : Oid}
    (h : o ∈ tipsOf (disk.modify repo fun dir => dir.updateRef name oid) id) :
    o = oid ∨ ∃ id', o ∈ tipsOf disk id' := by
  rcases mem_tips_modify h with hold | ⟨dir, hdir, ho⟩
  · exact Or.inr ⟨id, hold⟩
  · rcases mem_tips_updateRef ho with heq | hold
    · exact Or.inl heq
    · exact Or.inr ⟨repo, dir, hdir, hold⟩

/-- The collection itself moves no ref. -/
theorem mem_tips_gcStep {s : State} {id : String} {o : Oid}
    (h : o ∈ tipsOf (gcStep c s).disk id) : ∃ id', o ∈ tipsOf s.disk id' := by
  obtain ⟨disk, phase⟩ := s
  cases phase with
  | idle =>
      simp only [gcStep] at h
      cases hnetwork : networkOf c.host disk (c.cache disk) c.id.text <;>
        exact ⟨id, by simpa [hnetwork] using h⟩
  | networkKnown network =>
      obtain ⟨loose, hlist⟩ := listLoose_ok disk c.id
      exact ⟨id, by simpa [gcStep, hlist] using h⟩
  | scanning seen todo =>
      cases todo with
      | nil => exact ⟨id, h⟩
      | cons member todo =>
          simp only [gcStep] at h
          cases hread : revListObjects c.host.texts member (c.host.revList disk member) <;>
            exact ⟨id, by simpa [hread] using h⟩
  | deleting seen todo counts deleted =>
      cases todo with
      | nil => exact ⟨id, h⟩
      | cons info todo =>
          have hsweep := sweepOne_disk c.id seen.reachable c.cutoff (disk, counts) info
          simp only [gcStep] at h
          rw [hsweep] at h
          split_ifs at h with hdoomed
          · rcases mem_tips_modify h with hold | ⟨dir, hdir, ho⟩
            · exact ⟨id, hold⟩
            · exact ⟨c.id.text, dir, hdir, ho⟩
          · exact ⟨id, h⟩
  | failed => exact ⟨id, h⟩

/-- **Only a push makes a new object reachable**: a fork copies refs, and the
other steps add none. -/
theorem mem_tips_step {s : State} {a : Action} {id : String} {o : Oid}
    (h : o ∈ tipsOf (step c s a).disk id) :
    (∃ repo name, a = .updateRef repo name o) ∨ ∃ id', o ∈ tipsOf s.disk id' := by
  cases a with
  | gc => exact Or.inr (mem_tips_gcStep h)
  | writeObject repo info =>
      rcases mem_tips_modify h with hold | ⟨dir, hdir, ho⟩
      · exact Or.inr ⟨id, hold⟩
      · exact Or.inr ⟨repo, dir, hdir, ho⟩
  | updateRef repo name oid =>
      rcases mem_tips_push h with heq | hold
      · exact Or.inl ⟨repo, name, by rw [heq]⟩
      · exact Or.inr hold
  | deleteRef repo name =>
      rcases mem_tips_modify h with hold | ⟨dir, hdir, ho⟩
      · exact Or.inr ⟨id, hold⟩
      · exact Or.inr ⟨repo, dir, hdir, mem_tips_deleteRef ho⟩
  | forkDir source fork =>
      right
      obtain ⟨dir, hdir, ho⟩ := h
      simp only [step, Disk.addFork] at hdir
      split_ifs at hdir with hnew
      · dsimp only at hdir
        by_cases heq : id = fork
        · -- the new directory has no refs yet
          subst heq
          rw [Function.update_self, Option.some.injEq] at hdir
          subst hdir
          cases ho
        · rw [Function.update_of_ne heq] at hdir
          exact ⟨id, dir, hdir, ho⟩
      · exact ⟨id, dir, hdir, ho⟩
  | forkRefs source fork =>
      right
      simp only [step, Disk.copyRefs] at h
      split at h
      · exact ⟨id, h⟩
      · rename_i src hsrc
        rcases mem_tips_modify h with hold | ⟨dir, hdir, ho⟩
        · exact ⟨id, hold⟩
        · exact ⟨source, src, hsrc, ho⟩

theorem mem_tips_run {s : State} {actions : List Action} {id : String} {o : Oid}
    (h : o ∈ tipsOf (actions.foldl (step c) s).disk id) :
    (∃ repo name, .updateRef repo name o ∈ actions) ∨ ∃ id', o ∈ tipsOf s.disk id' := by
  induction actions generalizing s with
  | nil => exact Or.inr ⟨id, h⟩
  | cons a actions ih =>
      rcases ih h with ⟨repo, name, hmem⟩ | ⟨id', hold⟩
      · exact Or.inl ⟨repo, name, List.mem_cons_of_mem a hmem⟩
      · rcases mem_tips_step hold with ⟨repo, name, rfl⟩ | hstart
        · exact Or.inl ⟨repo, name, List.mem_cons_self⟩
        · exact Or.inr hstart

/-! ### The collection among writers -/

/-- **A collection among writers deletes nothing that is needed**, provided the network is computed
right and no object that is listed as old moves behind its back: from out of reach, or from a member
still to be read, to a repo that is not to be read any more. The writers are any list of actions
between the steps of the collection: objects written, refs moved, repos forked and deleted. Neither
proviso can go, as the runs at the end show. -/
theorem gc_concurrent_keeps (c : Collection) (links : Oid → List Oid) (paths : Disk → Paths)
    (disk : Disk) (hreadDir : c.host.readDir disk = .ok disk.names)
    (hpaths : PathsExist (paths disk) disk)
    (hcache : CacheFresh (paths disk) disk (c.cache disk))
    (hgit : RevListContract c.host links) (actions : List Action)
    (hrace : ∀ info ∈ (actions.foldl (step c) (start c disk)).listed,
      info.createdSecs ≤ c.cutoff →
        EveryStep (step c) (fun s a => ¬ GainsLate c links paths info.oid s a)
          (start c disk) actions ∨
        ((∃ member, Network (paths disk) disk c.id.text member ∧
            Reaches links disk member info.oid) ∧
          EveryStep (step c) (fun s a => ¬ LosesEarly c links info.oid s a)
            (start c disk) actions)) :
    ∀ o ∈ (actions.foldl (step c) (start c disk)).deleted, ∀ repo,
      ¬ Needs links paths c.id.text o (actions.foldl (step c) (start c disk)).disk repo := by
  obtain ⟨network, hnetwork, hmember⟩ := networkOf_spec hreadDir hpaths hcache c.id.text
  have hstart : start c disk = ⟨disk, .networkKnown network⟩ := by
    simp only [start, step, gcStep, hnetwork]
  have hbegun : (start c disk).Begun := by
    rw [hstart]
    exact Phase.noConfusion
  have hold : DeletesOld c.cutoff (actions.foldl (step c) (start c disk)) :=
    run_deletesOld c (by rw [hstart]; trivial) actions
  -- an object with no race is found if anything needs it at the end
  have hfound : ∀ info ∈ (actions.foldl (step c) (start c disk)).listed,
      info.createdSecs ≤ c.cutoff →
      ((actions.foldl (step c) (start c disk)).scan info.oid).todo = [] →
      ∀ repo, Needs links paths c.id.text info.oid
        ((actions.foldl (step c) (start c disk)).scan info.oid).world repo →
      ((actions.foldl (step c) (start c disk)).scan info.oid).found := by
    intro info hinfo hage hend repo hneeds
    rcases hrace info hinfo hage with hgain | ⟨⟨member, hnet, hreach⟩, hloss⟩
    · have hinit : Scan.Covered (Needs links paths c.id.text info.oid)
          ((start c disk).scan info.oid) := by
        rw [hstart]
        intro p hp hneeds
        exact absurd ((hmember p).mpr (network_of_dependsOn hneeds.1)) hp
      exact (run_covered hgit hbegun hinit hgain).found hend hneeds
    · have hinit : Scan.Pending (fun d id => Reaches links d id info.oid)
          ((start c disk).scan info.oid) := by
        rw [hstart]
        exact Or.inr ⟨member, (hmember member).mpr hnet, hreach⟩
      exact (run_pending hgit hbegun hinit hloss).found hend
  clear hrace
  generalize actions.foldl (step c) (start c disk) = final at hold hfound ⊢
  obtain ⟨finalDisk, phase⟩ := final
  intro o ho repo hneeds
  cases phase with
  | deleting seen todo counts deleted =>
      obtain ⟨hunreached, info, hinfo, rfl, hage⟩ := hold.2 o ho
      exact hunreached (hfound info hinfo hage rfl repo hneeds)
  | idle => cases ho
  | networkKnown network => cases ho
  | scanning seen todo => cases ho
  | failed => cases ho

/-! ### Runs on small disks -/

/-- The age guard as an assumption on the pushes: what no ref reached when the
run began, and a push makes reachable, that push has written after the cutoff. -/
def PushesFresh (c : Collection) (links : Oid → List Oid) (begun : Disk) :
    List (String × LooseInfo) → State → List Action → Prop
  | _, _, [] => True
  | written, s, a :: actions =>
      (∀ repo name oid, a = .updateRef repo name oid → ∀ o,
        (∀ id, ¬ Reaches links begun id o) → ¬ Reaches links s.disk repo o →
        Reaches links (step c s a).disk repo o →
        ∃ info, (repo, info) ∈ written ∧ info.oid = o ∧ c.cutoff < info.createdSecs) ∧
      PushesFresh c links begun
        (match a with
          | .writeObject repo info => (repo, info) :: written
          | _ => written)
        (step c s a) actions

/-- A host on which git lists what the refs name. -/
def tipsHost : Host where
  readDir disk := .ok disk.names
  revList disk id :=
    let tips := ((disk.repo id).map RepoDir.tips).getD []
    .ok ⟨true, printListing (tips.map fun o => ⟨o, none⟩), ""⟩
  texts := ⟨fun _ => "invalid utf-8 sequence"⟩

/-- A collection of the repo `lone`, with its cutoff at second 999000. -/
def loneCollection (cache : Disk → String → Option String) : Collection where
  host := tipsHost
  cache := cache
  id := loneId
  cutoff := 999000
  reposDir := "/srv"

/-- Objects that refer to nothing: a repo reaches what its refs name. -/
theorem reaches_iff_mem_tips {disk : Disk} {id : String} {o : Oid} :
    Reaches (fun _ => []) disk id o ↔ o ∈ tipsOf disk id := by
  constructor
  · intro h
    obtain ⟨tip, htip, hpath⟩ := h
    cases hpath with
    | refl => exact htip
    | tail _ hlast => cases hlast
  · exact ReachFrom.root

theorem tipsHost_contract : RevListContract tipsHost fun _ => [] := by
  intro disk id out hout _
  cases hout
  refine ⟨_, "", rfl, ?_, fun o => ?_⟩
  · intro entry hentry path hpath
    obtain ⟨o, -, rfl⟩ := List.mem_map.mp hentry
    cases hpath
  · rw [reaches_iff_mem_tips, tipsOf]
    cases hrepo : disk.repo id with
    | none => simp
    | some dir => simp

theorem lonePaths_exist (disk : Disk) : PathsExist lonePaths disk := by
  intro root target name _ htarget
  cases htarget

/-- Without a push of its own an object with no ref stays without one, so no repo
comes to need it. -/
theorem everyStep_not_gainsLate {o : Oid} {s : State} {actions : List Action}
    (hs : ∀ id, o ∉ tipsOf s.disk id)
    (hactions : ∀ repo name, Action.updateRef repo name o ∉ actions) :
    EveryStep (step c) (fun s a => ¬ GainsLate c (fun _ => []) paths o s a) s actions := by
  induction actions generalizing s with
  | nil => trivial
  | cons a actions ih =>
      have hnext : ∀ id, o ∉ tipsOf (step c s a).disk id := by
        intro id hmem
        rcases mem_tips_step hmem with ⟨repo, name, rfl⟩ | ⟨id', hold⟩
        · exact hactions repo name List.mem_cons_self
        · exact hs id' hold
      refine ⟨?_, ih hnext fun repo name hmem => hactions repo name (List.mem_cons_of_mem a hmem)⟩
      rintro ⟨repo, -, -, hneeds⟩
      rw [State.scan_world] at hneeds
      exact hnext repo (reaches_iff_mem_tips.mp hneeds.2)

def mainRef : String := "refs/heads/main"

def freshId : Oid := ⟨"eeeeeeeeeeeeeeeeeeeeeeeeeeeeeeeeeeeeeeee", rfl⟩

/-- A push of another object while `loneInfo` is collected. -/
def otherPush : List Action :=
  [.gc, .writeObject "lone" ⟨freshId, 20, 1000100⟩, .gc, .updateRef "lone" mainRef freshId, .gc,
    .gc]

theorem loneDisk_tips (id : String) (o : Oid) : o ∉ tipsOf loneDisk id := fun h =>
  loneDisk_reach (fun _ => []) id o (ReachFrom.root h)

/-- The object is deleted, and `lone` does not miss it. -/
theorem gc_concurrent_keeps_push :
    ¬ Needs (fun _ => []) (fun _ => lonePaths) "lone" loneInfo.oid
      (otherPush.foldl (step (loneCollection fun _ _ => none))
        (start (loneCollection fun _ _ => none) loneDisk)).disk "lone" := by
  refine gc_concurrent_keeps (loneCollection fun _ _ => none) (fun _ => []) (fun _ => lonePaths)
    loneDisk rfl (lonePaths_exist loneDisk) loneDisk_fresh tipsHost_contract otherPush ?_
    loneInfo.oid List.mem_cons_self "lone"
  intro info hinfo _
  obtain rfl := List.mem_singleton.mp hinfo
  refine Or.inl (everyStep_not_gainsLate (fun id => loneDisk_tips id _) fun repo name hmem => ?_)
  simp only [otherPush, List.mem_cons, Action.updateRef.injEq, reduceCtorEq, List.not_mem_nil,
    false_or, or_false] at hmem
  exact absurd hmem.2.2 (by decide)

/-- A run within the assumptions on the pushes, with a faithful git, that deletes
an object some repo needs when the run ends. -/
def LosesObject (c : Collection) (paths : Disk → Paths) (disk : Disk) (actions : List Action) :
    Prop :=
  c.host.readDir disk = .ok disk.names ∧ PathsExist (paths disk) disk ∧
    RevListContract c.host (fun _ => []) ∧
    PushesFresh c (fun _ => []) disk [] (start c disk) actions ∧
    ∃ o ∈ (actions.foldl (step c) (start c disk)).deleted, ∃ repo,
      Needs (fun _ => []) paths c.id.text o (actions.foldl (step c) (start c disk)).disk repo

/-- The repo of `loneDisk`, with `main` at its one object. -/
def pointedDisk : Disk := loneDisk.modify "lone" fun dir => dir.updateRef mainRef loneInfo.oid

/-- The object's only ref is deleted before the scan and pushed again behind it. -/
def movedRef : List Action :=
  [.gc, .deleteRef "lone" mainRef, .gc, .gc, .updateRef "lone" mainRef loneInfo.oid, .gc]

/-- The object is listed as old, then written again and pushed behind the scan. -/
def rewritten : List Action :=
  [.gc, .gc, .writeObject "lone" ⟨loneInfo.oid, 10, 1000100⟩,
    .updateRef "lone" mainRef loneInfo.oid, .gc, .gc]

theorem pointedDisk_fresh : CacheFresh lonePaths pointedDisk fun _ => none := by
  intro id
  have hnone : pointedDisk.alternates id = none := by
    unfold Disk.alternates pointedDisk Disk.modify
    dsimp only
    by_cases hid : id = "lone"
    · subst hid
      rfl
    · rw [Function.update_of_ne hid]
      exact loneDisk_alternates id
  rw [sourceOf, hnone]
  rfl

theorem movedRef_loses :
    LosesObject (loneCollection fun _ _ => none) (fun _ => lonePaths) pointedDisk movedRef := by
  refine ⟨rfl, lonePaths_exist _, tipsHost_contract, ?_, loneInfo.oid, List.mem_cons_self, "lone",
    ReflTransGen.refl, reaches_iff_mem_tips.mpr ⟨_, rfl, List.mem_cons_self⟩⟩
  refine ⟨nofun, nofun, nofun, nofun, ?_, nofun, trivial⟩
  intro repo name oid haction o hbegun _ hafter
  cases haction
  -- the pushed object had a ref when the run began
  rcases mem_tips_step (reaches_iff_mem_tips.mp hafter) with ⟨repo, name, heq⟩ | ⟨id, hold⟩
  · cases heq
    exact absurd (reaches_iff_mem_tips.mpr ⟨_, rfl, List.mem_cons_self⟩) (hbegun "lone")
  · have hrun : o ∈ tipsOf ([Action.gc, .gc, .deleteRef "lone" mainRef, .gc, .gc].foldl
        (step (loneCollection fun _ _ => none)) ⟨pointedDisk, .idle⟩).disk id := hold
    rcases mem_tips_run hrun with ⟨repo, name, hmem⟩ | ⟨id', hbegin⟩
    · simp at hmem
    · exact absurd (reaches_iff_mem_tips.mpr hbegin) (hbegun id')

theorem rewritten_loses :
    LosesObject (loneCollection fun _ _ => none) (fun _ => lonePaths) loneDisk rewritten := by
  refine ⟨rfl, lonePaths_exist _, tipsHost_contract, ?_, loneInfo.oid, List.mem_cons_self, "lone",
    ReflTransGen.refl, reaches_iff_mem_tips.mpr ⟨_, rfl, List.mem_cons_self⟩⟩
  refine ⟨nofun, nofun, nofun, ?_, nofun, nofun, trivial⟩
  intro repo name oid haction o _ _ hafter
  cases haction
  rcases mem_tips_step (reaches_iff_mem_tips.mp hafter) with ⟨repo, name, heq⟩ | ⟨id, hold⟩
  · cases heq
    exact ⟨⟨loneInfo.oid, 10, 1000100⟩, List.mem_cons_self, rfl, by decide⟩
  · have hrun : o ∈ tipsOf ([Action.gc, .gc, .gc,
        .writeObject "lone" ⟨loneInfo.oid, 10, 1000100⟩].foldl
        (step (loneCollection fun _ _ => none)) ⟨loneDisk, .idle⟩).disk id := hold
    rcases mem_tips_run hrun with ⟨repo, name, hmem⟩ | ⟨id', hbegin⟩
    · simp at hmem
    · exact absurd hbegin (loneDisk_tips id' o)

/-- `copy` is a fork of `lone` with `main` at the object that only `lone` holds. -/
def copiedDir : RepoDir where
  alternates := some "/srv/lone.git/objects\n"
  refs := [(mainRef, loneInfo.oid)]
  loose := []
  packed := []
  distinct := List.nodup_nil

def copiedDisk : Disk where
  names := [some "lone.git", some "copy.git"]
  repo id := if id = "copy" then some copiedDir else loneDisk.repo id
  listed := by
    intro id h
    split_ifs at h with hid
    · rw [hid]
      exact List.mem_cons_of_mem _ List.mem_cons_self
    · exact List.mem_cons.mpr (Or.inl (List.mem_singleton.mp (loneDisk.listed id h)))

/-- The same directory while `lone` was deleted. -/
def orphanedDisk : Disk where
  names := [some "copy.git"]
  repo id := if id = "copy" then some copiedDir else none
  listed := by
    intro id h
    split_ifs at h with hid
    · rw [hid]
      exact List.mem_cons_self
    · cases h

/-- `canonicalize` finds the objects of `lone` while the repo is there. -/
def copiedPaths (disk : Disk) : Paths where
  canonRoot := some ["srv"]
  canonicalize target :=
    if target = "/srv/lone.git/objects" ∧ some "lone.git" ∈ disk.names then
      some ["srv", "lone.git", "objects"]
    else
      none

/-- The entries after `copy` was looked up while `lone` was deleted; alternates
files are written once, so the mtime stays. -/
def staleEntries : String → Option CacheEntry :=
  (cacheLookup (fun _ => none) (some 5) (sourceOf (copiedPaths orphanedDisk) orphanedDisk "copy")
    "copy").2

def staleCache (disk : Disk) (id : String) : Option String :=
  (cacheLookup staleEntries (if id = "copy" then some 5 else none)
    (sourceOf (copiedPaths disk) disk id) id).1

/-- With no writer at all: the network misses the fork. -/
theorem stale_loses :
    LosesObject (loneCollection staleCache) copiedPaths copiedDisk [.gc, .gc, .gc, .gc] := by
  refine ⟨rfl, ?_, tipsHost_contract, ⟨nofun, nofun, nofun, nofun, trivial⟩, loneInfo.oid,
    List.mem_cons_self, "copy", ReflTransGen.single rfl,
    reaches_iff_mem_tips.mpr ⟨_, rfl, List.mem_cons_self⟩⟩
  intro root target name hroot htarget
  cases hroot
  simp only [copiedPaths] at htarget
  split_ifs at htarget with hfound
  cases htarget
  exact hfound.2

/-- The age guard does not cover a moved ref, an old object written again, or a
network that a stale entry cuts short. -/
theorem gc_concurrent_loses :
    (CacheFresh lonePaths pointedDisk (fun _ => none) ∧
      LosesObject (loneCollection fun _ _ => none) (fun _ => lonePaths) pointedDisk movedRef) ∧
    (CacheFresh lonePaths loneDisk (fun _ => none) ∧
      LosesObject (loneCollection fun _ _ => none) (fun _ => lonePaths) loneDisk rewritten) ∧
    LosesObject (loneCollection staleCache) copiedPaths copiedDisk [.gc, .gc, .gc, .gc] :=
  ⟨⟨pointedDisk_fresh, movedRef_loses⟩, ⟨loneDisk_fresh, rewritten_loses⟩, stale_loses⟩

end Gc
end Artifacts
