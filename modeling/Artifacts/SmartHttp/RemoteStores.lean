import Artifacts.Refs.HeadAgrees
import Artifacts.SmartHttp.Remote

/-!
# The stores behind a remote

Both ref stores are backends of a remote.  `FsRefStore` is one if git keeps its word:
`GitOnDisk` says what its commands do to the files of a repository, and leaves to git which
changes it refuses for reasons of its own.  `MemRefStore` is one as it stands, and refuses
nothing out of turn; its map is a table here, so that it can be listed.

`WellKept` are the files as git leaves them; that they stay so is part of `GitOnDisk`.  Detached
heads and symbolic refs besides `HEAD` do not occur.
-/

namespace Artifacts
namespace SmartHttp

open Foundation GitWire Pkt Refs Rust

/-! ### Files -/

/-- The value of a ref on disk: its loose file, or else its last packed line. -/
def valueOnDisk (files : RefFiles) (name : String) : Option Oid :=
  (looseOid (files.fileAt name)).or
    ((packedWith directPeel name files.packedLines).map Prod.fst)

/-- `HEAD` of a repository whose `HEAD` is symbolic to this name. -/
def symbolicHead (target : RefName) (refs : String → Option Oid) : HeadState :=
  (refs target.text).elim (.unborn target) (.symbolic target)

/-- The refs of all repositories on disk. -/
def diskView {σ : Type} (files : σ → RepoId → RefFiles) (s : σ) : RefMap :=
  fun repoId => valueOnDisk (files s repoId)

section Fs

variable {σ : Type} (printable : Char → Bool) (runGit : GitRunner σ)
  (files : σ → RepoId → RefFiles) (target : RefName) (mayRefuse : Refusals)

/-- `FsRefStore`, over the files as they are. -/
def fsBackend : RefBackend σ where
  store := fsRefStore printable runGit
  lister s := fsRefLister printable fun repoId => (files s repoId).gitDir
  view := diskView files
  headOf := symbolicHead target
  mayRefuse := mayRefuse

theorem fsBackend_view :
    (fsBackend printable runGit files target mayRefuse).view = diskView files := rfl

/-- The files that git writes: `HEAD` symbolic to the target, no ref packed twice, and no
file that takes the name of another ref. -/
structure WellKept (files : RefFiles) (target : RefName) : Prop where
  head : ∃ repo : SymbolicHead, repo.files = files ∧ repo.target = target
  trimmed : KeptByTrim target
  strays : ∀ name, StrayAgrees files name

/-- What git does to the files: `update-ref` makes the change and exits with 0, or leaves every ref
and exits with something else. It does the latter when the old value is wrong, and may do it for a
change that `mayRefuse` names. The refs are read off the files, so the contract ties the two readers
of a repository together. -/
structure GitOnDisk (sane : σ → Prop) : Prop where
  kept : ∀ s repoId, sane s → WellKept (files s repoId) target
  revParse : ∀ s repoId args, (runGit s repoId ("rev-parse" :: args)).2 = s
  update : ∀ s repoId (name : RefName) (new old : Oid), sane s →
    startsWith name.text "refs/" = true → new ≠ zeroOid →
    ∃ rc stdout stderr s', runGit s repoId
        ["update-ref", "--end-of-options", name.text, new.text, old.text] =
        (.ok (rc, stdout, stderr), s') ∧ sane s' ∧
      Swaps mayRefuse repoId name.text (expectedValue old) (some new) (diskView files s)
        (decide (rc = 0)) (diskView files s')
  delete : ∀ s repoId (name : RefName) (old : Oid), sane s →
    startsWith name.text "refs/" = true → old ≠ zeroOid →
    ∃ rc stdout stderr s', runGit s repoId
        ["update-ref", "-d", "--end-of-options", name.text, old.text] =
        (.ok (rc, stdout, stderr), s') ∧ sane s' ∧
      Swaps mayRefuse repoId name.text (some old) none (diskView files s)
        (decide (rc = 0)) (diskView files s')

variable {printable runGit files target mayRefuse} {sane : σ → Prop}

/-- The answer of the store once git has run. -/
theorem fsOutcome_ran (hrevParse : ∀ s repoId args, (runGit s repoId ("rev-parse" :: args)).2 = s)
    (repoId : RepoId) (name : RefName) (rc : Int) (stdout stderr : List UInt8) (s : σ) :
    let result := fsOutcome printable runGit repoId name (.ok (rc, stdout, stderr), s)
    result.2 = s ∧ CasSays (decide (rc = 0)) result.1 := by
  have hread : (fsRead printable runGit s repoId name).2 = s := by
    have hparse := hrevParse s repoId ["--verify", "--end-of-options", name.text]
    unfold fsRead
    generalize runGit s repoId ["rev-parse", "--verify", "--end-of-options", name.text] = ran
      at hparse ⊢
    obtain ⟨outcome, s'⟩ := ran
    cases outcome with
    | error e => exact hparse
    | ok out =>
        obtain ⟨rc, stdout, stderr⟩ := out
        dsimp only at hparse ⊢
        split_ifs
        · exact hparse
        · split
          · exact hparse
          · split_ifs <;> exact hparse
  unfold fsOutcome
  by_cases hrc : rc = 0
  · simp only [if_pos hrc, decide_eq_true hrc, true_and]
    exact .updated
  · simp only [if_neg hrc, decide_eq_false hrc]
    generalize fsRead printable runGit s repoId name = current at hread ⊢
    obtain ⟨value, s'⟩ := current
    cases value with
    | error e => exact ⟨hread, .conflict none⟩
    | ok value => exact ⟨hread, .conflict value⟩

theorem listed_on_disk {files : RefFiles} (h : WellKept files target) {prefixes : List String}
    (hsome : prefixes ≠ []) (name : RefName) (oid : Oid) :
    (∃ e ∈ listed (enumerateRefs printable files.gitDir) prefixes, e.name = name ∧ e.oid = oid) ↔
      valueOnDisk files name.text = some oid ∧ ∃ p ∈ prefixes, p.toList <+: name.text.toList := by
  have hvalue : valueOnDisk files name.text = some oid ↔
      ∃ e ∈ enumerateRefs printable files.gitDir, e.name = name ∧ e.oid = oid :=
    value_eq_some.trans (listed_iff_present printable (h.strays name) oid).symm
  have hnone : ¬ prefixes.isEmpty = true := fun hempty => hsome (List.isEmpty_iff.mp hempty)
  have hany : ∀ e : RefEntry, (prefixes.any fun p => startsWith e.name.text p) = true ↔
      ∃ p ∈ prefixes, p.toList <+: e.name.text.toList := by
    intro e
    rw [List.any_eq_true]
    exact exists_congr fun p => and_congr_right fun _ => List.isPrefixOf_iff_prefix
  rw [hvalue, listed, if_neg hnone]
  constructor
  · rintro ⟨e, he, rfl, rfl⟩
    obtain ⟨he, hpre⟩ := List.mem_filter.mp he
    exact ⟨⟨e, he, rfl, rfl⟩, (hany e).mp hpre⟩
  · rintro ⟨⟨e, he, rfl, rfl⟩, hpre⟩
    exact ⟨e, List.mem_filter.mpr ⟨he, (hany e).mpr hpre⟩, rfl, rfl⟩

theorem listed_distinct (dir : GitDir) (prefixes : List String) :
    ((listed (enumerateRefs printable dir) prefixes).map RefEntry.key).Nodup := by
  have hdistinct := enumerateRefs_distinct printable dir
  unfold listed
  split_ifs
  · exact hdistinct
  · exact hdistinct.sublist (List.filter_sublist.map _)

theorem headState_on_disk {files : RefFiles} (h : WellKept files target) :
    headState printable files.gitDir = .ok (symbolicHead target (valueOnDisk files)) := by
  obtain ⟨repo, rfl, rfl⟩ := h.head
  rw [repo.headState_kept printable h.trimmed, lookup,
    findSome_packedOid printable repo.target directPeel repo.once]
  rfl

/-- Git is given the zero id for an absent ref. -/
theorem casUpdate_call (s : σ) (repoId : RepoId) (name : RefName) {expected : Option Oid}
    (hexpected : expected ≠ some zeroOid) (new : Oid) :
    ∃ old : Oid, expectedValue old = expected ∧
      (fsRefStore printable runGit).casUpdate s repoId name expected new =
        fsOutcome printable runGit repoId name (runGit s repoId
          ["update-ref", "--end-of-options", name.text, new.text, old.text]) := by
  cases expected with
  | none => exact ⟨zeroOid, if_pos rfl, rfl⟩
  | some old => exact ⟨old, if_neg fun h => hexpected (congrArg some h), rfl⟩

/-- **The file store** is a backend, if git keeps its word. -/
theorem fsBackend_transactional (hgit : GitOnDisk runGit files target mayRefuse sane) :
    Transactional (fsBackend printable runGit files target mayRefuse) sane where
  casUpdate := by
    intro s repoId name expected new hs hunder hexpected hnew
    obtain ⟨old, hold, hcall⟩ := @casUpdate_call σ printable runGit s repoId name expected
      hexpected new
    obtain ⟨rc, stdout, stderr, s', hran, hs', hswaps⟩ := hgit.update s repoId name new old hs
      hunder hnew
    rw [hold] at hswaps
    rw [hran] at hcall
    obtain ⟨hstate, hsays⟩ := @fsOutcome_ran σ printable runGit hgit.revParse repoId name rc stdout
      stderr s'
    rw [← hcall] at hstate hsays
    rw [← hstate] at hs' hswaps
    exact ⟨hs', _, hsays, hswaps⟩
  casDelete := by
    intro s repoId name old hs hunder hold
    obtain ⟨rc, stdout, stderr, s', hran, hs', hswaps⟩ := hgit.delete s repoId name old hs
      hunder hold
    have hcall : (fsRefStore printable runGit).casDelete s repoId name (some old) =
        fsOutcome printable runGit repoId name (.ok (rc, stdout, stderr), s') :=
      congrArg (fsOutcome printable runGit repoId name) hran
    obtain ⟨hstate, hsays⟩ := @fsOutcome_ran σ printable runGit hgit.revParse repoId name rc stdout
      stderr s'
    rw [← hcall] at hstate hsays
    rw [← hstate] at hs' hswaps
    exact ⟨hs', _, hsays, hswaps⟩
  list := by
    intro s repoId prefixes hs hsome
    exact ⟨_, rfl, listed_distinct _ _, listed_on_disk (hgit.kept s repoId hs) hsome⟩
  readHead := by
    intro s repoId hs
    dsimp only [fsBackend, fsRefLister]
    exact headState_on_disk (hgit.kept s repoId hs)

end Fs

/-! ### The in-process store, with its listing -/

structure MemEntry where
  repoId : String
  name : String
  oid : Oid
  deriving DecidableEq

def MemEntry.key (e : MemEntry) : String × String := (e.repoId, e.name)

/-- `MemState`; nothing ever writes its `heads`. -/
abbrev MemState := Table MemEntry.key

namespace MemState

/-- The map of the table. -/
def refs (st : MemState) : MemRefs := fun key => (st.find? key).map MemEntry.oid

/-- `MemRefStore::cas_update`. -/
def casUpdate (st : MemState) (repoId : RepoId) (refName : RefName) (expected : Option Oid)
    (newSha : Oid) : Result CasOutcome × MemState :=
  match (memCasUpdate st.refs repoId refName expected newSha).1 with
  | .ok .updated => (.ok .updated, st.replace ⟨repoId.text, refName.text, newSha⟩)
  | outcome => (outcome, st)

/-- `MemRefStore::cas_delete`. -/
def casDelete (st : MemState) (repoId : RepoId) (refName : RefName) (expected : Option Oid) :
    Result CasOutcome × MemState :=
  match (memCasDelete st.refs repoId refName expected).1 with
  | .ok .updated =>
      (.ok .updated, st.delete fun e => e.key == (repoId.text, refName.text))
  | outcome => (outcome, st)

/-- `MemRefStore::list`. -/
def list (printable : Char → Bool) (st : MemState) (repoId : RepoId) (prefixes : List String) :
    List RefEntry :=
  sortByName ((st.rows.filter fun e => e.repoId == repoId.text &&
      (prefixes.isEmpty || prefixes.any fun p => startsWith e.name p)).filterMap fun e =>
    (RefName.tryFrom printable e.name).toOption.map fun name => ⟨name, e.oid, none⟩)

theorem refs_replace (st : MemState) (e : MemEntry) :
    refs (st.replace e) = fun key => if key = e.key then some e.oid else st.refs key := by
  funext key
  unfold refs
  rw [Table.find?_replace]
  split_ifs <;> rfl

theorem refs_delete (st : MemState) (key : String × String) :
    refs (st.delete fun e => e.key == key) =
      fun other => if other = key then none else st.refs other := by
  funext other
  unfold refs
  rw [Table.find?_delete _ fun _ => beq_iff_eq]
  split_ifs <;> rfl

/-- The map has a value exactly if the table has the row. -/
theorem refs_eq_some {st : MemState} {repoId name : String} {oid : Oid} :
    st.refs (repoId, name) = some oid ↔ ⟨repoId, name, oid⟩ ∈ st := by
  unfold refs
  rw [Option.map_eq_some_iff]
  constructor
  · rintro ⟨e, hfind, rfl⟩
    obtain ⟨he, hkey⟩ := Table.find?_eq_some_iff.mp hfind
    obtain ⟨rfl, rfl⟩ := Prod.mk.inj hkey
    exact he
  · intro he
    exact ⟨_, Table.find?_eq_some_iff.mpr ⟨he, rfl⟩, rfl⟩

/-- The name of a row is that of its entry. -/
theorem typed_name {printable : Char → Bool} {e : MemEntry} {entry : RefEntry}
    (h : (RefName.tryFrom printable e.name).toOption.map
      (fun name => (⟨name, e.oid, none⟩ : RefEntry)) = some entry) :
    e.name = entry.name.text ∧ e.oid = entry.oid ∧ entry.peeled = none := by
  obtain ⟨typed, htyped, rfl⟩ := Option.map_eq_some_iff.mp h
  refine ⟨?_, rfl, rfl⟩
  cases hresult : RefName.tryFrom printable e.name with
  | error err => simp [hresult, Except.toOption] at htyped
  | ok other =>
      simp only [hresult, Except.toOption, Option.some.injEq] at htyped
      exact htyped ▸ RefName.tryFrom_eq_ok.mp hresult

theorem mem_list {printable : Char → Bool} {st : MemState} {repoId : RepoId}
    {prefixes : List String} (hsome : prefixes ≠ []) {entry : RefEntry} :
    entry ∈ st.list printable repoId prefixes ↔
      (st.refs (repoId.text, entry.name.text) = some entry.oid ∧
        ∃ p ∈ prefixes, p.toList <+: entry.name.text.toList) ∧ entry.peeled = none := by
  have hnone : prefixes.isEmpty = false := by
    simpa using hsome
  unfold list
  rw [mem_sortByName, List.mem_filterMap, refs_eq_some]
  constructor
  · rintro ⟨⟨repo, name, oid⟩, he, hentry⟩
    obtain ⟨hmem, hasked⟩ := List.mem_filter.mp he
    obtain ⟨hname, hoid, hpeeled⟩ := typed_name hentry
    simp only [hnone, Bool.false_or, Bool.and_eq_true, beq_iff_eq, List.any_eq_true] at hasked
    obtain ⟨hrepo, p, hp, hpre⟩ := hasked
    dsimp only at hname hoid hrepo hpre
    rw [hname, hoid, hrepo] at hmem
    rw [hname] at hpre
    exact ⟨⟨hmem, p, hp, List.isPrefixOf_iff_prefix.mp hpre⟩, hpeeled⟩
  · rintro ⟨⟨hmem, p, hp, hpre⟩, hpeeled⟩
    refine ⟨⟨repoId.text, entry.name.text, entry.oid⟩, List.mem_filter.mpr ⟨hmem, ?_⟩, ?_⟩
    · simp only [hnone, Bool.false_or, Bool.and_eq_true, beq_self_eq_true, List.any_eq_true, true_and]
      exact ⟨p, hp, List.isPrefixOf_iff_prefix.mpr hpre⟩
    · rw [RefName.tryFrom_text, ← hpeeled]
      rfl

theorem list_distinct (printable : Char → Bool) (st : MemState) (repoId : RepoId)
    (prefixes : List String) : ((st.list printable repoId prefixes).map RefEntry.key).Nodup := by
  have hrows : st.rows.Pairwise fun a b => a.key ≠ b.key := List.pairwise_map.mp st.distinct
  unfold list sortByName
  rw [((List.perm_insertionSort _ _).map RefEntry.key).nodup_iff, List.Nodup, List.pairwise_map,
    List.pairwise_filterMap]
  refine (hrows.filter _).imp_of_mem ?_
  intro a b ha hb hne entry hentry other hother heq
  -- Rows of one repository with one name are the same row.
  have hrepo : a.repoId = b.repoId := by
    have hrepo : ∀ e ∈ st.rows.filter fun e => e.repoId == repoId.text &&
        (prefixes.isEmpty || prefixes.any fun p => startsWith e.name p),
        e.repoId = repoId.text := by
      intro e he
      have hasked := (List.mem_filter.mp he).2
      rw [Bool.and_eq_true, beq_iff_eq] at hasked
      exact hasked.1
    rw [hrepo a ha, hrepo b hb]
  have hname : a.name = b.name := by
    rw [(typed_name hentry).1, (typed_name hother).1]
    exact heq
  exact hne (by rw [MemEntry.key, MemEntry.key, hrepo, hname])

end MemState

/-- `MemRefStore`; its `HEAD` is the one that `git init` makes, and it refuses nothing but a
wrong old value. -/
def memBackend (printable : Char → Bool) : RefBackend MemState where
  store := ⟨MemState.casUpdate, MemState.casDelete⟩
  lister st :=
    { list := fun repoId prefixes => .ok (st.list printable repoId prefixes)
      readHead := fun _ => .ok (.unborn ⟨"refs/heads/main", rfl⟩) }
  view st repoId name := st.refs (repoId.text, name)
  headOf _ := .unborn ⟨"refs/heads/main", rfl⟩
  mayRefuse _ _ _ _ := False

variable {printable : Char → Bool}

theorem memBackend_never (m : RefMap) (repoId : RepoId) (name : String) (value : Option Oid) :
    ¬ (memBackend printable).mayRefuse m repoId name value := id

/-- Over the in-process store the refs alone decide which updates of a push are made. -/
theorem memBackend_decides {env : PackEnv} {repoId : RepoId} {push : Push} {m m₁ m₂ : RefMap}
    {statuses₁ statuses₂ : List Bool}
    (h₁ : PushTold (memBackend printable) env repoId push m statuses₁ m₁)
    (h₂ : PushTold (memBackend printable) env repoId push m statuses₂ m₂) :
    statuses₁ = statuses₂ ∧ m₁ = m₂ := by
  unfold PushTold at h₁ h₂
  split_ifs at h₁ h₂
  · exact h₁.unique memBackend_never h₂
  · exact ⟨h₁.1.trans h₂.1.symm, h₁.2.trans h₂.2.symm⟩

theorem refs_set (st : MemState) (repoId : RepoId) (name : String) (value : Option Oid)
    {refs' : MemRefs}
    (h : refs' = fun key => if key = (repoId.text, name) then value else st.refs key) :
    (fun repo other => refs' (repo.text, other)) =
      RefMap.set (fun repo other => st.refs (repo.text, other)) repoId name value := by
  funext repo other
  have hkey : (repo.text, other) = (repoId.text, name) ↔ repo = repoId ∧ other = name := by
    rw [Prod.mk.injEq, RepoId.ext_iff]
  rw [h]
  unfold RefMap.set
  simp only [hkey]

theorem memCasUpdate_answer (refs : MemRefs) (repoId : RepoId) (name : RefName)
    (expected : Option Oid) (new : Oid) :
    (memCasUpdate refs repoId name expected new).1 =
      if refs (repoId.text, name.text) = expected then .ok .updated
      else .ok (.conflict (refs (repoId.text, name.text))) := by
  unfold memCasUpdate
  dsimp only
  cases refs (repoId.text, name.text) with
  | none => cases expected <;> simp
  | some current =>
      cases expected with
      | none => simp
      | some old =>
          by_cases heq : old = current
          · simp [heq]
          · simp [heq, Ne.symm heq]

theorem memCasDelete_answer (refs : MemRefs) (repoId : RepoId) (name : RefName) (old : Oid) :
    (memCasDelete refs repoId name (some old)).1 =
      if refs (repoId.text, name.text) = some old then .ok .updated
      else .ok (.conflict (refs (repoId.text, name.text))) := by
  unfold memCasDelete
  dsimp only
  cases refs (repoId.text, name.text) with
  | none => simp
  | some current =>
      by_cases heq : old = current
      · simp [heq]
      · simp [heq, Ne.symm heq]

/-- **The in-process store** is a backend as it stands. -/
theorem memBackend_transactional : Transactional (memBackend printable) fun _ => True where
  casUpdate := by
    intro st repoId name expected new _ _ _ _
    dsimp only [memBackend, MemState.casUpdate]
    rw [memCasUpdate_answer]
    by_cases hmatch : st.refs (repoId.text, name.text) = expected
    · simp only [if_pos hmatch]
      have hview := refs_set st repoId name.text (some new)
        (MemState.refs_replace st ⟨repoId.text, name.text, new⟩)
      refine ⟨trivial, true, .updated, ?_⟩
      dsimp only
      rw [hview]
      exact .made hmatch
    · simp only [if_neg hmatch]
      exact ⟨trivial, false, .conflict _, .refused fun h => hmatch h⟩
  casDelete := by
    intro st repoId name old _ _ _
    dsimp only [memBackend, MemState.casDelete]
    rw [memCasDelete_answer]
    by_cases hmatch : st.refs (repoId.text, name.text) = some old
    · simp only [if_pos hmatch]
      have hview := refs_set st repoId name.text none
        (MemState.refs_delete st (repoId.text, name.text))
      refine ⟨trivial, true, .updated, ?_⟩
      dsimp only
      rw [hview]
      exact .made hmatch
    · simp only [if_neg hmatch]
      exact ⟨trivial, false, .conflict _, .refused fun h => hmatch h⟩
  list := by
    intro st repoId prefixes _ hsome
    refine ⟨_, rfl, MemState.list_distinct printable st repoId prefixes, fun name oid => ?_⟩
    constructor
    · rintro ⟨e, he, rfl, rfl⟩
      exact ((MemState.mem_list hsome).mp he).1
    · intro hlisted
      exact ⟨⟨name, oid, none⟩, (MemState.mem_list hsome).mpr ⟨hlisted, rfl⟩, rfl, rfl⟩
  readHead := by
    intro st repoId _
    rfl

end SmartHttp
end Artifacts
