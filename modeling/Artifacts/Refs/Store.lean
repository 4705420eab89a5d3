import Artifacts.Ids
import Artifacts.Rust.Bytes

/-!
# Ref stores

`RefStore σ` holds the two compare-and-swap methods of the trait of that name,
over a state `σ` of all repositories.  Two implementations follow the source:
`fsRefStore` runs `git update-ref`, `memRefStore` keeps a map.  `traced` is a
store that also remembers the names it was called for.

The two answers of a compare-and-swap are `updated` and `conflict`, with the value that is there.
What git does to the refs is not fixed here: `GitRunner` is any, and each result has a contract
of its own for it.
-/

namespace Artifacts
namespace Refs

open Rust

inductive CasOutcome where
  | updated
  | conflict (current : Option Oid)
  deriving DecidableEq, Repr

/-- The compare-and-swap methods of `RefStore`. The state is passed along, and is left behind even
if a method fails, with whatever it had done by then. -/
structure RefStore (σ : Type) where
  casUpdate : σ → RepoId → RefName → Option Oid → Oid → Result CasOutcome × σ
  casDelete : σ → RepoId → RefName → Option Oid → Result CasOutcome × σ

/-- `ZERO_SHA`. -/
def zeroSha : String := "0000000000000000000000000000000000000000"

/-! ### The filesystem store -/

/-- `git_cmd::run_git` on the bare repository of an id: exit code, stdout and
stderr, or the error of the spawn, and the repositories after it. -/
abbrev GitRunner (σ : Type) :=
  σ → RepoId → List String → Result (Int × List UInt8 × List UInt8) × σ

section Fs

variable {σ : Type} (printable : Char → Bool) (runGit : GitRunner σ)

/-- `FsRefStore::read`. The answer is that of `git rev-parse`, which looks in more places than the
name says. -/
def fsRead (s : σ) (repoId : RepoId) (refName : RefName) : Result (Option Oid) × σ :=
  match runGit s repoId ["rev-parse", "--verify", "--end-of-options", refName.text] with
  | (.error e, s) => (.error e, s)
  | (.ok (rc, stdout, _), s) =>
      if rc ≠ 0 then
        (.ok none, s)
      else
        match fromUtf8 stdout with
        -- the byte position of the decoding error is left out of the text
        | none => (.error (.other "invalid utf-8 sequence"), s)
        | some text =>
            if (trim text).isEmpty then (.ok none, s)
            else (.ok (Oid.tryFrom printable (trim text)).toOption, s)

/-- What both methods answer once `git update-ref` has run. -/
def fsOutcome (repoId : RepoId) (refName : RefName) :
    Result (Int × List UInt8 × List UInt8) × σ → Result CasOutcome × σ
  | (.error e, s) => (.error e, s)
  | (.ok (rc, _, _), s) =>
      if rc = 0 then
        (.ok .updated, s)
      else
        match fsRead printable runGit s repoId refName with
        | (.ok current, s) => (.ok (.conflict current), s)
        | (.error _, s) => (.ok (.conflict none), s)

/-- `FsRefStore::cas_update`. A ref that is expected to be missing is expected at the zero id, which
is how `update-ref` is told so. -/
def fsCasUpdate (s : σ) (repoId : RepoId) (refName : RefName) (expected : Option Oid)
    (newSha : Oid) : Result CasOutcome × σ :=
  fsOutcome printable runGit repoId refName
    (runGit s repoId ["update-ref", "--end-of-options", refName.text, newSha.text,
      (expected.map Oid.text).getD zeroSha])

/-- `FsRefStore::cas_delete`. Without an expected value the ref is deleted whatever it is at. -/
def fsCasDelete (s : σ) (repoId : RepoId) (refName : RefName) (expected : Option Oid) :
    Result CasOutcome × σ :=
  fsOutcome printable runGit repoId refName
    (match expected with
    | some exp =>
        runGit s repoId ["update-ref", "-d", "--end-of-options", refName.text, exp.text]
    | none => runGit s repoId ["update-ref", "-d", "--end-of-options", refName.text])

/-- `FsRefStore`, over any git: `runGit` answers the commands, and is where the refs are. -/
def fsRefStore : RefStore σ where
  casUpdate := fsCasUpdate printable runGit
  casDelete := fsCasDelete printable runGit

end Fs

/-! ### The in-process store -/

/-- `MemState::refs`, a map from repository and ref name to the ref's value. -/
abbrev MemRefs := String × String → Option Oid

/-- `MemRefStore::cas_update`. It compares and changes under one lock, so it is a single step here.
-/
def memCasUpdate (refs : MemRefs) (repoId : RepoId) (refName : RefName) (expected : Option Oid)
    (newSha : Oid) : Result CasOutcome × MemRefs :=
  let key := (repoId.text, refName.text)
  let current := refs key
  let expectedMatches :=
    match expected, current with
    | none, none => true
    | some e, some c => e == c
    | _, _ => false
  if !expectedMatches then (.ok (.conflict current), refs)
  else (.ok .updated, fun k => if k = key then some newSha else refs k)

/-- `MemRefStore::cas_delete`. Without an expected value the ref is deleted whatever it is at, even
if it is missing. -/
def memCasDelete (refs : MemRefs) (repoId : RepoId) (refName : RefName)
    (expected : Option Oid) : Result CasOutcome × MemRefs :=
  let key := (repoId.text, refName.text)
  let current := refs key
  let expectedMatches :=
    match expected, current with
    | none, _ => true
    | some e, some c => e == c
    | some _, none => false
  if !expectedMatches then (.ok (.conflict current), refs)
  else (.ok .updated, fun k => if k = key then none else refs k)

/-- `MemRefStore`, whose methods never fail: they update, or tell the value that was in the way. -/
def memRefStore : RefStore MemRefs where
  casUpdate := memCasUpdate
  casDelete := memCasDelete

/-! ### Stores seen from outside -/

section Abstract

variable {σ : Type}

/-- A store whose methods change at most the ref they are called for. `view` is the value of a ref
by repository and name. Whether a method changes it, and when, is left open. -/
structure ChangesOnlyNamed (store : RefStore σ) (view : σ → RepoId → String → Option Oid) :
    Prop where
  casUpdate : ∀ s repoId refName expected newSha repo name, ¬(repo = repoId ∧ name = refName.text) →
    view (store.casUpdate s repoId refName expected newSha).2 repo name = view s repo name
  casDelete : ∀ s repoId refName expected repo name, ¬(repo = repoId ∧ name = refName.text) →
    view (store.casDelete s repoId refName expected).2 repo name = view s repo name

/-- A store that logs the names its methods are called for. -/
def RefStore.traced (store : RefStore σ) : RefStore (σ × List RefName) where
  casUpdate := fun s repoId refName expected newSha =>
    let (outcome, s') := store.casUpdate s.1 repoId refName expected newSha
    (outcome, s', s.2 ++ [refName])
  casDelete := fun s repoId refName expected =>
    let (outcome, s') := store.casDelete s.1 repoId refName expected
    (outcome, s', s.2 ++ [refName])

/-- The refs of a `MemRefStore`. -/
def memView (refs : MemRefs) (repo : RepoId) (name : String) : Option Oid :=
  refs (repo.text, name)

theorem memRefStore_changesOnlyNamed : ChangesOnlyNamed memRefStore memView where
  casUpdate := by
    intro refs repoId refName expected newSha repo name hother
    have hkey : (repo.text, name) ≠ (repoId.text, refName.text) := by
      intro heq
      obtain ⟨hrepo, hname⟩ := Prod.mk.inj heq
      exact hother ⟨RepoId.ext hrepo, hname⟩
    simp only [memRefStore, memCasUpdate, memView]
    split_ifs <;> simp [hkey]
  casDelete := by
    intro refs repoId refName expected repo name hother
    have hkey : (repo.text, name) ≠ (repoId.text, refName.text) := by
      intro heq
      obtain ⟨hrepo, hname⟩ := Prod.mk.inj heq
      exact hother ⟨RepoId.ext hrepo, hname⟩
    simp only [memRefStore, memCasDelete, memView]
    split_ifs <;> simp [hkey]

end Abstract

end Refs
end Artifacts
