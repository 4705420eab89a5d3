import Artifacts.Ids
import Mathlib.Data.List.Basic

/-!
# Alternates links

A fork names its source in `objects/info/alternates`.  `resolve` turns the
content of that file into the id of the source; `listForksOf` finds the repos
whose source is a given one.  Lookups go through a cache, which is a function
here: what it answers for each repo.

`resolve` canonicalizes both paths, which are functions of a `Paths` here.  An entry of the cache is
good for the mtime it was made at; when this is right is the subject of `AlternatesCache`.
-/

namespace Artifacts
namespace Storage

open Rust

/-- `str::strip_suffix`. -/
def stripSuffix (s pat : String) : Option String :=
  if endsWith s pat then
    some (String.ofList (s.toList.take (s.toList.length - pat.toList.length)))
  else
    none

/-- The two `canonicalize` calls of `resolve`, with paths as components. A call that fails is
`none`; where symbolic links lead is up to the two functions. -/
structure Paths where
  /-- `repos_dir.canonicalize()`. -/
  canonRoot : Option (List String)
  /-- `canonicalize` of the path an alternates file names. -/
  canonicalize : String → Option (List String)

/-- `resolve`, from the content of the alternates file. -/
def resolve (paths : Paths) (alternates : Option String) : Option String :=
  match alternates with
  | none => none
  | some s =>
      let targetStr := trim s
      if targetStr.isEmpty then
        none
      else
        match paths.canonRoot, paths.canonicalize targetStr with
        | some canonRoot, some canonTarget =>
            match canonTarget.dropPrefix? canonRoot with
            | some [first, second] =>
                if second ≠ "objects" then
                  none
                else
                  match stripSuffix first ".git" with
                  | none => none
                  | some sourceId => if validRepoId sourceId then some sourceId else none
            | _ => none
        | _, _ => none

/-- `AlternatesCache::Entry`. -/
structure CacheEntry where
  mtime : Option Nat
  sourceId : Option String

/-- `AlternatesCache::lookup`, given the alternates file's mtime and what `resolve`
would answer now. -/
def cacheLookup (entries : String → Option CacheEntry) (mtime : Option Nat)
    (resolved : Option String) (repoId : String) :
    Option String × (String → Option CacheEntry) :=
  let missed := (resolved, Function.update entries repoId (some ⟨mtime, resolved⟩))
  match entries repoId with
  | some e => if e.mtime = mtime then (e.sourceId, entries) else missed
  | none => missed

/-- The repo a directory entry stands for, if its source is `repoId`. -/
def forkOf (cache : String → Option String) (repoId : String) (name : Option String) :
    Option String :=
  match name with
  | none => none
  | some nameStr =>
      match stripSuffix nameStr ".git" with
      | none => none
      | some siblingId =>
          if siblingId = repoId then none
          else if cache siblingId = some repoId then some siblingId
          else none

/-- `list_forks_of`, over the entries that `read_dir` yields. -/
def listForksOf (readDir : Except String (List (Option String))) (cache : String → Option String)
    (repoId : String) : Except String (List String) :=
  match readDir with
  | .error e => .error e
  | .ok names => .ok (names.filterMap (forkOf cache repoId))

theorem stripSuffix_eq_some {s pat t : String} : stripSuffix s pat = some t ↔ s = t ++ pat := by
  unfold stripSuffix endsWith
  constructor
  · intro h
    split_ifs at h with hsuffix
    obtain rfl := Option.some.inj h
    obtain ⟨front, hfront⟩ := List.isSuffixOf_iff_suffix.mp hsuffix
    have htake : s.toList.take (s.toList.length - pat.toList.length) = front := by
      rw [← hfront, List.length_append, Nat.add_sub_cancel, List.take_left']
      rfl
    rw [htake]
    apply String.toList_inj.mp
    rw [String.toList_append, String.toList_ofList, hfront]
  · rintro rfl
    have hsuffix : pat.toList.isSuffixOf (t ++ pat).toList = true :=
      List.isSuffixOf_iff_suffix.mpr ⟨t.toList, String.toList_append.symm⟩
    rw [if_pos hsuffix, String.toList_append, List.length_append, Nat.add_sub_cancel,
      List.take_left' rfl, String.ofList_toList]

/-- A source that `resolve` finds is a directory under the root. -/
theorem resolve_eq_some {paths : Paths} {alternates : Option String} {sourceId : String}
    (h : resolve paths alternates = some sourceId) :
    ∃ root target, paths.canonRoot = some root ∧
      paths.canonicalize target = some (root ++ [sourceId ++ ".git", "objects"]) := by
  unfold resolve at h
  split at h
  · cases h
  · rename_i s
    dsimp only at h
    split_ifs at h with hempty
    split at h
    · rename_i root target hroot htarget
      split at h
      · rename_i first second hdrop
        split_ifs at h with hsecond
        split at h
        · cases h
        · rename_i id hstrip
          split_ifs at h with hvalid
          obtain rfl := Option.some.inj h
          obtain rfl := stripSuffix_eq_some.mp hstrip
          obtain ⟨front, hfront, hbeq⟩ := List.dropPrefix?_eq_some_iff.mp hdrop
          obtain rfl := eq_of_beq hbeq
          have hobjects : second = "objects" := not_not.mp hsecond
          subst hobjects
          exact ⟨front, trim s, hroot, by rw [htarget, hfront]⟩
      · cases h
    · cases h

theorem mem_listForksOf {names : List (Option String)} {cache : String → Option String}
    {repoId : String} {forks : List String}
    (h : listForksOf (.ok names) cache repoId = .ok forks) (id : String) :
    id ∈ forks ↔ some (id ++ ".git") ∈ names ∧ id ≠ repoId ∧ cache id = some repoId := by
  cases h
  rw [List.mem_filterMap]
  constructor
  · rintro ⟨name, hname, hfork⟩
    unfold forkOf at hfork
    split at hfork
    · cases hfork
    · split at hfork
      · cases hfork
      · rename_i nameStr _ siblingId hstrip
        split_ifs at hfork with hself hsource
        obtain rfl := Option.some.inj hfork
        obtain rfl := stripSuffix_eq_some.mp hstrip
        exact ⟨hname, hself, hsource⟩
  · rintro ⟨hname, hself, hsource⟩
    refine ⟨_, hname, ?_⟩
    have hstrip : stripSuffix (id ++ ".git") ".git" = some id := stripSuffix_eq_some.mpr rfl
    simp [forkOf, hstrip, hself, hsource]

end Storage
end Artifacts
