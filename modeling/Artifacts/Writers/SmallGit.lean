import Artifacts.Writers.Contract

/-!
# A small git

Its commits are in a list, the newest first, and a tree is a single file.  It runs the
commands of the writers on any history that fits into the list, and meets both contracts.

It is there to show that the contracts are not empty, and for the runs of the examples.  Merges of
trees are by a rule of its own; nothing depends on which.
-/

namespace Artifacts
namespace Writers

open GitWire Refs Rust SmartHttp
open Relation (ReflTransGen)

structure SmallCommit where
  id : Oid
  tree : Oid
  parents : List Oid
  deriving DecidableEq, Repr

structure SmallRepo where
  refs : MemRefs
  commits : List SmallCommit
  /-- The ids of the next objects. -/
  supply : List Oid

/-! ### Histories -/

def lookupCommit : List SmallCommit → Oid → Option SmallCommit
  | [], _ => none
  | c :: older, id => if c.id = id then some c else lookupCommit older id

/-- Whether the first commit is an ancestor of the second, or the second itself. -/
def reaches : List SmallCommit → Oid → Oid → Bool
  | [], x, y => x == y
  | c :: older, x, y =>
      x == y || if c.id = y then c.parents.any (reaches older x) else reaches older x y

/-- Every commit is new where it stands, and its parents are older. -/
def Grown : List SmallCommit → Prop
  | [] => True
  | c :: older =>
      c.id ≠ zeroOid ∧ lookupCommit older c.id = none ∧
        (∀ p ∈ c.parents, lookupCommit older p ≠ none) ∧ Grown older

def smallView : MergeView SmallRepo where
  ref := fun s repoId name => s.refs (repoId.text, name)
  parents := fun s id => (lookupCommit s.commits id).map SmallCommit.parents
  merge := fun s target source =>
    match lookupCommit s.commits target, lookupCommit s.commits source with
    | some t, some x =>
        if reaches s.commits target source then .clean x.tree
        else
          match s.commits.find? fun c =>
            reaches s.commits c.id target && reaches s.commits c.id source with
          | none => .refused
          | some base =>
              if t.tree = base.tree then .clean x.tree
              else if x.tree = base.tree ∨ x.tree = t.tree then .clean t.tree
              else .conflict t.tree (asBytes ("100644 " ++ t.tree.text ++ " 2\tREADME.md") ++ [0, 0])
    | _, _ => .refused
  hasTree := fun _ _ => True
  accepts := fun s author _ =>
    -- git wants a letter in the name, and an id that is not taken
    !author.name.isEmpty &&
      match s.supply with
      | [] => false
      | id :: _ => id ≠ zeroOid ∧ lookupCommit s.commits id = none

/-! ### Commands -/

namespace SmallRepo

variable (s : SmallRepo)

def refuse (code : Int) (text : String) : Result (Int × List UInt8 × List UInt8) :=
  .ok (code, [], asBytes text)

def print (bytes : List UInt8) : Result (Int × List UInt8 × List UInt8) := .ok (0, bytes, [])

def showRef (repoId : RepoId) (name : String) : Result (Int × List UInt8 × List UInt8) :=
  match s.refs (repoId.text, name) with
  | some oid => print (asBytes (oid.text ++ "\n"))
  | none => refuse 128 ("fatal: '" ++ name ++ "' - not a valid ref\n")

def isAncestor (x y : String) : Result (Int × List UInt8 × List UInt8) :=
  match argOid x, argOid y with
  | some x, some y =>
      if lookupCommit s.commits x = none ∨ lookupCommit s.commits y = none then
        refuse 128 "fatal: Not a valid commit name\n"
      else
        .ok (if reaches s.commits x y then 0 else 1, [], [])
  | _, _ => refuse 128 "fatal: Not a valid object name\n"

def revParse (spec : String) : Result (Int × List UInt8 × List UInt8) :=
  match s.commits.find? fun c => c.id.text ++ "^\x7btree\x7d" == spec with
  | some c => print (asBytes (c.tree.text ++ "\n"))
  | none => refuse 128 "fatal: ambiguous argument\n"

def mergeTree (target source : String) : Result (Int × List UInt8 × List UInt8) :=
  match argOid target, argOid source with
  | some t, some x =>
      match smallView.merge s t x with
      | .clean tree => print (asBytes tree.text ++ [0])
      | .conflict tree details => .ok (1, asBytes tree.text ++ 0 :: details, [])
      | .refused => refuse 128 "fatal: refusing to merge unrelated histories\n"
  | _, _ => refuse 128 "fatal: not something we can merge\n"

/-- Write a commit under the next id. -/
def addCommit (tree : Oid) (parents : List Oid) : Option (Oid × SmallRepo) :=
  match s.supply with
  | [] => none
  | id :: supply =>
      if id = zeroOid ∨ lookupCommit s.commits id ≠ none ∨
          ∃ p ∈ parents, lookupCommit s.commits p = none then
        none
      else
        some (id, { s with commits := ⟨id, tree, parents⟩ :: s.commits, supply := supply })

def commitTree (env : List (String × String)) (tree target source : String) :
    Result (Int × List UInt8 × List UInt8) × SmallRepo :=
  if (env.lookup "GIT_AUTHOR_NAME").getD "" = "" then
    (refuse 128 "fatal: empty ident name not allowed\n", s)
  else
    match argOid tree, argOid target, argOid source with
    | some tree, some t, some x =>
        match s.addCommit tree [t, x] with
        | some (id, s') => (print (asBytes (id.text ++ "\n")), s')
        | none => (refuse 128 "fatal: not a valid object name\n", s)
    | _, _, _ => (refuse 128 "fatal: not a valid object name\n", s)

/-- A command of the ref store. -/
def refCommand (repoId : RepoId) (args : List String) :
    Result (Int × List UInt8 × List UInt8) × SmallRepo :=
  ((plainGit s.refs repoId args).1, { s with refs := (plainGit s.refs repoId args).2 })

/-- Whether a ref may be set to this id. -/
def mayPointAt (new : String) : Prop :=
  ∀ oid ∈ argOid new, oid = zeroOid ∨ lookupCommit s.commits oid ≠ none

instance (new : String) : Decidable (s.mayPointAt new) :=
  inferInstanceAs (Decidable (∀ oid ∈ argOid new, _))

def git (env : List (String × String)) : GitRunner SmallRepo := fun s repoId args =>
  match args with
  | ["show-ref", "--verify", "--hash", name] => (s.showRef repoId name, s)
  | ["merge-base", "--is-ancestor", x, y] => (s.isAncestor x y, s)
  | ["rev-parse", spec] => (s.revParse spec, s)
  | ["merge-tree", "--write-tree", "-z", t, x] => (s.mergeTree t x, s)
  | ["commit-tree", tree, "-p", t, "-p", x, "-m", _] => s.commitTree env tree t x
  | ["update-ref", "--end-of-options", name, new, old] =>
      if s.mayPointAt new then s.refCommand repoId ["update-ref", "--end-of-options", name, new, old]
      else (refuse 128 "fatal: trying to write non-commit object\n", s)
  | _ => s.refCommand repoId args

/-- The next id. -/
def nextId : Except String Oid × SmallRepo :=
  match s.supply with
  | [] => (.error "no space left", s)
  | id :: supply => (.ok id, { s with supply := supply })

def writeObject (commit : Commit) : Except String Oid × SmallRepo :=
  match s.addCommit commit.tree commit.parents with
  | some (id, s') => (.ok id, s')
  | none => (.error "no space left", s)

def gix : (call : GixCall) → SmallRepo → call.Answer × SmallRepo
  | .openRepo, s => (.ok (), s)
  | .findCommit oid, s =>
      (if (lookupCommit s.commits oid).isSome then .ok () else .error "object not found", s)
  | .treeId oid, s =>
      (match lookupCommit s.commits oid with
        | some c => .ok c.tree
        | none => .error "object not found", s)
  | .editTree _, s => (.ok (), s)
  | .writeBlob _, s => s.nextId
  | .upsert .., s => (.ok (), s)
  | .remove .., s => (.ok (), s)
  | .writeTree _, s => s.nextId
  | .writeObject commit, s => s.writeObject commit

end SmallRepo

/-- The demo repository on a small git, where every pack is empty. -/
def smallSite : Site SmallRepo where
  printable := printableAscii
  repoId := demoRepo
  runGit := SmallRepo.git
  gix := SmallRepo.gix
  objectExists := fun s oid => .ok (lookupCommit s.commits oid).isSome
  systemTime := fun _ => some 0
  packEnv := fun _ =>
    { preferNativeIndex := false
      ingestPack := fun _ _ => .error (.other "index-pack failed")
      unpackObjects := fun _ => .error (.other "unpack-objects failed")
      revListCheckConnected := fun _ => .ok (0, "") }
  unpacked := fun s _ => s

/-! ### Ancestors -/

section Histories

variable {c : SmallCommit} {older commits : List SmallCommit} {x y : Oid}

def HasParent (commits : List SmallCommit) (x y : Oid) : Prop :=
  ∃ ps, (lookupCommit commits y).map SmallCommit.parents = some ps ∧ x ∈ ps

theorem lookupCommit_self : lookupCommit (c :: older) c.id = some c := if_pos rfl

theorem lookupCommit_of_ne (h : y ≠ c.id) : lookupCommit (c :: older) y = lookupCommit older y :=
  if_neg (Ne.symm h)

theorem hasParent_self : HasParent (c :: older) x c.id ↔ x ∈ c.parents := by
  unfold HasParent
  rw [lookupCommit_self]
  constructor
  · rintro ⟨ps, hps, hx⟩
    obtain rfl := Option.some.inj hps
    exact hx
  · exact fun hx => ⟨c.parents, rfl, hx⟩

theorem hasParent_of_ne (h : y ≠ c.id) : HasParent (c :: older) x y ↔ HasParent older x y := by
  unfold HasParent
  rw [lookupCommit_of_ne h]

/-- A commit that is there before another one is written is not that one. -/
theorem ne_of_lookup (hnew : lookupCommit older c.id = none) (h : lookupCommit older y ≠ none) :
    y ≠ c.id := by
  rintro rfl
  exact h hnew

theorem Grown.parent (hgrown : Grown commits) (h : HasParent commits x y) :
    lookupCommit commits x ≠ none := by
  induction commits with
  | nil =>
      obtain ⟨ps, hps, -⟩ := h
      cases hps
  | cons c older ih =>
      obtain ⟨-, hnew, hparents, hgrown⟩ := hgrown
      have hx : lookupCommit older x ≠ none := by
        by_cases hy : y = c.id
        · rw [hy] at h
          exact hparents x (hasParent_self.mp h)
        · exact ih hgrown ((hasParent_of_ne hy).mp h)
      rw [lookupCommit_of_ne (ne_of_lookup hnew hx)]
      exact hx

/-- What is written later changes no ancestry of what is there. -/
theorem reflTransGen_of_ne (hgrown : Grown (c :: older)) (hy : y ≠ c.id) :
    ReflTransGen (HasParent (c :: older)) x y ↔ ReflTransGen (HasParent older) x y := by
  obtain ⟨-, hnew, -, hgrown⟩ := hgrown
  constructor
  · intro h
    induction h with
    | refl => exact .refl
    | tail _ hstep ih =>
        have hstep' := (hasParent_of_ne hy).mp hstep
        exact (ih (ne_of_lookup hnew (hgrown.parent hstep'))).tail hstep'
  · refine fun h => ReflTransGen.mono (fun a b hab => ?_) _ _ h
    have hb : lookupCommit older b ≠ none := by
      obtain ⟨ps, hps, -⟩ := hab
      intro hnone
      rw [hnone] at hps
      cases hps
    exact (hasParent_of_ne (ne_of_lookup hnew hb)).mpr hab

theorem reaches_iff (hgrown : Grown commits) :
    reaches commits x y = true ↔ ReflTransGen (HasParent commits) x y := by
  induction commits generalizing y with
  | nil =>
      unfold reaches
      rw [beq_iff_eq]
      constructor
      · rintro rfl
        exact .refl
      · intro h
        cases h with
        | refl => rfl
        | tail _ hstep =>
            obtain ⟨ps, hps, -⟩ := hstep
            cases hps
  | cons c older ih =>
      have hparents := hgrown.2.2.1
      have hnew := hgrown.2.1
      have hgrown' := hgrown.2.2.2
      unfold reaches
      rw [Bool.or_eq_true, beq_iff_eq]
      by_cases hy : c.id = y
      · subst hy
        rw [if_pos rfl, List.any_eq_true, ReflTransGen.cases_tail_iff]
        -- the last step is from a parent, which is older
        refine or_congr eq_comm (exists_congr fun p => ?_)
        rw [hasParent_self, and_comm]
        refine and_congr_left fun hp => ?_
        rw [ih hgrown', reflTransGen_of_ne hgrown (ne_of_lookup hnew (hparents p hp))]
      · rw [if_neg hy, ih hgrown', ← reflTransGen_of_ne hgrown (Ne.symm hy)]
        refine or_iff_right_of_imp ?_
        rintro rfl
        exact .refl

end Histories

/-! ### The contracts -/

namespace SmallRepo

/-- Every ref is at a commit. -/
def Plain (s : SmallRepo) : Prop :=
  Grown s.commits ∧ ∀ key oid, s.refs key = some oid → lookupCommit s.commits oid ≠ none

variable {s s' : SmallRepo}

theorem parents_ne_none {oid : Oid} :
    smallView.parents s oid ≠ none ↔ lookupCommit s.commits oid ≠ none := by
  show (lookupCommit s.commits oid).map SmallCommit.parents ≠ none ↔ _
  rw [Ne, Option.map_eq_none_iff]

theorem Grown.zero {commits : List SmallCommit} (h : Grown commits) :
    lookupCommit commits zeroOid = none := by
  induction commits with
  | nil => rfl
  | cons c older ih =>
      rw [lookupCommit_of_ne (Ne.symm h.1)]
      exact ih h.2.2.2

theorem extends_refl : smallView.Extends s s := fun _ _ h => h

theorem Plain.ref_ne_zero (hs : s.Plain) (key : String × String) : s.refs key ≠ some zeroOid :=
  fun h => hs.2 key zeroOid h (Grown.zero hs.1)

/-- The commits stay, and every ref is still at one of them. -/
theorem Plain.setRefs (hs : s.Plain) {refs : MemRefs}
    (h : ∀ key oid, refs key = some oid → lookupCommit s.commits oid ≠ none) :
    Plain { s with refs := refs } ∧ smallView.Extends s { s with refs := refs } :=
  ⟨⟨hs.1, h⟩, extends_refl⟩

theorem addCommit_spec (hs : s.Plain) {tree : Oid} {parents : List Oid} {id : Oid}
    (h : s.addCommit tree parents = some (id, s')) :
    s'.Plain ∧ smallView.Extends s s' ∧ smallView.parents s' id = some parents ∧
      s'.refs = s.refs := by
  unfold addCommit at h
  cases hsupply : s.supply with
  | nil =>
      rw [hsupply] at h
      cases h
  | cons next supply =>
      rw [hsupply] at h
      dsimp only at h
      split_ifs at h with hbad
      cases h
      push Not at hbad
      obtain ⟨hzero, hnew, hparents⟩ := hbad
      have hkeep : ∀ oid, lookupCommit s.commits oid ≠ none →
          lookupCommit (⟨id, tree, parents⟩ :: s.commits) oid = lookupCommit s.commits oid :=
        fun oid hoid => lookupCommit_of_ne (ne_of_lookup hnew hoid)
      refine ⟨⟨⟨hzero, hnew, hparents, hs.1⟩, ?_⟩, ?_, ?_, rfl⟩
      · intro key oid href
        have hoid := hs.2 key oid href
        show lookupCommit (⟨id, tree, parents⟩ :: s.commits) oid ≠ none
        rw [hkeep oid hoid]
        exact hoid
      · intro oid ps hps
        have hoid : lookupCommit s.commits oid ≠ none :=
          parents_ne_none.mp (by rw [hps]; exact Option.some_ne_none ps)
        show (lookupCommit (⟨id, tree, parents⟩ :: s.commits) oid).map _ = _
        rw [hkeep oid hoid]
        exact hps
      · show (lookupCommit (⟨id, tree, parents⟩ :: s.commits) id).map _ = _
        rw [lookupCommit_self]
        rfl

/-- Where `plainGit` may move a ref to. -/
theorem plainGit_refs {refs : MemRefs} {repoId : RepoId} {args : List String}
    {key : String × String} {oid : Oid} (h : (plainGit refs repoId args).2 key = some oid) :
    refs key = some oid ∨ ∃ name new old, args = ["update-ref", "--end-of-options", name, new, old] ∧
      argOid new = some oid ∧ oid ≠ zeroOid := by
  have hset : ∀ (name : String) (v : Option Oid),
      (if key = (repoId.text, name) then v else refs key) = some oid →
        refs key = some oid ∨ v = some oid := by
    intro name v hv
    split_ifs at hv
    · exact Or.inr hv
    · exact Or.inl hv
  unfold plainGit at h
  split at h
  · split at h <;> exact Or.inl h
  · rename_i name new old
    split at h
    · rename_i new' old' hnew hold
      split_ifs at h
      · refine (hset name _ h).imp_right fun hvalue => ⟨name, new, old, rfl, ?_⟩
        unfold expectedValue at hvalue
        split_ifs at hvalue with hzero
        obtain rfl := Option.some.inj hvalue
        exact ⟨hnew, hzero⟩
      · exact Or.inl h
    · exact Or.inl h
  · rename_i name old
    split at h
    · split_ifs at h
      · exact Or.inl ((hset name none h).resolve_right nofun)
      · exact Or.inl h
    · exact Or.inl h
  · exact Or.inl h

theorem commitTree_spec (hs : s.Plain) (env : List (String × String)) (tree target source : String) :
    let result := s.commitTree env tree target source
    result.2.Plain ∧ smallView.Extends s result.2 ∧ result.2.refs = s.refs := by
  dsimp only
  unfold commitTree
  split_ifs
  · exact ⟨hs, extends_refl, rfl⟩
  · split
    · split
      · rename_i hadd
        obtain ⟨hplain, hextends, -, hrefs⟩ := addCommit_spec hs hadd
        exact ⟨hplain, hextends, hrefs⟩
      · exact ⟨hs, extends_refl, rfl⟩
    · exact ⟨hs, extends_refl, rfl⟩

theorem git_keeps (hs : s.Plain) (env : List (String × String)) (repoId : RepoId)
    (args : List String) :
    (git env s repoId args).2.Plain ∧ smallView.Extends s (git env s repoId args).2 := by
  unfold git
  split
  · exact ⟨hs, extends_refl⟩
  · exact ⟨hs, extends_refl⟩
  · exact ⟨hs, extends_refl⟩
  · exact ⟨hs, extends_refl⟩
  · obtain ⟨hplain, hextends, -⟩ := commitTree_spec hs env _ _ _
    exact ⟨hplain, hextends⟩
  · rename_i name new old
    split_ifs with hmay
    · refine hs.setRefs fun key oid hmoved => ?_
      rcases plainGit_refs hmoved with hsame | ⟨name', new', old', hargs, hnew, hzero⟩
      · exact hs.2 key oid hsame
      · obtain ⟨-, rfl, -⟩ : name = name' ∧ new = new' ∧ old = old' := by simpa using hargs
        exact (hmay oid hnew).resolve_left hzero
    · exact ⟨hs, extends_refl⟩
  · rename_i hother
    refine hs.setRefs fun key oid hmoved => ?_
    rcases plainGit_refs hmoved with hsame | ⟨name', new', old', rfl, -⟩
    · exact hs.2 key oid hsame
    · exact absurd rfl (hother _ _ _)

theorem git_revParse (s : SmallRepo) (repoId : RepoId) (args : List String) :
    (git [] s repoId ("rev-parse" :: args)).2 = s := by
  unfold git
  split
  · rfl
  · rfl
  · rfl
  · rfl
  · rename_i heq
    simp at heq
  · rename_i heq
    simp at heq
  · show { s with refs := (plainGit s.refs repoId ("rev-parse" :: args)).2 } = s
    rw [plainGit_contract.revParse]

theorem git_updateRef (s : SmallRepo) (repoId : RepoId) (name new old : String) :
    git [] s repoId ["update-ref", "--end-of-options", name, new, old] =
      if s.mayPointAt new then
        s.refCommand repoId ["update-ref", "--end-of-options", name, new, old]
      else (refuse 128 "fatal: trying to write non-commit object\n", s) := rfl

theorem git_deleteRef (s : SmallRepo) (repoId : RepoId) (name old : String) :
    git [] s repoId ["update-ref", "-d", "--end-of-options", name, old] =
      s.refCommand repoId ["update-ref", "-d", "--end-of-options", name, old] := rfl

theorem git_refs : UpdateRefContract (git []) smallView.ref Plain where
  revParse := git_revParse
  update := by
    intro s repoId name new old hs hunder hnew
    refine ⟨(git_keeps hs [] repoId _).1, ?_⟩
    rw [git_updateRef]
    split_ifs
    · exact (plainGit_contract.update s.refs repoId name new old trivial hunder hnew).2
    · exact ⟨fun _ _ _ => rfl, fun hmoved => absurd rfl hmoved⟩
  delete := by
    intro s repoId name old hs hunder hold
    refine ⟨(git_keeps hs [] repoId _).1, ?_⟩
    exact (plainGit_contract.delete s.refs repoId name old trivial hunder hold).2
  deleteZero := by
    intro s repoId name hs hunder
    refine ⟨(git_keeps hs [] repoId _).1, ?_⟩
    exact (plainGit_contract.deleteZero s.refs repoId name trivial hunder).2

theorem fsOutcome_keeps {repoId : RepoId} {name : RefName} {printable : Char → Bool}
    (hs : s.Plain) (args : List String) :
    (fsOutcome printable (git []) repoId name (git [] s repoId args)).2.Plain ∧
      smallView.Extends s (fsOutcome printable (git []) repoId name (git [] s repoId args)).2 := by
  rw [fsOutcome_state git_refs]
  exact git_keeps hs [] repoId args

theorem gix_keeps (hs : s.Plain) (call : GixCall) :
    (gix call s).2.Plain ∧ smallView.Extends s (gix call s).2 ∧ (gix call s).2.refs = s.refs := by
  have hnext : s.nextId.2.Plain ∧ smallView.Extends s s.nextId.2 ∧ s.nextId.2.refs = s.refs := by
    unfold nextId
    split
    · exact ⟨hs, extends_refl, rfl⟩
    · exact ⟨hs, extends_refl, rfl⟩
  cases call with
  | writeBlob bytes => exact hnext
  | writeTree editor => exact hnext
  | writeObject commit =>
      show (s.writeObject commit).2.Plain ∧ smallView.Extends s (s.writeObject commit).2 ∧
        (s.writeObject commit).2.refs = s.refs
      unfold writeObject
      split
      · rename_i hadd
        obtain ⟨hplain, hextends, -, hrefs⟩ := addCommit_spec hs hadd
        exact ⟨hplain, hextends, hrefs⟩
      · exact ⟨hs, extends_refl, rfl⟩
  | _ => exact ⟨hs, extends_refl, rfl⟩

theorem refUpdate_keeps (hs : s.Plain) (u : RefUpdate) :
    (smallSite.handle (.refUpdate u) s).2.Plain ∧
      smallView.Extends s (smallSite.handle (.refUpdate u) s).2 := by
  show (updateStep printableAscii (fsRefStore printableAscii (git [])) demoRepo s u).Plain ∧
    smallView.Extends s (updateStep printableAscii (fsRefStore printableAscii (git [])) demoRepo s u)
  by_cases hvalid : Valid u
  · obtain ⟨name, old, new, hname, hold, hnew⟩ := hvalid.typed
    rw [updateStep_of_valid demoRepo s hname hold hnew]
    split_ifs
    · exact fsOutcome_keeps hs _
    · exact fsOutcome_keeps hs _
    · exact fsOutcome_keeps hs _
  · obtain ⟨reason, hrefused⟩ : ∃ reason, applyRefUpdate printableAscii
        (fsRefStore printableAscii (git [])) demoRepo.text s u = (.error reason, s) :=
      applyRefUpdate_of_invalid demoRepo s hvalid
    rw [updateStep, hrefused]
    exact ⟨hs, extends_refl⟩

theorem handle_keeps (op : Op) (s : SmallRepo) (hs : s.Plain) :
    (smallSite.handle op s).2.Plain ∧ smallView.Extends s (smallSite.handle op s).2 := by
  cases op with
  | git command env => exact git_keeps hs env demoRepo command.args
  | gix call =>
      obtain ⟨hplain, hextends, -⟩ := gix_keeps hs call
      exact ⟨hplain, hextends⟩
  | casUpdate refName expected new =>
      exact fsOutcome_keeps hs ["update-ref", "--end-of-options", refName.text, new.text,
        (expected.map Oid.text).getD zeroSha]
  | refUpdate u => exact refUpdate_keeps hs u
  | _ => exact ⟨hs, extends_refl⟩

theorem handle_quiet (op : Op) (s : SmallRepo) (hquiet : Quiet op) (hs : s.Plain) :
    (smallSite.handle op s).2.refs = s.refs := by
  cases op with
  | git command env =>
      cases command with
      | commitTree tree target source message =>
          exact (commitTree_spec hs env tree target source).2.2
      | _ => rfl
  | gix call => exact (gix_keeps hs call).2.2
  | casUpdate refName expected new => exact hquiet.elim
  | refUpdate u => exact hquiet.elim
  | _ => rfl

theorem reaches_iff_ancestor (hs : s.Plain) {x y : Oid} :
    reaches s.commits x y = true ↔ smallView.Ancestor s x y :=
  reaches_iff hs.1

theorem commitTree_done (hs : s.Plain) {env : List (String × String)} {tree source : String}
    {target commit : Oid} {out err : List UInt8}
    (h : (s.commitTree env tree target.text source).1 = .ok (0, out, err))
    (hcommit : utf8Trimmed out = .ok commit.text) :
    ∃ ps, smallView.parents (s.commitTree env tree target.text source).2 commit = some ps ∧
      target ∈ ps := by
  unfold commitTree at h ⊢
  rw [argOid_text] at h ⊢
  split_ifs at h ⊢ with hname
  · cases h
  · generalize argOid tree = tree at h ⊢
    generalize argOid source = source at h ⊢
    cases tree with
    | none => cases h
    | some tree =>
        cases source with
        | none => cases h
        | some source =>
            dsimp only at h ⊢
            cases hadd : s.addCommit tree [target, source] with
            | none =>
                rw [hadd] at h
                cases h
            | some added =>
                obtain ⟨id, s'⟩ := added
                obtain ⟨-, -, hparents, -⟩ := addCommit_spec hs hadd
                rw [hadd] at h
                cases h
                rw [utf8Trimmed_line] at hcommit
                obtain rfl : id = commit := Oid.ext (Except.ok.inj hcommit)
                exact ⟨_, hparents, List.mem_cons_self⟩

theorem refCommand_update {name : RefName} {new old : Oid} {out err : List UInt8}
    (h : (git [] s demoRepo ["update-ref", "--end-of-options", name.text, new.text, old.text]).1 =
      .ok (0, out, err)) :
    s.refs (demoRepo.text, name.text) = expectedValue old ∧
      (git [] s demoRepo ["update-ref", "--end-of-options", name.text, new.text, old.text]).2.refs
        (demoRepo.text, name.text) = expectedValue new := by
  rw [git_updateRef] at h ⊢
  split_ifs at h ⊢ with hmay
  · simp only [refCommand, plainGit, argOid_text] at h ⊢
    split_ifs at h ⊢ with hexpected
    · exact ⟨hexpected, if_pos rfl⟩
    · cases h
  · cases h

theorem sound : SoundGit smallSite smallView.toRepoView Plain where
  keeps := handle_keeps
  quiet := fun op s hquiet hs name => congrFun (handle_quiet op s hquiet hs) (demoRepo.text, name)
  parents_zero := fun s hs => congrArg (Option.map SmallCommit.parents) (Grown.zero hs.1)
  objectExists_zero := by
    intro s hs h
    have hnone := Grown.zero hs.1
    have hsome : (lookupCommit s.commits zeroOid).isSome = true := Except.ok.inj h
    rw [hnone] at hsome
    cases hsome
  showRef := by
    intro s env name out err hs hdone hzero
    have hshow : s.showRef demoRepo name = .ok (0, out, err) := hdone
    unfold showRef at hshow
    cases href : s.refs (demoRepo.text, name) with
    | none =>
        rw [href] at hshow
        cases hshow
    | some oid =>
        rw [href] at hshow
        cases hshow
        rw [utf8Trimmed_line] at hzero
        obtain rfl : oid = zeroOid := Oid.ext (Except.ok.inj hzero)
        exact hs.ref_ne_zero _ href
  isAncestor := by
    intro s env x y out err hs hdone
    have hanswer : s.isAncestor x.text y.text = .ok (0, out, err) := hdone
    unfold isAncestor at hanswer
    rw [argOid_text, argOid_text] at hanswer
    dsimp only at hanswer
    -- exit code 0 is left to the branch in which the walk arrives
    split_ifs at hanswer with hmissing hreach
    · cases hanswer
    · exact (reaches_iff_ancestor hs).mp hreach
    · cases hanswer
  commitTree := fun s env tree target commit source message out err hs hdone hcommit =>
    commitTree_done hs hdone hcommit
  writeObject := by
    intro s commit id hs hdone
    have hwrite : (s.writeObject commit).1 = .ok id := hdone
    show smallView.parents (s.writeObject commit).2 id = some commit.parents
    unfold writeObject at hwrite ⊢
    cases hadd : s.addCommit commit.tree commit.parents with
    | none =>
        rw [hadd] at hwrite
        cases hwrite
    | some added =>
        rw [hadd] at hwrite
        obtain ⟨id', s'⟩ := added
        cases hwrite
        exact (addCommit_spec hs hadd).2.2.1
  refs := git_refs
  updateRef := fun s name new old out err _ _ h => refCommand_update h
  updateRef_moved := by
    intro s name new old hs hunder
    show (git [] s demoRepo ["update-ref", "--end-of-options", name.text, new.text, old.text]).2.refs
        (demoRepo.text, name.text) ≠ s.refs (demoRepo.text, name.text) →
      (git [] s demoRepo ["update-ref", "--end-of-options", name.text, new.text, old.text]).2.refs
        (demoRepo.text, name.text) = expectedValue new
    -- either way only the named ref can have moved, and then to the new value
    rw [git_updateRef]
    split_ifs with hmay
    · simp only [refCommand, plainGit, argOid_text]
      split_ifs with hexpected
      · exact fun _ => if_pos rfl
      · exact fun h => absurd rfl h
    · exact fun h => absurd rfl h
  deleteRef := by
    intro s name old out err hs hunder hold hdone
    have hdelete : (git [] s demoRepo ["update-ref", "-d", "--end-of-options", name.text,
      old.text]).1 = .ok (0, out, err) := hdone
    rw [git_deleteRef] at hdelete
    simp only [refCommand, plainGit, argOid_text, hold, false_or] at hdelete
    split_ifs at hdelete with hexpected
    · exact hexpected
    · cases hdelete

theorem exists_of_lookupCommit {commits : List SmallCommit} {oid : Oid}
    (h : lookupCommit commits oid ≠ none) : ∃ c ∈ commits, c.id = oid := by
  induction commits with
  | nil => exact absurd rfl h
  | cons c older ih =>
      by_cases hc : c.id = oid
      · exact ⟨c, List.mem_cons_self, hc⟩
      · rw [lookupCommit_of_ne (Ne.symm hc)] at h
        obtain ⟨c', hc', hid⟩ := ih h
        exact ⟨c', List.mem_cons_of_mem c hc', hid⟩

theorem lookupCommit_of_ancestor (hs : s.Plain) {x y : Oid} (hy : lookupCommit s.commits y ≠ none)
    (h : smallView.Ancestor s x y) : lookupCommit s.commits x ≠ none := by
  rcases ReflTransGen.cases_head h with rfl | ⟨z, hstep, -⟩
  · exact hy
  · exact hs.1.parent hstep

theorem author_ne {body : MergeBody} (h : (authorOr body.author).name.isEmpty = false) :
    ((commitEnv body).lookup "GIT_AUTHOR_NAME").getD "" ≠ "" := by
  show (authorOr body.author).name ≠ ""
  intro hempty
  rw [hempty] at h
  cases h

theorem commitTree_refuses {body : MergeBody} (tree target source : String)
    (h : smallView.accepts s (authorOr body.author) (mergeMessage body) = false) :
    ∃ text, (s.commitTree (commitEnv body) tree target source).1 = refuse 128 text := by
  have haccepts : ((!(authorOr body.author).name.isEmpty) && match s.supply with
      | [] => false
      | id :: _ => decide (id ≠ zeroOid ∧ lookupCommit s.commits id = none)) = false := h
  unfold commitTree
  split_ifs with hempty
  · exact ⟨_, rfl⟩
  · have hname : (authorOr body.author).name.isEmpty = false := by
      rw [← Bool.not_eq_true]
      intro hisEmpty
      exact hempty (String.isEmpty_iff.mp hisEmpty)
    rw [hname, Bool.not_false, Bool.true_and] at haccepts
    have hnone : ∀ t (parents : List Oid), s.addCommit t parents = none := by
      intro t parents
      unfold addCommit
      cases hsupply : s.supply with
      | nil => rfl
      | cons id supply =>
          rw [hsupply] at haccepts
          refine if_pos ?_
          by_contra hgood
          push Not at hgood
          exact of_decide_eq_false haccepts ⟨hgood.1, hgood.2.1⟩
    split
    · rw [hnone]
      exact ⟨_, rfl⟩
    · exact ⟨_, rfl⟩

/-- Two commits that are there and a fresh id make a merge. -/
theorem addCommit_merge {s : SmallRepo} {tree target source id : Oid} {supply : List Oid}
    (hsupply : s.supply = id :: supply) (hzero : id ≠ zeroOid)
    (hnew : lookupCommit s.commits id = none) (htarget : lookupCommit s.commits target ≠ none)
    (hsource : lookupCommit s.commits source ≠ none) :
    ∃ s', s.addCommit tree [target, source] = some (id, s') := by
  unfold addCommit
  rw [hsupply]
  refine ⟨_, if_neg ?_⟩
  rintro (h | h | ⟨p, hp, h⟩)
  · exact hzero h
  · exact h hnew
  · rcases List.mem_pair.mp hp with rfl | rfl
    · exact htarget h
    · exact hsource h

theorem commitTree_accepts (hs : s.Plain) {tree target source : Oid} {body : MergeBody}
    (htarget : lookupCommit s.commits target ≠ none)
    (hsource : lookupCommit s.commits source ≠ none)
    (haccepts : smallView.accepts s (authorOr body.author) (mergeMessage body) = true) :
    ∃ (commit : Oid) (err : List UInt8),
      (s.commitTree (commitEnv body) tree.text target.text source.text).1 =
        .ok (0, asBytes (commit.text ++ "\n"), err) ∧
      smallView.parents (s.commitTree (commitEnv body) tree.text target.text source.text).2 commit =
        some [target, source] := by
  have haccepts' : ((!(authorOr body.author).name.isEmpty) && match s.supply with
      | [] => false
      | id :: _ => decide (id ≠ zeroOid ∧ lookupCommit s.commits id = none)) = true := haccepts
  rw [Bool.and_eq_true, Bool.not_eq_true'] at haccepts'
  obtain ⟨hname, hroom⟩ := haccepts'
  cases hsupply : s.supply with
  | nil =>
      rw [hsupply] at hroom
      cases hroom
  | cons id supply =>
      rw [hsupply] at hroom
      obtain ⟨hzero, hnew⟩ := of_decide_eq_true hroom
      obtain ⟨s', hadd⟩ :=
        @addCommit_merge s tree target source id supply hsupply hzero hnew htarget hsource
      have hcommit : s.commitTree (commitEnv body) tree.text target.text source.text =
          (print (asBytes (id.text ++ "\n")), s') := by
        unfold commitTree
        rw [argOid_text, argOid_text, argOid_text, if_neg (author_ne hname)]
        dsimp only
        rw [hadd]
      rw [hcommit]
      exact ⟨id, [], rfl, (addCommit_spec hs hadd).2.2.1⟩

theorem documented : DocumentedGit smallSite smallView Plain where
  toSoundGit := sound
  tip := fun s branch oid hs href => parents_ne_none.mpr (hs.2 _ oid href)
  showRef_present := by
    intro s name oid hs href
    refine ⟨[], ?_⟩
    show s.showRef demoRepo name = _
    unfold showRef
    rw [show s.refs (demoRepo.text, name) = some oid from href]
    rfl
  showRef_missing := by
    intro s name hs href
    refine ⟨[], asBytes ("fatal: '" ++ name ++ "' - not a valid ref\n"), ?_⟩
    show s.showRef demoRepo name = _
    unfold showRef
    rw [show s.refs (demoRepo.text, name) = none from href]
    rfl
  isAncestor_iff := by
    intro s x y hs hx hy
    rw [parents_ne_none] at hx hy
    refine ⟨if reaches s.commits x y then 0 else 1, [], [], ?_, ?_⟩
    · show s.isAncestor x.text y.text = _
      unfold isAncestor
      rw [argOid_text, argOid_text]
      exact if_neg fun h => h.elim hx hy
    · rw [← reaches_iff_ancestor hs]
      split_ifs with hreach
      · exact Or.inl ⟨rfl, hreach⟩
      · exact Or.inr ⟨rfl, hreach⟩
  -- the tree is found under the text that `rev-parse` is asked for
  revParseTree := by
    intro s commit hs hcommit
    obtain ⟨c, hc, hid⟩ := exists_of_lookupCommit (parents_ne_none.mp hcommit)
    have hsome : (s.commits.find? fun c =>
        c.id.text ++ "^\x7btree\x7d" == commit.text ++ "^\x7btree\x7d").isSome = true := by
      rw [List.find?_isSome]
      exact ⟨c, hc, by rw [hid, beq_self_eq_true]⟩
    obtain ⟨found, hfound⟩ := Option.isSome_iff_exists.mp hsome
    refine ⟨found.tree, [], ?_⟩
    show s.revParse (commit.text ++ "^\x7btree\x7d") = _
    unfold revParse
    rw [hfound]
    rfl
  mergeTree := by
    intro s target source hs htarget hsource
    show match smallView.merge s target source with
      | .clean tree => (∃ err, s.mergeTree target.text source.text =
          .ok (0, asBytes tree.text ++ [0], err)) ∧ True
      | .conflict tree details => ∃ err, s.mergeTree target.text source.text =
          .ok (1, asBytes tree.text ++ 0 :: details, err)
      | .refused => ∃ rc out err, rc ≠ 0 ∧ rc ≠ 1 ∧
          s.mergeTree target.text source.text = .ok (rc, out, err)
    unfold mergeTree
    -- one case for each answer of `git merge-tree`
    rw [argOid_text, argOid_text]
    dsimp only
    cases smallView.merge s target source with
    | clean tree => exact ⟨⟨[], rfl⟩, trivial⟩
    | conflict tree details => exact ⟨[], rfl⟩
    | refused => exact ⟨128, _, _, by decide, by decide, rfl⟩
  merge_descendant := by
    intro s target source hs hsource hancestor
    rw [parents_ne_none] at hsource
    -- a descendant has all that its ancestor has, so its own tree is the merge
    have htarget := lookupCommit_of_ancestor hs hsource hancestor
    obtain ⟨t, ht⟩ := Option.ne_none_iff_exists'.mp htarget
    obtain ⟨x, hx⟩ := Option.ne_none_iff_exists'.mp hsource
    refine ⟨x.tree, ?_⟩
    simp only [smallView, ht, hx]
    exact if_pos ((reaches_iff_ancestor hs).mpr hancestor)
  reads := by
    intro s command hs hcommand
    cases command with
    | commitTree tree target source message =>
        exact absurd rfl (hcommand tree target source message)
    | _ => exact ⟨fun _ => rfl, fun _ _ => rfl, fun _ _ => rfl⟩
  commitTree_accepted := by
    intro s tree target source body hs _ htarget hsource haccepts
    rw [parents_ne_none] at htarget hsource
    exact commitTree_accepts hs htarget hsource haccepts
  commitTree_refused := by
    intro s tree target source body hs haccepts
    obtain ⟨text, hrefused⟩ := commitTree_refuses tree target source haccepts
    exact Or.inr ⟨128, [], asBytes text, by decide, hrefused⟩
  updateRef_succeeds := by
    intro s name branch new old hs hname href hnew
    rw [parents_ne_none] at hnew
    refine ⟨[], [], ?_⟩
    show (git [] s demoRepo ["update-ref", "--end-of-options", name.text, new.text, old.text]).1 = _
    -- git takes the value, as the commit is there, and the old one, as the ref has it
    have hmay : s.mayPointAt new.text := by
      intro oid hoid
      rw [argOid_text] at hoid
      obtain rfl := Option.some.inj hoid
      exact Or.inr hnew
    have hold : old ≠ zeroOid := by
      rintro rfl
      exact hs.ref_ne_zero _ href
    have hexpected : s.refs (demoRepo.text, name.text) = expectedValue old := by
      rw [expectedValue, if_neg hold]
      exact href
    rw [git_updateRef, if_pos hmay]
    simp only [refCommand, plainGit, argOid_text]
    rw [if_pos hexpected]

end SmallRepo

end Writers
end Artifacts
