import Artifacts.Rest.Reuse
import Artifacts.Rest.SameId

/-!
# Any order of calls on one id

What one step of a call can do is said once, in `Acted`.  From it follows what every
run keeps whose steps are orderly: a maker finds the path still free when it makes the
directory, its directory is still the one on disk when it records its owner and mints,
and a deleter takes away a row only while no other maker owns it.

* `Making` is what a maker knows between two of its steps, `Kept` the invariant of all.
* `Orderly` is about the one step that comes next and what it finds.
* Besides the calls the source of a fork may go away at any moment (`Site`).

The runs at the end are not orderly: two calls make one directory, a deletion takes the row of
another call, and a fork loses its source halfway.
-/

namespace Artifacts
namespace Rest

open Auth Events Foundation Ownership Storage Tokens

variable {κ : Type} (lib : Library) (cfg : Config) (id : RepoId) (jobs : κ → Job)

/-- The call is not under way. -/
def Place.idle : Place → Bool
  | .start | .returned _ | .deleted _ => true
  | _ => false

/-- The row of the id names the subject that made the call. -/
def OwnedBy (repos : Repos) (job : Job) : Prop :=
  ∃ row principal, repos.find? id.text = some row ∧ job.call.caller = .ok principal ∧
    row.ownerSubject = principal.subject

/-- What the calls promise together: one success for each directory, and when nothing is under way a
row exactly for a directory, in the name of the call that made it. A deletion takes the directory
away, and the next success may be of another call. -/
structure Settled (c : Calls κ (Site κ) Place) : Prop where
  once : c.shared.successes.length ≤ 1
  rows : (∀ k, (c.place k).idle = true) →
    (c.shared.d.disk.isRepo id.text = true ↔
      (c.shared.d.repos.find? id.text).isSome = true) ∧
    (c.shared.d.disk.isRepo id.text = true →
      ∃ k, c.shared.maker = some k ∧ OwnedBy id c.shared.d.repos (jobs k))

/-- A call that is about to change something finds what it found before: the path still free and the
source of a fork still there, its directory still there, nobody's row to lose. It is a condition on
the state and on whose step comes next; what the step then does is not asked. -/
def Orderly [DecidableEq κ] (c : Calls κ (Site κ) Place) :
    Move κ (String → Option String) Deployment → Prop
  | .env _ => True
  | .call k _ =>
      match c.place k with
      | .checked _ sourceId =>
          c.shared.d.disk.pathExists id.text = false ∧ sourceThere c.shared.d.disk sourceId = true
      | .made _ | .recorded _ => c.shared.maker = some k
      | .removed =>
          match c.shared.maker with
          | none => True
          | some j =>
              -- a maker that has yet to record puts a row of its own there
              match c.place j with
              | .made _ => True
              | _ => False
      | _ => True

instance [DecidableEq κ] (c : Calls κ (Site κ) Place)
    (m : Move κ (String → Option String) Deployment) : Decidable (Orderly id c m) := by
  cases m with
  | env e => exact inferInstanceAs (Decidable True)
  | call k cache =>
      unfold Orderly
      dsimp only
      split
      · infer_instance
      · infer_instance
      · infer_instance
      · split
        · infer_instance
        · split
          · infer_instance
          · infer_instance
      · infer_instance

/-! ### What a step can do -/

/-- A caller that passed the quota check has a subject that can be recorded. -/
def Entitled (job : Job) (principal : Principal) : Prop :=
  job.call.caller = .ok principal ∧ ∃ owner, typedSubject principal = .ok owner

/-- What one step of a call does to the site and to its place. -/
inductive Acted (k : κ) (s : Site κ) : Place → Site κ → Place → Prop
  | stays (p : Place) : Acted k s p s p
  | refused (e : Error) : Acted k s .start s (.returned (.error e))
  | checks (principal : Principal) (sourceId : Option RepoId)
      (h : Entitled (jobs k) principal) : Acted k s .start s (.checked principal sourceId)
  | makes (principal : Principal) (sourceId : Option RepoId) :
      Acted k s (.checked principal sourceId)
        { s with
          d := { s.d with disk := (makeOnDisk cfg id s.d.disk sourceId).1 }
          maker := if s.d.disk.pathExists id.text then s.maker else some k }
        (.made principal)
  | unmade (principal : Principal) (sourceId : Option RepoId) (e : Error)
      (h : sourceThere s.d.disk sourceId = false) :
      Acted k s (.checked principal sourceId)
        { s with
          d := { s.d with disk := (makeOnDisk cfg id s.d.disk sourceId).1 }
          maker := if s.d.disk.pathExists id.text then s.maker else some k }
        (.returned (.error e))
  | nameless (principal : Principal) (e : Error) (h : typedSubject principal = .error e) :
      Acted k s (.made principal) s (.returned (.error e))
  | records (principal : Principal) (owner : Option Subject)
      (h : typedSubject principal = .ok owner) :
      Acted k s (.made principal)
        { s with d := { s.d with repos := s.d.repos.recordOwner s.d.now id owner } }
        (.recorded owner)
  | unminted (owner : Option Subject) (e : Error) :
      Acted k s (.recorded owner) s (.returned (.error e))
  | mints (owner : Option Subject) (tokens : TokenStore) (outbox : List Webhooks.Delivery)
      (handle : RepoHandle) :
      Acted k s (.recorded owner)
        { s with
          d := { s.d with tokens := tokens, outbox := outbox }
          successes := k :: s.successes }
        (.returned (.ok handle))
  | forbidden (e : Error) : Acted k s .start s (.deleted (.error e))
  | allows : Acted k s .start s .allowed
  | forked (e : Error) : Acted k s .allowed s (.deleted (.error e))
  | finds : Acted k s .allowed s .unforked
  | missing (e : Error) : Acted k s .unforked s (.deleted (.error e))
  | removes (h : s.d.disk.isRepo id.text = true) :
      Acted k s .unforked
        ⟨{ s.d with disk := s.d.disk.removeDir id.text }, none, []⟩ .removed
  | forgets : Acted k s .removed { s with d := { s.d with repos := s.d.repos.remove id } }
      (.deleted (.ok [id.text]))

section Steps
variable {lib cfg id jobs}

theorem entitled_of_quota {d : Deployment} {limit : Nat} {principal : Principal}
    (h : checkRepoQuota d.repos principal limit = .ok ()) :
    ∃ owner, typedSubject principal = .ok owner := by
  cases principal with
  | admin => exact ⟨none, rfl⟩
  | user s =>
      obtain ⟨subject, hsubject, -⟩ := Result.bind_eq_ok.mp h
      exact ⟨some subject, Result.bind_eq_ok.mpr ⟨subject, hsubject, rfl⟩⟩

theorem createChecks_eq_ok {d : Deployment} {call : Call} {principal : Principal}
    (h : createChecks cfg d call = .ok principal) :
    call.caller = .ok principal ∧ checkRepoQuota d.repos principal cfg.maxReposPerUser = .ok () := by
  obtain ⟨caller, hcaller, h⟩ := Result.bind_eq_ok.mp h
  obtain ⟨_, -, h⟩ := Result.bind_eq_ok.mp h
  obtain ⟨_, hquota, h⟩ := Result.bind_eq_ok.mp h
  cases h
  exact ⟨hcaller, hquota⟩

theorem makerChecks_entitled {d : Deployment} {job : Job} {maker : Maker}
    {principal : Principal} {sourceId : Option RepoId}
    (h : makerChecks cfg id d job.call maker = .ok (principal, sourceId)) :
    Entitled job principal := by
  cases maker with
  | create =>
      obtain ⟨caller, hchecks, h⟩ := Result.bind_eq_ok.mp h
      split_ifs at h
      cases h
      obtain ⟨hcaller, hquota⟩ := createChecks_eq_ok hchecks
      exact ⟨hcaller, entitled_of_quota hquota⟩
  | fork source readOnly =>
      obtain ⟨⟨caller, typed⟩, hchecks, h⟩ := Result.bind_eq_ok.mp h
      obtain ⟨_, -, h⟩ := Result.bind_eq_ok.mp h
      cases h
      obtain ⟨_, hcaller, hchecks⟩ := Result.bind_eq_ok.mp hchecks
      obtain ⟨_, -, hchecks⟩ := Result.bind_eq_ok.mp hchecks
      obtain ⟨_, -, hchecks⟩ := Result.bind_eq_ok.mp hchecks
      obtain ⟨_, hquota, hchecks⟩ := Result.bind_eq_ok.mp hchecks
      cases hchecks
      exact ⟨hcaller, entitled_of_quota hquota⟩

theorem acted_maker (k : κ) (maker : Maker) (s : Site κ) (p : Place) :
    Acted cfg id jobs k s p (makerAct lib cfg id jobs k maker s p).1
      (makerAct lib cfg id jobs k maker s p).2 := by
  cases p with
  | start =>
      unfold makerAct
      dsimp only
      cases hchecks : makerChecks cfg id s.d (jobs k).call maker with
      | error e => exact .refused e
      | ok found => exact .checks found.1 found.2 (makerChecks_entitled hchecks)
  | checked principal sourceId =>
      unfold makerAct
      dsimp only
      cases hmade : (makeOnDisk cfg id s.d.disk sourceId).2 with
      | error e =>
          refine .unmade principal sourceId e (Bool.eq_false_iff.mpr fun hthere => ?_)
          rw [(makeOnDisk_ok_iff cfg id s.d.disk sourceId).mpr hthere] at hmade
          cases hmade
      | ok _ => exact .makes principal sourceId
  | made principal =>
      unfold makerAct
      dsimp only
      cases howner : typedSubject principal with
      | error e => exact .nameless principal e howner
      | ok owner => exact .records principal owner howner
  | recorded owner =>
      unfold makerAct mintFirst
      dsimp only
      rcases s.d.tokens.mint lib s.d.now (jobs k).call.randomToken id maker.scope none owner
        with ⟨tokens, minted⟩
      cases minted with
      | error e => exact .unminted owner e
      | ok token => exact .mints owner tokens _ _
  | returned reply => exact .stays _
  | allowed => exact .stays _
  | unforked => exact .stays _
  | removed => exact .stays _
  | deleted reply => exact .stays _

theorem acted_deleter (k : κ) (force : Option Bool) (cache : String → Option String)
    (s : Site κ) (p : Place) :
    Acted cfg id jobs k s p (deleterAct id jobs k force cache s p).1
      (deleterAct id jobs k force cache s p).2 := by
  cases p with
  | start =>
      unfold deleterAct
      dsimp only
      cases ownerChecks id s.d (jobs k).call with
      | error e => exact .forbidden e
      | ok _ => exact .allows
  | allowed =>
      unfold deleterAct
      dsimp only
      cases forkCheck id s.d cache force with
      | error e => exact .forked e
      | ok _ => exact .finds
  | unforked =>
      unfold deleterAct FsStorage.delete
      dsimp only
      by_cases hrepo : s.d.disk.isRepo id.text = true
      · rw [if_pos hrepo]
        exact .removes hrepo
      · rw [if_neg hrepo]
        exact .missing _
  | removed => exact .forgets
  | checked principal sourceId => exact .stays _
  | made principal => exact .stays _
  | recorded owner => exact .stays _
  | returned reply => exact .stays _
  | deleted reply => exact .stays _

/-- **The inversion lemma.** -/
theorem acted (lib : Library) (k : κ) (cache : String → Option String) (s : Site κ) (p : Place) :
    Acted cfg id jobs k s p (act lib cfg id jobs k cache s p).1
      (act lib cfg id jobs k cache s p).2 := by
  cases hop : (jobs k).op with
  | make maker =>
      rw [act_maker hop]
      exact acted_maker k maker s p
  | delete force =>
      rw [act_deleter hop]
      exact acted_deleter k force cache s p

/-! ### The invariant -/

/-- What a call knows from its own checks. -/
def Informed (jobs : κ → Job) (k : κ) : Place → Prop
  | .checked principal _ | .made principal => Entitled (jobs k) principal
  | .recorded owner =>
      ∃ principal, (jobs k).call.caller = .ok principal ∧ typedSubject principal = .ok owner
  | _ => True

/-- How far the maker of the directory on disk is: before its row, or behind it. -/
def Making (id : RepoId) (job : Job) (repos : Repos) : Place → Prop
  | .made _ => True
  | .recorded _ | .returned _ => OwnedBy id repos job
  | _ => False

/-- The directory is there if and only if a call made it since the last removal; a row
without a directory is about to be deleted; only the maker of the directory succeeded. -/
structure Kept (id : RepoId) (jobs : κ → Job) (c : Calls κ (Site κ) Place) : Prop where
  path : c.shared.d.disk.pathExists id.text = c.shared.maker.isSome
  repo : c.shared.d.disk.isRepo id.text = c.shared.maker.isSome
  making : ∀ k, c.shared.maker = some k → Making id (jobs k) c.shared.d.repos (c.place k)
  orphan : c.shared.maker = none → (c.shared.d.repos.find? id.text).isSome = true →
    ∃ k, c.place k = .removed
  succeeded : ∀ j ∈ c.shared.successes,
    c.shared.maker = some j ∧ ∃ handle, c.place j = .returned (.ok handle)
  once : c.shared.successes.length ≤ 1

/-- A maker that is through has its row. -/
theorem Making.ownedBy {job : Job} {repos : Repos} {p : Place} (h : Making id job repos p)
    (hidle : p.idle = true) : OwnedBy id repos job := by
  cases p with
  | returned reply => exact h
  | start => exact h.elim
  | checked principal sourceId => cases hidle
  | made principal => cases hidle
  | recorded owner => cases hidle
  | allowed => cases hidle
  | unforked => cases hidle
  | removed => cases hidle
  | deleted reply => exact h.elim

/-- A subject in the form in which it is recorded. -/
theorem typedSubject_eq_ok {principal : Principal} {owner : Option Subject}
    (h : typedSubject principal = .ok owner) : owner.map Subject.text = principal.subject := by
  cases principal with
  | admin =>
      cases h
      rfl
  | user s =>
      obtain ⟨subject, hsubject, h⟩ := Result.bind_eq_ok.mp h
      cases h
      rw [Subject.tryFrom_eq_ok.mp hsubject]
      rfl

theorem ownedBy_recordOwner {repos : Repos} {job : Job} {now : Int64} {principal : Principal}
    {owner : Option Subject} (hcaller : job.call.caller = .ok principal)
    (howner : typedSubject principal = .ok owner) :
    OwnedBy id (repos.recordOwner now id owner) job :=
  ⟨⟨id.text, owner.map Subject.text, now⟩, principal,
    Table.find?_replace_self repos ⟨id.text, owner.map Subject.text, now⟩, hcaller,
    typedSubject_eq_ok howner⟩

@[simp] theorem pathExists_makeOnDisk (disk : Disk) (sourceId : Option RepoId) :
    (makeOnDisk cfg id disk sourceId).1.pathExists id.text = true := by
  cases sourceId with
  | none => simp [makeOnDisk]
  | some source =>
      unfold makeOnDisk
      dsimp only
      split_ifs <;> simp

theorem isRepo_makeOnDisk {disk : Disk} (hfree : disk.pathExists id.text = false)
    (sourceId : Option RepoId) : (makeOnDisk cfg id disk sourceId).1.isRepo id.text = true := by
  have hmade : (disk.ensureDir id.text).isRepo id.text = true := by
    rw [Disk.isRepo_ensureDir hfree, decide_eq_true rfl, Bool.true_or]
  cases sourceId with
  | none => exact hmade
  | some source =>
      unfold makeOnDisk
      dsimp only
      split_ifs
      · rw [Disk.isRepo_copyRefs, Disk.isRepo_writeAlternates]
        exact hmade
      · rw [Disk.isRepo_writeAlternates]
        exact hmade

theorem Informed.acted {k : κ} {s s' : Site κ} {p p' : Place} (h : Informed jobs k p)
    (hacted : Acted cfg id jobs k s p s' p') : Informed jobs k p' := by
  cases hacted with
  | stays => exact h
  | checks principal sourceId hentitled => exact hentitled
  | makes principal sourceId => exact h
  | records principal owner howner => exact ⟨principal, h.1, howner⟩
  | refused | unmade | nameless | unminted | mints | forbidden | allows | forked | finds | missing
  | removes | forgets => trivial

section Step
variable {c c' : Calls κ (Site κ) Place} {k : κ}

/-- A step that changes no more than the place of a call that neither made the directory
nor is deleting the row. -/
theorem Kept.quiet (h : Kept id jobs c) (hother : ∀ j, j ≠ k → c'.place j = c.place j)
    (hshared : c'.shared = c.shared) (hremoved : c.place k ≠ .removed)
    (hreturned : ∀ handle, c.place k ≠ .returned (.ok handle))
    (hmaking : ∀ repos, Making id (jobs k) repos (c.place k) →
      Making id (jobs k) repos (c'.place k)) : Kept id jobs c' where
  path := hshared ▸ h.path
  repo := hshared ▸ h.repo
  making j hj := by
    rw [hshared] at hj ⊢
    by_cases hjk : j = k
    · subst hjk
      exact hmaking _ (h.making j hj)
    · rw [hother j hjk]
      exact h.making j hj
  orphan hnone hrow := by
    rw [hshared] at hnone hrow
    obtain ⟨j, hj⟩ := h.orphan hnone hrow
    have hjk : j ≠ k := by
      intro heq
      exact hremoved (heq ▸ hj)
    exact ⟨j, (hother j hjk).trans hj⟩
  succeeded j hj := by
    rw [hshared] at hj ⊢
    obtain ⟨hmaker, handle, hplace⟩ := h.succeeded j hj
    have hjk : j ≠ k := by
      intro heq
      exact hreturned handle (heq ▸ hplace)
    exact ⟨hmaker, handle, (hother j hjk).trans hplace⟩
  once := hshared ▸ h.once

/-- No call succeeded yet, if the maker has not. -/
theorem Kept.successes_nil (h : Kept id jobs c)
    (hmaker : ∀ j, c.shared.maker = some j → ∀ handle, c.place j ≠ .returned (.ok handle)) :
    c.shared.successes = [] := by
  rw [List.eq_nil_iff_forall_not_mem]
  intro j hj
  obtain ⟨hj, handle, hplace⟩ := h.succeeded j hj
  exact hmaker j hj handle hplace

/-- The directory is made at a free path. -/
theorem Kept.makes (h : Kept id jobs c) {principal : Principal} {sourceId : Option RepoId}
    (hplace : c'.place k = .made principal)
    (hfree : c.shared.d.disk.pathExists id.text = false)
    (hshared : c'.shared =
      { c.shared with
        d := { c.shared.d with disk := (makeOnDisk cfg id c.shared.d.disk sourceId).1 }
        maker := some k }) : Kept id jobs c' := by
  have hnone : c.shared.maker = none := by
    rw [← Option.not_isSome_iff_eq_none, ← h.path, hfree]
    exact Bool.false_ne_true
  have hnil : c.shared.successes = [] := by
    refine h.successes_nil fun j hj => ?_
    rw [hnone] at hj
    cases hj
  constructor
  · rw [hshared]
    exact pathExists_makeOnDisk _ _
  · rw [hshared]
    exact isRepo_makeOnDisk hfree _
  · intro j hj
    rw [hshared] at hj
    cases hj
    rw [hplace]
    trivial
  · intro hj
    rw [hshared] at hj
    cases hj
  · intro j hj
    rw [hshared] at hj
    change j ∈ c.shared.successes at hj
    rw [hnil] at hj
    cases hj
  · rw [hshared]
    exact h.once

/-- The maker of the directory records its owner. -/
theorem Kept.records (h : Kept id jobs c) {principal : Principal} {owner : Option Subject} (hbefore : c.place k = .made principal)
    (hplace : c'.place k = .recorded owner) (hmaker : c.shared.maker = some k)
    (hcaller : (jobs k).call.caller = .ok principal) (howner : typedSubject principal = .ok owner)
    (hshared : c'.shared =
      { c.shared with
        d := { c.shared.d with
          repos := c.shared.d.repos.recordOwner c.shared.d.now id owner } }) :
    Kept id jobs c' := by
  constructor
  · rw [hshared]
    exact h.path
  · rw [hshared]
    exact h.repo
  · intro j hj
    rw [hshared] at hj ⊢
    have hjk : j = k := Option.some.inj (hj.symm.trans hmaker)
    subst hjk
    rw [hplace]
    exact ownedBy_recordOwner hcaller howner
  · intro hnone
    rw [hshared] at hnone
    exact absurd (hmaker.symm.trans hnone) (nomatch ·)
  · intro j hj
    rw [hshared] at hj ⊢
    obtain ⟨hj, handle, hreturned⟩ := h.succeeded j hj
    have hjk : j = k := Option.some.inj (hj.symm.trans hmaker)
    rw [hjk, hbefore] at hreturned
    cases hreturned
  · rw [hshared]
    exact h.once

/-- The maker of the directory mints its token. -/
theorem Kept.mints (h : Kept id jobs c) {owner : Option Subject}
    (hbefore : c.place k = .recorded owner) {handle : RepoHandle}
    (hplace : c'.place k = .returned (.ok handle)) (hmaker : c.shared.maker = some k)
    {tokens : TokenStore} {outbox : List Webhooks.Delivery}
    (hshared : c'.shared =
      { c.shared with
        d := { c.shared.d with tokens := tokens, outbox := outbox }
        successes := k :: c.shared.successes }) : Kept id jobs c' := by
  have hnil : c.shared.successes = [] := by
    refine h.successes_nil fun j hj handle hreturned => ?_
    have hjk : j = k := Option.some.inj (hj.symm.trans hmaker)
    rw [hjk, hbefore] at hreturned
    cases hreturned
  constructor
  · rw [hshared]
    exact h.path
  · rw [hshared]
    exact h.repo
  · intro j hj
    rw [hshared] at hj ⊢
    have hjk : j = k := Option.some.inj (hj.symm.trans hmaker)
    subst hjk
    have hmaking := h.making j hmaker
    rw [hbefore] at hmaking
    rw [hplace]
    exact hmaking
  · intro hnone
    rw [hshared] at hnone
    exact absurd (hmaker.symm.trans hnone) (nomatch ·)
  · intro j hj
    rw [hshared] at hj ⊢
    change j ∈ k :: c.shared.successes at hj
    rw [hnil, List.mem_singleton] at hj
    subst hj
    exact ⟨hmaker, handle, hplace⟩
  · rw [hshared]
    change (k :: c.shared.successes).length ≤ 1
    rw [hnil]
    exact Nat.le_refl 1

/-- The directory is removed. -/
theorem Kept.removes (hplace : c'.place k = .removed)
    (hshared : c'.shared =
      ⟨{ c.shared.d with disk := c.shared.d.disk.removeDir id.text }, none, []⟩) :
    Kept id jobs c' := by
  constructor
  · rw [hshared]
    simp
  · rw [hshared]
    simp
  · intro j hj
    rw [hshared] at hj
    cases hj
  · intro _ _
    exact ⟨k, hplace⟩
  · intro j hj
    rw [hshared] at hj
    cases hj
  · rw [hshared]
    exact Nat.zero_le 1

/-- A row is deleted while there is no directory, or its maker has yet to record. -/
theorem Kept.forgets (h : Kept id jobs c) (hother : ∀ j, j ≠ k → c'.place j = c.place j)
    (hbefore : c.place k = .removed)
    (horderly : ∀ j, c.shared.maker = some j → ∃ principal, c.place j = .made principal)
    (hshared : c'.shared =
      { c.shared with d := { c.shared.d with repos := c.shared.d.repos.remove id } }) :
    Kept id jobs c' := by
  have hnil : c.shared.successes = [] := by
    refine h.successes_nil fun j hj handle hreturned => ?_
    obtain ⟨principal, hmade⟩ := horderly j hj
    rw [hmade] at hreturned
    cases hreturned
  constructor
  · rw [hshared]
    exact h.path
  · rw [hshared]
    exact h.repo
  · intro j hj
    rw [hshared] at hj
    obtain ⟨principal, hmade⟩ := horderly j hj
    have hjk : j ≠ k := by
      intro heq
      rw [heq, hbefore] at hmade
      cases hmade
    rw [hother j hjk, hmade]
    trivial
  · intro _ hrow
    rw [hshared] at hrow
    change ((c.shared.d.repos.remove id).find? id.text).isSome = true at hrow
    unfold Repos.remove at hrow
    rw [Table.find?_delete_self] at hrow
    cases hrow
  · intro j hj
    rw [hshared] at hj
    change j ∈ c.shared.successes at hj
    rw [hnil] at hj
    cases hj
  · rw [hshared]
    exact h.once

/-- What the environment does, it does elsewhere. -/
theorem Kept.elsewhere (h : Kept id jobs c) (d' : Deployment) :
    Kept id jobs ⟨Rest.elsewhere id d' c.shared, c.place⟩ := by
  unfold Rest.elsewhere
  split_ifs with hsame
  · obtain ⟨hpath, hrepo, hrow⟩ := hsame
    constructor
    · exact hpath.trans h.path
    · exact hrepo.trans h.repo
    · intro j hj
      have hmaking := h.making j hj
      change Making id (jobs j) d'.repos (c.place j)
      unfold Making OwnedBy at hmaking ⊢
      rw [hrow]
      exact hmaking
    · intro hnone hsome
      refine h.orphan hnone ?_
      rw [← hrow]
      exact hsome
    · exact h.succeeded
    · exact h.once
  · exact h

end Step

/-- **The step lemma.** -/
theorem Kept.step [DecidableEq κ] {c : Calls κ (Site κ) Place} (h : Kept id jobs c)
    (hinformed : ∀ k, Informed jobs k (c.place k))
    {m : Move κ (String → Option String) Deployment} (horderly : Orderly id c m) :
    Kept id jobs (Rest.step lib cfg id jobs c m) := by
  cases m with
  | env d' => exact h.elsewhere d'
  | call k cache =>
      have hother : ∀ j, j ≠ k →
          (Rest.step lib cfg id jobs c (.call k cache)).place j = c.place j :=
        fun j hj => Calls.move_call_place_of_ne cache hj
      have hself : (Rest.step lib cfg id jobs c (.call k cache)).place k =
          (act lib cfg id jobs k cache c.shared (c.place k)).2 :=
        Calls.move_call_place_self k cache
      have hshared : (Rest.step lib cfg id jobs c (.call k cache)).shared =
          (act lib cfg id jobs k cache c.shared (c.place k)).1 := rfl
      have hacted : Acted cfg id jobs k c.shared (c.place k) _ _ :=
        acted lib k cache c.shared (c.place k)
      have hknown := hinformed k
      unfold Orderly at horderly
      dsimp only at horderly
      rw [← hself, ← hshared] at hacted
      generalize Rest.step lib cfg id jobs c (.call k cache) = c' at hother hself hshared hacted ⊢
      clear hself hshared
      generalize hp : c.place k = p at hacted hknown horderly
      generalize hp' : c'.place k = p' at hacted
      generalize hs' : c'.shared = s' at hacted
      have hquiet (hshared : c'.shared = c.shared) (hremoved : p ≠ .removed)
          (hreturned : ∀ handle, p ≠ .returned (.ok handle))
          (hmaking : ∀ repos, Making id (jobs k) repos p → Making id (jobs k) repos p') :
          Kept id jobs c' := by
        refine h.quiet hother hshared ?_ ?_ ?_
        · rwa [hp]
        · rwa [hp]
        · rwa [hp, hp']
      cases hacted with
      | stays =>
          -- not even the place changes
          have hsame : c' = c := by
            cases c
            cases c'
            cases hs'
            congr 1
            funext j
            by_cases hjk : j = k
            · subst hjk
              exact hp'.trans hp.symm
            · exact hother j hjk
          rw [hsame]
          exact h
      | makes principal sourceId =>
          have hfree : c.shared.d.disk.pathExists id.text = false := horderly.1
          rw [hfree] at hs'
          exact h.makes hp' hfree hs'
      | unmade principal sourceId e hgone =>
          -- the source is there in an orderly step
          have hthere : sourceThere c.shared.d.disk sourceId = true := horderly.2
          exact absurd (hthere.symm.trans hgone) (nomatch ·)
      | records principal owner howner => exact h.records hp hp' horderly hknown.1 howner hs'
      | mints owner tokens outbox handle => exact h.mints hp hp' horderly hs'
      | removes hrepo => exact Kept.removes hp' hs'
      | forgets =>
          refine h.forgets hother hp (fun j hj => ?_) hs'
          dsimp only at horderly
          rw [hj] at horderly
          cases hplace : c.place j with
          | made principal => exact ⟨principal, rfl⟩
          | _ =>
              -- any other place of the maker is not orderly
              dsimp only at horderly
              rw [hplace] at horderly
              exact horderly.elim
      | nameless principal e hnameless =>
          -- the quota check has read the subject before
          obtain ⟨-, owner, howner⟩ := hknown
          exact absurd (hnameless.symm.trans howner) (nomatch ·)
      | unminted owner e => exact hquiet hs' nofun nofun fun _ hmaking => hmaking
      | refused e => exact hquiet hs' nofun nofun fun _ hmaking => hmaking.elim
      | checks principal sourceId hentitled =>
          exact hquiet hs' nofun nofun fun _ hmaking => hmaking.elim
      | forbidden e => exact hquiet hs' nofun nofun fun _ hmaking => hmaking.elim
      | allows => exact hquiet hs' nofun nofun fun _ hmaking => hmaking.elim
      | forked e => exact hquiet hs' nofun nofun fun _ hmaking => hmaking.elim
      | finds => exact hquiet hs' nofun nofun fun _ hmaking => hmaking.elim
      | missing e => exact hquiet hs' nofun nofun fun _ hmaking => hmaking.elim

theorem Kept.settled {c : Calls κ (Site κ) Place} (h : Kept id jobs c) : Settled id jobs c where
  once := h.once
  rows hidle := by
    cases hmaker : c.shared.maker with
    | none =>
        have hrepo := h.repo
        rw [hmaker] at hrepo
        have hrow : ¬ (c.shared.d.repos.find? id.text).isSome = true := by
          intro hrow
          obtain ⟨k, hk⟩ := h.orphan hmaker hrow
          have hk' := hidle k
          rw [hk] at hk'
          cases hk'
        constructor
        · constructor
          · intro hsome
            rw [hrepo] at hsome
            cases hsome
          · intro hsome
            exact absurd hsome hrow
        · intro hsome
          rw [hrepo] at hsome
          cases hsome
    | some k =>
        have hrepo := h.repo
        rw [hmaker] at hrepo
        have howned : OwnedBy id c.shared.d.repos (jobs k) :=
          (h.making k hmaker).ownedBy (hidle k)
        constructor
        · obtain ⟨row, -, hrow, -⟩ := howned
          rw [hrow]
          exact ⟨fun _ => rfl, fun _ => hrepo⟩
        · intro _
          exact ⟨k, rfl, howned⟩

end Steps

/-- The id is new and no call is under way. -/
def fresh (d : Deployment) : Calls κ (Site κ) Place := ⟨⟨d, none, []⟩, fun _ => .start⟩

variable {lib cfg id jobs}

/-- Alice makes `demo`, Bob makes it, Alice deletes it. -/
def sampleJobs : Fin 3 → Job
  | 0 => ⟨.make .create, sampleCall "alice" aliceToken⟩
  | 1 => ⟨.make .create, sampleCall "bob" bobToken⟩
  | 2 => ⟨.delete none, sampleCall "alice" aliceToken⟩

/-- The calls go on in this order; no fork is in any cache. -/
def inOrder (ks : List (Fin 3)) : List (Move (Fin 3) (String → Option String) Deployment) :=
  ks.map fun k => .call k fun _ => none

end Rest
end Artifacts
