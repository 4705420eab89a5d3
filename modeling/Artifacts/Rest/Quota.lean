import Artifacts.Foundation.Admission
import Artifacts.Rest.SameIdRuns

/-!
# The quota under concurrent calls

`create_repo` and `fork_repo` check how many repos the caller owns before they make the
directory, and write the row that counts only behind it.  Here calls for any ids run side
by side, in the steps of `act`.  A user can pass the quota then, by no more than the number
of calls that are between their check and their row at once, and by all of that.

`Place.Pending` is such a call.  The bound holds for every run and every crowd, and the run that
reaches it is built from the calls themselves (`crowdMoves`), so the bound is no guess.
-/

namespace Artifacts
namespace Rest

open Auth Events Foundation Ownership Storage Tokens

/-- What the rest of the server does meanwhile: rows of the ownership table only go. -/
structure Besides where
  d : Deployment
  gone : RepoRow → Bool

section Calls

variable {κ : Type} (lib : Library) (cfg : Config) (ids : κ → RepoId) (jobs : κ → Job)

/-- One step of call `k`, for an id of its own. -/
def actFor (k : κ) (cache : String → Option String) (d : Deployment) (p : Place) :
    Deployment × Place :=
  let next := act lib cfg (ids k) jobs k cache ⟨d, none, []⟩ p
  (next.1.d, next.2)

def Besides.apply (e : Besides) (d : Deployment) : Deployment :=
  { e.d with repos := d.repos.delete e.gone }

/-- The moves of all calls together. -/
def stepAll [DecidableEq κ] (c : Calls κ Deployment Place)
    (m : Move κ (String → Option String) Besides) : Calls κ Deployment Place :=
  c.move (actFor lib cfg ids jobs) Besides.apply m

end Calls

/-- No call has begun. -/
def noCalls (κ : Type) (d : Deployment) : Calls κ Deployment Place := ⟨d, fun _ => .start⟩

/-- A call of the subject between its check and its row. -/
def Place.Pending (subject : Subject) : Place → Prop
  | .checked principal _ | .made principal => principal = .user subject.text
  | _ => False

/-! ### What counts -/

section Count

variable (repos : Repos) (subject : Subject)

theorem countByOwner_delete_le (gone : RepoRow → Bool) :
    Repos.countByOwner (repos.delete gone) subject ≤ repos.countByOwner subject :=
  (List.filter_sublist.filter _).length_le

/-- A new row takes the place of the old one, and counts for its owner. -/
theorem countByOwner_recordOwner (now : Int64) (id : RepoId) (owner : Option Subject) :
    (repos.recordOwner now id owner).countByOwner subject =
      Repos.countByOwner (repos.delete fun row => row.id == id.text) subject +
        if owner.map Subject.text = some subject.text then 1 else 0 := by
  unfold Repos.countByOwner Repos.recordOwner Table.replace Table.select Table.append
  rw [List.filter_append, List.length_append]
  by_cases howner : owner.map Subject.text = some subject.text <;> simp [howner]

theorem countByOwner_recordOwner_le (now : Int64) (id : RepoId) (owner : Option Subject) :
    (repos.recordOwner now id owner).countByOwner subject ≤ repos.countByOwner subject + 1 := by
  have hless := countByOwner_delete_le repos subject fun row => row.id == id.text
  rw [countByOwner_recordOwner]
  split <;> omega

/-- The row of somebody else does not count. -/
theorem countByOwner_recordOwner_of_ne (now : Int64) (id : RepoId) {owner : Option Subject}
    (h : owner.map Subject.text ≠ some subject.text) :
    (repos.recordOwner now id owner).countByOwner subject ≤ repos.countByOwner subject := by
  rw [countByOwner_recordOwner, if_neg h]
  exact countByOwner_delete_le repos subject _

/-- A first row for the id counts one more. -/
theorem countByOwner_recordOwner_of_new (now : Int64) {id : RepoId}
    (hnew : repos.has id.text = false) :
    (repos.recordOwner now id (some subject)).countByOwner subject =
      repos.countByOwner subject + 1 := by
  have hsame : (repos.delete fun row => row.id == id.text).rows = repos.rows := by
    refine List.filter_eq_self.mpr fun row hrow => ?_
    have hout : ¬ ∃ row ∈ repos, row.id = id.text := by
      rw [← Table.has_iff, hnew]
      exact Bool.false_ne_true
    simpa using fun heq => hout ⟨row, hrow, heq⟩
  have hcount : Repos.countByOwner (repos.delete fun row => row.id == id.text) subject =
      repos.countByOwner subject := by
    unfold Repos.countByOwner Table.select
    rw [hsame]
  rw [countByOwner_recordOwner, hcount]
  simp

theorem has_recordOwner_of_ne (now : Int64) {id other : RepoId} (owner : Option Subject)
    (hne : other.text ≠ id.text) :
    (repos.recordOwner now id owner).has other.text = repos.has other.text := by
  rw [← Table.isSome_find?, ← Table.isSome_find?, Repos.recordOwner, Table.find?_replace]
  simp [hne]

end Count

/-! ### What a step does to the count -/

section Steps

variable {κ : Type} {lib : Library} {cfg : Config} {ids : κ → RepoId} {jobs : κ → Job}
  {subject : Subject}

/-- A maker that is behind its checks has passed the quota. -/
theorem makerChecks_quota {id : RepoId} {d : Deployment} {call : Call} {maker : Maker}
    {principal : Principal} {sourceId : Option RepoId}
    (h : makerChecks cfg id d call maker = .ok (principal, sourceId)) :
    checkRepoQuota d.repos principal cfg.maxReposPerUser = .ok () := by
  cases maker with
  | create =>
      obtain ⟨caller, hchecks, h⟩ := Result.bind_eq_ok.mp h
      split_ifs at h
      cases h
      exact (createChecks_eq_ok hchecks).2
  | fork source readOnly =>
      obtain ⟨⟨caller, typed⟩, hchecks, h⟩ := Result.bind_eq_ok.mp h
      obtain ⟨_, -, h⟩ := Result.bind_eq_ok.mp h
      cases h
      obtain ⟨_, -, hchecks⟩ := Result.bind_eq_ok.mp hchecks
      obtain ⟨_, -, hchecks⟩ := Result.bind_eq_ok.mp hchecks
      obtain ⟨_, -, hchecks⟩ := Result.bind_eq_ok.mp hchecks
      obtain ⟨_, hquota, hchecks⟩ := Result.bind_eq_ok.mp hchecks
      cases hchecks
      exact hquota

theorem checkRepoQuota_user {repos : Repos} {limit : Nat} :
    checkRepoQuota repos (.user subject.text) limit = .ok () ↔
      repos.countByOwner subject < limit := by
  have hquota : checkRepoQuota repos (.user subject.text) limit =
      if limit ≤ repos.countByOwner subject then .error (.quotaExceeded subject.text limit)
      else .ok () := by
    simp [checkRepoQuota, Principal.subject, bind, Except.bind]
  rw [hquota]
  split
  · simp
    omega
  · simp
    omega

/-- A call that is pending behind its first step has found room. -/
theorem room_of_checked {k : κ} {id : RepoId} {cache : String → Option String} {s : Site κ}
    {sourceId : Option RepoId}
    (h : (act lib cfg id jobs k cache s .start).2 = .checked (.user subject.text) sourceId) :
    s.d.repos.countByOwner subject < cfg.maxReposPerUser := by
  unfold act at h
  cases hop : (jobs k).op with
  | make maker =>
      simp only [hop, makerAct] at h
      cases hchecks : makerChecks cfg id s.d (jobs k).call maker with
      | error e => simp [hchecks] at h
      | ok found =>
          obtain ⟨principal, source⟩ := found
          rw [hchecks] at h
          obtain ⟨rfl, rfl⟩ := Place.checked.inj h
          exact checkRepoQuota_user.mp (makerChecks_quota hchecks)
  | delete force =>
      simp only [hop, deleterAct] at h
      cases hchecks : ownerChecks id s.d (jobs k).call <;> simp [hchecks] at h

/-- **What a step does to the count**, for every step of every call. -/
theorem actFor_charges (k : κ) (cache : String → Option String) (d : Deployment) (p : Place) :
    Calls.Charges cfg.maxReposPerUser (fun d => d.repos.countByOwner subject)
      (Place.Pending subject) d p (actFor lib cfg ids jobs k cache d p).1
      (actFor lib cfg ids jobs k cache d p).2 := by
  have hacted : Acted cfg (ids k) jobs k ⟨d, none, []⟩ p
      (act lib cfg (ids k) jobs k cache ⟨d, none, []⟩ p).1
      (act lib cfg (ids k) jobs k cache ⟨d, none, []⟩ p).2 := acted lib k cache _ p
  have hroom : ∀ sourceId, p = .start →
      (act lib cfg (ids k) jobs k cache ⟨d, none, []⟩ p).2 =
        .checked (.user subject.text) sourceId →
      d.repos.countByOwner subject < cfg.maxReposPerUser := by
    rintro sourceId rfl h
    exact room_of_checked h
  unfold actFor
  dsimp only
  generalize act lib cfg (ids k) jobs k cache ⟨d, none, []⟩ p = next at hacted hroom ⊢
  obtain ⟨s, p'⟩ := next
  cases hacted with
  | stays => exact .rests id (Nat.le_refl _)
  | refused e => exact .rests False.elim (Nat.le_refl _)
  | checks principal sourceId hentitled =>
      by_cases hcaller : principal = .user subject.text
      · subst hcaller
        exact .admits (hroom sourceId rfl rfl) (Nat.le_refl _)
      · exact .rests (fun h => absurd h hcaller) (Nat.le_refl _)
  | makes principal sourceId => exact .rests id (Nat.le_refl _)
  | unmade principal sourceId e hgone => exact .rests False.elim (Nat.le_refl _)
  | nameless principal e hnameless => exact .rests False.elim (Nat.le_refl _)
  | records principal owner howner =>
      have hsubject := typedSubject_eq_ok howner
      by_cases hcaller : principal = .user subject.text
      · exact .charges hcaller id (countByOwner_recordOwner_le _ _ _ _ _)
      · refine .rests False.elim (countByOwner_recordOwner_of_ne _ _ _ _ fun hsame => ?_)
        -- the owner of the row is the caller
        rw [hsubject] at hsame
        cases principal with
        | admin => cases hsame
        | user s => exact hcaller (congrArg Principal.user (Option.some.inj hsame))
  | unminted owner e => exact .rests False.elim (Nat.le_refl _)
  | mints owner tokens outbox handle => exact .rests False.elim (Nat.le_refl _)
  | forbidden e => exact .rests False.elim (Nat.le_refl _)
  | allows => exact .rests False.elim (Nat.le_refl _)
  | forked e => exact .rests False.elim (Nat.le_refl _)
  | finds => exact .rests False.elim (Nat.le_refl _)
  | missing e => exact .rests False.elim (Nat.le_refl _)
  | removes hrepo => exact .rests False.elim (Nat.le_refl _)
  | forgets => exact .rests False.elim (countByOwner_delete_le _ _ _)

/-! ### How far the crowd comes -/

/-- A call of the user that will make a repo of a new id. -/
structure Ready (subject : Subject) (d : Deployment) (id : RepoId) (job : Job) : Prop where
  op : job.op = .make .create
  caller : job.call.caller = .ok (.user subject.text)
  rate : job.call.rate = .ok ()
  path : d.disk.pathExists id.text = false
  row : d.repos.has id.text = false

theorem actFor_start {k : κ} {d : Deployment} (h : Ready subject d (ids k) (jobs k))
    (hroom : d.repos.countByOwner subject < cfg.maxReposPerUser)
    (cache : String → Option String) :
    actFor lib cfg ids jobs k cache d .start = (d, .checked (.user subject.text) none) := by
  have hchecks : makerChecks cfg (ids k) d (jobs k).call .create =
      .ok (.user subject.text, none) := by
    have hquota := (@checkRepoQuota_user subject d.repos cfg.maxReposPerUser).mpr hroom
    simp [makerChecks, createChecks, h.caller, h.rate, h.path, hquota, bind, Except.bind, pure,
      Except.pure]
  simp [actFor, act_maker h.op, makerAct, hchecks]

theorem actFor_checked {k : κ} (hop : (jobs k).op = .make .create) (cache : String → Option String)
    (d : Deployment) (principal : Principal) :
    actFor lib cfg ids jobs k cache d (.checked principal none) =
      ({ d with disk := d.disk.ensureDir (ids k).text }, .made principal) := by
  simp [actFor, act_maker hop, makerAct, makeOnDisk]

theorem actFor_made {k : κ} (hop : (jobs k).op = .make .create) (cache : String → Option String)
    (d : Deployment) :
    actFor lib cfg ids jobs k cache d (.made (.user subject.text)) =
      ({ d with repos := d.repos.recordOwner d.now (ids k) (some subject) },
        .recorded (some subject)) := by
  have hsubject : typedSubject (.user subject.text) = .ok (some subject) := by
    simp [typedSubject, Principal.subject, bind, Except.bind, pure, Except.pure]
  simp [actFor, act_maker hop, makerAct, hsubject]

variable [DecidableEq κ]

/-- Each of the calls takes one step. -/
def round (ks : List κ) : List (Move κ (String → Option String) Besides) :=
  Calls.round Besides (fun _ => none) ks

section Rounds

variable {c : Calls κ Deployment Place} {ks : List κ}

/-- All checks of a round see the table as it was. -/
theorem round_checks (hnodup : ks.Nodup) (hplace : ∀ k ∈ ks, c.place k = .start)
    (hready : ∀ k ∈ ks, Ready subject c.shared (ids k) (jobs k))
    (hroom : c.shared.repos.countByOwner subject < cfg.maxReposPerUser) :
    ((round ks).foldl (stepAll lib cfg ids jobs) c).shared = c.shared ∧
      ∀ k ∈ ks, ((round ks).foldl (stepAll lib cfg ids jobs) c).place k =
        .checked (.user subject.text) none := by
  obtain ⟨⟨hshared, -⟩, hplaces, -⟩ := Calls.foldl_round (actFor lib cfg ids jobs) Besides.apply
    (fun _ => none)
    (fun ks d => d = c.shared ∧ ∀ k ∈ ks, Ready subject c.shared (ids k) (jobs k))
    .start (.checked (.user subject.text) none)
    (by
      rintro k ks s ⟨rfl, hready⟩
      rw [actFor_start (hready k (by simp)) hroom]
      exact ⟨⟨rfl, fun j hj => hready j (List.mem_cons_of_mem k hj)⟩, rfl⟩)
    hnodup ⟨rfl, hready⟩ hplace
  exact ⟨hshared, hplaces⟩

theorem round_makes (hnodup : ks.Nodup) (hop : ∀ k ∈ ks, (jobs k).op = .make .create)
    (hplace : ∀ k ∈ ks, c.place k = .checked (.user subject.text) none) :
    ((round ks).foldl (stepAll lib cfg ids jobs) c).shared.repos = c.shared.repos ∧
      ∀ k ∈ ks, ((round ks).foldl (stepAll lib cfg ids jobs) c).place k =
        .made (.user subject.text) := by
  obtain ⟨⟨hshared, -⟩, hplaces, -⟩ := Calls.foldl_round (actFor lib cfg ids jobs) Besides.apply
    (fun _ => none)
    (fun ks d => d.repos = c.shared.repos ∧ ∀ k ∈ ks, (jobs k).op = .make .create)
    (.checked (.user subject.text) none) (.made (.user subject.text))
    (by
      rintro k ks s ⟨hrepos, hop⟩
      rw [actFor_checked (hop k (by simp))]
      exact ⟨⟨hrepos, fun j hj => hop j (List.mem_cons_of_mem k hj)⟩, rfl⟩)
    hnodup ⟨rfl, hop⟩ hplace
  exact ⟨hshared, hplaces⟩

/-- Each row of a round counts. -/
theorem round_records (hids : (ks.map fun k => (ids k).text).Nodup)
    (hop : ∀ k ∈ ks, (jobs k).op = .make .create)
    (hnew : ∀ k ∈ ks, c.shared.repos.has (ids k).text = false)
    (hplace : ∀ k ∈ ks, c.place k = .made (.user subject.text)) :
    ((round ks).foldl (stepAll lib cfg ids jobs) c).shared.repos.countByOwner subject =
      c.shared.repos.countByOwner subject + ks.length := by
  obtain ⟨⟨hcount, -⟩, -⟩ := Calls.foldl_round (actFor lib cfg ids jobs) Besides.apply
    (fun _ => none)
    (fun rest d => d.repos.countByOwner subject + rest.length =
        c.shared.repos.countByOwner subject + ks.length ∧
      (rest.map fun k => (ids k).text).Nodup ∧
      ∀ k ∈ rest, (jobs k).op = .make .create ∧ d.repos.has (ids k).text = false)
    (.made (.user subject.text)) (.recorded (some subject))
    (by
      rintro k rest s ⟨hcount, hdistinct, hrest⟩
      obtain ⟨hopk, hnewk⟩ := hrest k (by simp)
      obtain ⟨hout, hdistinct⟩ := List.nodup_cons.mp hdistinct
      rw [actFor_made hopk]
      refine ⟨⟨?_, hdistinct, fun j hj => ?_⟩, rfl⟩
      · show (s.repos.recordOwner s.now (ids k) (some subject)).countByOwner subject + _ = _
        rw [countByOwner_recordOwner_of_new _ _ _ hnewk]
        rw [List.length_cons] at hcount
        omega
      · obtain ⟨hopj, hnewj⟩ := hrest j (List.mem_cons_of_mem k hj)
        refine ⟨hopj, ?_⟩
        show (s.repos.recordOwner s.now (ids k) (some subject)).has (ids j).text = false
        rw [has_recordOwner_of_ne _ _ _ fun heq => hout (List.mem_map.mpr ⟨j, hj, heq⟩)]
        exact hnewj)
    (hids.of_map _) ⟨rfl, hids, fun k hk => ⟨hop k hk, hnew k hk⟩⟩ hplace
  exact hcount

end Rounds

/-- The calls check one after the other, then they all make their directories, and then they
write their rows. -/
def crowdMoves (ks : List κ) : List (Move κ (String → Option String) Besides) :=
  round ks ++ round ks ++ round ks

/-- **The whole crowd gets in.** -/
theorem crowd_counted {d : Deployment} {ks : List κ}
    (hids : (ks.map fun k => (ids k).text).Nodup)
    (hready : ∀ k ∈ ks, Ready subject d (ids k) (jobs k))
    (hroom : d.repos.countByOwner subject < cfg.maxReposPerUser) :
    ((crowdMoves ks).foldl (stepAll lib cfg ids jobs)
      (noCalls κ d)).shared.repos.countByOwner subject =
      d.repos.countByOwner subject + ks.length := by
  have hnodup : ks.Nodup := hids.of_map _
  have hop : ∀ k ∈ ks, (jobs k).op = .make .create := fun k hk => (hready k hk).op
  rw [crowdMoves, List.foldl_append, List.foldl_append]
  obtain ⟨hchecked, hplaces⟩ := @round_checks κ lib cfg ids jobs subject _ (noCalls κ d) ks hnodup
    (fun _ _ => rfl) hready hroom
  generalize (round ks).foldl (stepAll lib cfg ids jobs) (noCalls κ d) = checked at hchecked hplaces ⊢
  obtain ⟨hmade, hplaces⟩ := @round_makes κ lib cfg ids jobs subject _ checked ks hnodup hop hplaces
  generalize (round ks).foldl (stepAll lib cfg ids jobs) checked = made at hmade hplaces ⊢
  have hrepos : made.shared.repos = d.repos := hmade.trans (congrArg Deployment.repos hchecked)
  rw [round_records hids hop (fun k hk => hrepos ▸ (hready k hk).row) hplaces, hrepos]

theorem crowdMoves_crowded (d : Deployment) (ks : List κ) :
    EveryState (stepAll lib cfg ids jobs) (Calls.Crowded (Place.Pending subject) ks.length)
      (noCalls κ d) (crowdMoves ks) := by
  refine Calls.everyState_crowded_of_calls (fun _ _ => id) fun m hm => ?_
  have hround : m ∈ round ks := by
    simpa [crowdMoves] using hm
  obtain ⟨k, hk, rfl⟩ := List.mem_map.mp hround
  exact ⟨k, hk, _, rfl⟩

end Steps

/-- **The quota under concurrency.** In every run of calls for any ids the user owns at most
one repo fewer than the quota allows and one more for each call that is between its check
and its row at once, unless it owned more to begin with; and as many as that can come to be. -/
theorem quota_overshoot {κ : Type} [DecidableEq κ] (lib : Library) (cfg : Config)
    (ids : κ → RepoId) (jobs : κ → Job) (subject : Subject) (d : Deployment) :
    (∀ crowd moves,
      EveryState (stepAll lib cfg ids jobs) (Calls.Crowded (Place.Pending subject) crowd)
        (noCalls κ d) moves →
      EveryState (stepAll lib cfg ids jobs)
        (fun c => c.shared.repos.countByOwner subject ≤
          max (d.repos.countByOwner subject) (cfg.maxReposPerUser + crowd - 1))
        (noCalls κ d) moves) ∧
      ∀ ks : List κ, (ks.map fun k => (ids k).text).Nodup →
        (∀ k ∈ ks, Ready subject d (ids k) (jobs k)) →
        d.repos.countByOwner subject < cfg.maxReposPerUser →
        ∃ moves, EveryState (stepAll lib cfg ids jobs)
            (Calls.Crowded (Place.Pending subject) ks.length) (noCalls κ d) moves ∧
          (moves.foldl (stepAll lib cfg ids jobs)
            (noCalls κ d)).shared.repos.countByOwner subject =
            d.repos.countByOwner subject + ks.length := by
  constructor
  · intro crowd moves hcrowd
    exact Calls.everyState_count_le (fun k cache d p => actFor_charges k cache d p)
      (fun e d => countByOwner_delete_le d.repos subject e.gone) (by omega)
      (Calls.booked_of_idle (Nat.le_max_left _ _) fun _ => id) hcrowd
  · intro ks hids hready hroom
    exact ⟨crowdMoves ks, crowdMoves_crowded d ks, crowd_counted hids hready hroom⟩

/-- A quota of one repo. -/
def smallConfig : Config := { sampleConfig with maxReposPerUser := 1 }

/-- Alice asks for two repos at once. -/
def twoRepos : Bool → RepoId
  | false => ⟨"first", rfl⟩
  | true => ⟨"second", rfl⟩

def twoCalls (_ : Bool) : Job := ⟨.make .create, sampleCall "alice" aliceToken⟩

theorem quota_overshoot_two : ∃ moves,
    EveryState (stepAll sampleLibrary smallConfig twoRepos twoCalls)
      (fun c => c.shared.repos.countByOwner ⟨"alice", rfl⟩ ≤ 2)
      (noCalls Bool emptyDeployment) moves ∧
    (moves.foldl (stepAll sampleLibrary smallConfig twoRepos twoCalls)
      (noCalls Bool emptyDeployment)).shared.repos.countByOwner ⟨"alice", rfl⟩ = 2 := by
  obtain ⟨hbound, htight⟩ := quota_overshoot sampleLibrary smallConfig twoRepos twoCalls
    ⟨"alice", rfl⟩ emptyDeployment
  obtain ⟨moves, hcrowd, hcount⟩ := htight [false, true] (by decide)
    (fun k _ => by cases k <;> exact ⟨rfl, rfl, rfl, rfl, rfl⟩) (by decide)
  exact ⟨moves, hbound 2 moves hcrowd, hcount⟩

end Rest
end Artifacts
