import Artifacts.Foundation.Runs
import Artifacts.SmartHttp.PushNames

/-!
# Compare-and-swap over runs of pushes

A ref update is disciplined when it changes at most the ref it names, and only if
that ref has the update's old value just before, an all-zero old value standing
for an absent ref.  The file store leaves the comparison to `git update-ref`,
whose behaviour is the contract `UpdateRefContract`; the in-process store
compares by itself.  Both treat an update whose old and new value are all zero
as a delete that expects the zero id.

`UpdateRefContract` is about successful answers only, so git may refuse what it likes.  The
steps of one push are not interleaved with another here; that is done in `SideBySide`.
-/

namespace Artifacts
namespace SmartHttp

open Foundation GitWire Pkt Refs Rust

/-- The all-zero id. -/
def zeroOid : Oid := ⟨RefUpdate.zero, by decide⟩

/-- The value an old id of `git update-ref` stands for. -/
def expectedValue (old : Oid) : Option Oid :=
  if old = zeroOid then none else some old

/-- `s'` differs from `s` at most at one ref, whether or not it differs there. The objects may be
others. -/
def ChangesOnly {σ : Type} (view : σ → RepoId → String → Option Oid) (repoId : RepoId)
    (name : String) (s s' : σ) : Prop :=
  ∀ repo other, ¬(repo = repoId ∧ other = name) → view s' repo other = view s repo other

/-- What the file store relies on: the behaviour of `git update-ref` and `git rev-parse` on
repositories without symbolic refs (`plain`), for refs under `refs/`. It says what a command may
change and when; that a command succeeds is nowhere asked for. -/
structure UpdateRefContract {σ : Type} (runGit : GitRunner σ)
    (view : σ → RepoId → String → Option Oid) (plain : σ → Prop) : Prop where
  /-- `rev-parse` only reads. -/
  revParse : ∀ s repoId args, (runGit s repoId ("rev-parse" :: args)).2 = s
  /-- `update-ref R NEW OLD` sets `R` only if its value is `OLD`. -/
  update : ∀ s repoId (name : RefName) (new old : Oid), plain s →
    startsWith name.text "refs/" = true → new ≠ zeroOid →
    let s' := (runGit s repoId
      ["update-ref", "--end-of-options", name.text, new.text, old.text]).2
    plain s' ∧ ChangesOnly view repoId name.text s s' ∧
      (view s' repoId name.text ≠ view s repoId name.text →
        view s repoId name.text = expectedValue old)
  /-- `update-ref -d R OLD` deletes `R` only if its value is `OLD`. -/
  delete : ∀ s repoId (name : RefName) (old : Oid), plain s →
    startsWith name.text "refs/" = true → old ≠ zeroOid →
    let s' := (runGit s repoId ["update-ref", "-d", "--end-of-options", name.text, old.text]).2
    plain s' ∧ ChangesOnly view repoId name.text s s' ∧
      (view s' repoId name.text ≠ view s repoId name.text →
        view s repoId name.text = some old)
  /-- With an all-zero `OLD` it deletes `R` whatever its value is. -/
  deleteZero : ∀ s repoId (name : RefName), plain s →
    startsWith name.text "refs/" = true →
    let s' := (runGit s repoId
      ["update-ref", "-d", "--end-of-options", name.text, zeroOid.text]).2
    plain s' ∧ ChangesOnly view repoId name.text s s' ∧ view s' repoId name.text = none

/-- A step from `s` to `s'` for update `u` that keeps the discipline: no other ref has moved, and
this one only if it had the old value of the update. -/
def Disciplined {σ : Type} (view : σ → RepoId → String → Option Oid) (repoId : RepoId)
    (s : σ) (u : RefUpdate) (s' : σ) : Prop :=
  ChangesOnly view repoId u.name s s' ∧
    (view s' repoId u.name ≠ view s repoId u.name →
      (view s repoId u.name).map Oid.text = if u.isCreate then none else some u.old)

/-- An update from nothing to nothing, of a name the validator accepts. -/
def ZeroToZero (u : RefUpdate) : Prop :=
  u.isCreate = true ∧ u.isDelete = true ∧ validRefName u.name = true

section Steps

variable {σ : Type} (printable : Char → Bool) (store : RefStore σ) (repoId : RepoId)

/-- One update of a run. -/
def updateStep (s : σ) (u : RefUpdate) : σ :=
  (applyRefUpdate printable store repoId.text s u).2

end Steps

theorem isCreate_iff {u : RefUpdate} {old : Oid} (hold : u.old = old.text) :
    u.isCreate = true ↔ old = zeroOid := by
  rw [RefUpdate.isCreate, beq_iff_eq, hold, Oid.ext_iff]
  rfl

theorem isDelete_iff {u : RefUpdate} {new : Oid} (hnew : u.new = new.text) :
    u.isDelete = true ↔ new = zeroOid := by
  rw [RefUpdate.isDelete, beq_iff_eq, hnew, Oid.ext_iff]
  rfl

/-- An update that fails a validator changes nothing. -/
theorem disciplined_of_invalid {σ : Type} {printable : Char → Bool} {store : RefStore σ}
    (view : σ → RepoId → String → Option Oid) (repoId : RepoId) (s : σ) {u : RefUpdate}
    (h : ¬ Valid u) : Disciplined view repoId s u (updateStep printable store repoId s u) := by
  obtain ⟨reason, hrefused⟩ : ∃ reason,
      applyRefUpdate printable store repoId.text s u = (.error reason, s) :=
    applyRefUpdate_of_invalid repoId s h
  rw [updateStep, hrefused]
  exact ⟨fun _ _ _ => rfl, fun hmoved => absurd rfl hmoved⟩

/-- An update from nothing to nothing is valid as soon as its name is. -/
theorem ZeroToZero.valid {u : RefUpdate} (h : ZeroToZero u) : Valid u := by
  obtain ⟨hcreate, hdelete, hname⟩ := h
  have hzero : validOid RefUpdate.zero = true := by decide
  refine ⟨hname, ?_, ?_⟩
  · rw [beq_iff_eq.mp hcreate]
    exact hzero
  · rw [beq_iff_eq.mp hdelete]
    exact hzero

/-- The refs after a valid update are those after its call. -/
theorem updateStep_of_valid {σ : Type} {printable : Char → Bool} {store : RefStore σ}
    (repoId : RepoId) (s : σ) {u : RefUpdate} {name : RefName} {old new : Oid}
    (hname : u.name = name.text) (hold : u.old = old.text) (hnew : u.new = new.text) :
    updateStep printable store repoId s u =
      if u.isDelete then (store.casDelete s repoId name (some old)).2
      else (store.casUpdate s repoId name (if u.isCreate then none else some old) new).2 := by
  rw [updateStep, applyRefUpdate_of_valid repoId s hname hold hnew]
  simp only []
  split <;> split_ifs <;> rfl

/-! ### The file store -/

section Fs

variable {σ : Type} {printable : Char → Bool} {runGit : GitRunner σ}
  {view : σ → RepoId → String → Option Oid} {plain : σ → Prop}

/-- Reading the current value after a failed update changes nothing. -/
theorem fsOutcome_state (hgit : UpdateRefContract runGit view plain) (repoId : RepoId)
    (name : RefName) (result : Result (Int × List UInt8 × List UInt8) × σ) :
    (fsOutcome printable runGit repoId name result).2 = result.2 := by
  have hread : ∀ s, (fsRead printable runGit s repoId name).2 = s := by
    intro s
    have hparse := hgit.revParse s repoId ["--verify", "--end-of-options", name.text]
    unfold fsRead
    cases hrun : runGit s repoId ["rev-parse", "--verify", "--end-of-options", name.text] with
    | mk outcome s' =>
        rw [hrun] at hparse
        cases outcome with
        | error e => exact hparse
        | ok out =>
            obtain ⟨rc, stdout, stderr⟩ := out
            simp only []
            split_ifs
            · exact hparse
            · split
              · exact hparse
              · split_ifs <;> exact hparse
  obtain ⟨outcome, s⟩ := result
  cases outcome with
  | error e => rfl
  | ok out =>
      obtain ⟨rc, stdout, stderr⟩ := out
      have hs := hread s
      unfold fsOutcome
      simp only []
      split_ifs
      · rfl
      · split
        · rename_i current s' heq
          rw [heq] at hs
          exact hs
        · rename_i e s' heq
          rw [heq] at hs
          exact hs

/-- An update to a new value. -/
theorem fs_update (hgit : UpdateRefContract runGit view plain) (repoId : RepoId) {s : σ}
    (hs : plain s) {u : RefUpdate} {name : RefName} {old new : Oid} (hname : u.name = name.text)
    (hold : u.old = old.text) (hunder : startsWith name.text "refs/" = true)
    (hnonzero : new ≠ zeroOid) :
    let s' := ((fsRefStore printable runGit).casUpdate s repoId name
      (if u.isCreate then none else some old) new).2
    plain s' ∧ Disciplined view repoId s u s' := by
  have hcreate := isCreate_iff hold
  -- git is given the zero id for an absent ref
  have hexpected : ∃ arg : Oid, (fsRefStore printable runGit).casUpdate s repoId name
        (if u.isCreate then none else some old) new =
      fsOutcome printable runGit repoId name (runGit s repoId
        ["update-ref", "--end-of-options", name.text, new.text, arg.text]) ∧
      (expectedValue arg).map Oid.text = if u.isCreate then none else some u.old := by
    by_cases hcre : u.isCreate = true
    · exact ⟨zeroOid, by rw [if_pos hcre]; rfl, by rw [if_pos hcre]; rfl⟩
    · have hne : old ≠ zeroOid := fun h => hcre (hcreate.mpr h)
      refine ⟨old, by rw [if_neg hcre]; rfl, ?_⟩
      rw [if_neg hcre, expectedValue, if_neg hne, hold]
      rfl
  obtain ⟨arg, hcall, harg⟩ := hexpected
  obtain ⟨hplain, hframe, hmatch⟩ := hgit.update s repoId name new arg hs hunder hnonzero
  rw [hcall, fsOutcome_state hgit]
  refine ⟨hplain, by rw [hname]; exact hframe, fun hmoved => ?_⟩
  rw [hname] at hmoved ⊢
  rw [hmatch hmoved, harg]

/-- A delete of a ref with a value. -/
theorem fs_delete (hgit : UpdateRefContract runGit view plain) (repoId : RepoId) {s : σ}
    (hs : plain s) {u : RefUpdate} {name : RefName} {old : Oid} (hname : u.name = name.text)
    (hold : u.old = old.text) (hunder : startsWith name.text "refs/" = true)
    (hcreate : ¬ u.isCreate = true) :
    let s' := ((fsRefStore printable runGit).casDelete s repoId name (some old)).2
    plain s' ∧ Disciplined view repoId s u s' := by
  have hnonzero : old ≠ zeroOid := fun h => hcreate ((isCreate_iff hold).mpr h)
  obtain ⟨hplain, hframe, hmatch⟩ := hgit.delete s repoId name old hs hunder hnonzero
  have hstate : ((fsRefStore printable runGit).casDelete s repoId name (some old)).2 =
      (runGit s repoId ["update-ref", "-d", "--end-of-options", name.text, old.text]).2 :=
    fsOutcome_state hgit repoId name _
  rw [hstate]
  refine ⟨hplain, by rw [hname]; exact hframe, fun hmoved => ?_⟩
  rw [hname] at hmoved ⊢
  rw [hmatch hmoved, if_neg hcreate, hold]
  rfl

/-- A delete whose old id is zero: git deletes the ref without looking. -/
theorem fs_deleteZero (hgit : UpdateRefContract runGit view plain) (repoId : RepoId) {s : σ}
    (hs : plain s) {u : RefUpdate} {name : RefName} (hname : u.name = name.text)
    (hunder : startsWith name.text "refs/" = true) (hcreate : u.isCreate = true) :
    let s' := ((fsRefStore printable runGit).casDelete s repoId name (some zeroOid)).2
    plain s' ∧ (Disciplined view repoId s u s' ↔ view s repoId u.name = none) := by
  obtain ⟨hplain, hframe, hgone⟩ := hgit.deleteZero s repoId name hs hunder
  have hstate : ((fsRefStore printable runGit).casDelete s repoId name (some zeroOid)).2 =
      (runGit s repoId ["update-ref", "-d", "--end-of-options", name.text, zeroOid.text]).2 :=
    fsOutcome_state hgit repoId name _
  rw [hstate, hname]
  refine ⟨hplain, ?_, fun hnone => ?_⟩
  · rintro ⟨-, hmatch⟩
    rw [hname, hgone, if_pos hcreate, Option.map_eq_none_iff] at hmatch
    by_contra hpresent
    exact hpresent (hmatch (Ne.symm hpresent))
  · refine ⟨by rw [hname]; exact hframe, fun hmoved => ?_⟩
    rw [hname] at hmoved
    exact absurd (hgone.trans hnone.symm) hmoved

/-- **One update over the file store**: plain repositories stay plain, and the
update is disciplined unless it deletes a ref that should not exist. -/
theorem fs_step (hgit : UpdateRefContract runGit view plain) (repoId : RepoId) {s : σ}
    (hs : plain s) {u : RefUpdate} (hunder : startsWith u.name "refs/" = true) :
    plain (updateStep printable (fsRefStore printable runGit) repoId s u) ∧
      (Disciplined view repoId s u
          (updateStep printable (fsRefStore printable runGit) repoId s u) ↔
        ¬(ZeroToZero u ∧ view s repoId u.name ≠ none)) := by
  by_cases hvalid : Valid u
  · obtain ⟨name, old, new, hname, hold, hnew⟩ := hvalid.typed
    rw [updateStep_of_valid repoId s hname hold hnew]
    rw [hname] at hunder
    by_cases hdelete : u.isDelete = true
    · rw [if_pos hdelete]
      by_cases hcreate : u.isCreate = true
      · obtain rfl : old = zeroOid := (isCreate_iff hold).mp hcreate
        obtain ⟨hplain, hiff⟩ := fs_deleteZero hgit repoId hs hname hunder hcreate
        have hzero : ZeroToZero u := ⟨hcreate, hdelete, hvalid.1⟩
        refine ⟨hplain, hiff.trans ?_⟩
        simp [hzero]
      · obtain ⟨hplain, hdisciplined⟩ := fs_delete hgit repoId hs hname hold hunder hcreate
        exact ⟨hplain, iff_of_true hdisciplined fun hbad => hcreate hbad.1.1⟩
    · rw [if_neg hdelete]
      have hnonzero : new ≠ zeroOid := fun h => hdelete ((isDelete_iff hnew).mpr h)
      obtain ⟨hplain, hdisciplined⟩ := fs_update hgit repoId hs hname hold hunder hnonzero
      exact ⟨hplain, iff_of_true hdisciplined fun hbad => hdelete hbad.1.2.1⟩
  · obtain ⟨reason, hrefused⟩ : ∃ reason,
        applyRefUpdate printable (fsRefStore printable runGit) repoId.text s u =
          (.error reason, s) := applyRefUpdate_of_invalid repoId s hvalid
    refine ⟨?_, iff_of_true (disciplined_of_invalid view repoId s hvalid)
      fun hbad => hvalid hbad.1.valid⟩
    rw [updateStep, hrefused]
    exact hs

end Fs

/-! ### The in-process store -/

/-- The in-process store compares before it deletes. -/
theorem memView_casDelete (refs : MemRefs) (repoId : RepoId) (name : RefName) (old : Oid) :
    memView (memRefStore.casDelete refs repoId name (some old)).2 repoId name.text =
      if memView refs repoId name.text = some old then none
      else memView refs repoId name.text := by
  obtain ⟨current, hcurrent⟩ : ∃ current, refs (repoId.text, name.text) = current := ⟨_, rfl⟩
  cases current with
  | none => simp [memRefStore, memCasDelete, memView, hcurrent]
  | some c =>
      by_cases hc : c = old
      · simp [memRefStore, memCasDelete, memView, hcurrent, hc]
      · simp [memRefStore, memCasDelete, memView, hcurrent, hc, Ne.symm hc]

/-- It compares before it updates, and takes `None` for an absent ref. -/
theorem memView_casUpdate_of_ne (refs : MemRefs) (repoId : RepoId) (name : RefName)
    (expected : Option Oid) (new : Oid)
    (hmoved : memView (memRefStore.casUpdate refs repoId name expected new).2 repoId name.text ≠
      memView refs repoId name.text) : memView refs repoId name.text = expected := by
  simp only [memRefStore, memCasUpdate, memView] at hmoved ⊢
  cases expected with
  | none =>
      cases hcurrent : refs (repoId.text, name.text) with
      | none => rfl
      | some c => simp [hcurrent] at hmoved
  | some e =>
      cases hcurrent : refs (repoId.text, name.text) with
      | none => simp [hcurrent] at hmoved
      | some c =>
          by_cases he : e = c
          · rw [he]
          · simp [hcurrent, he] at hmoved

/-- **One update over the in-process store**: it is disciplined unless it takes
the zero id for the stored value of a ref. -/
theorem mem_step (printable : Char → Bool) (repoId : RepoId) (refs : MemRefs) (u : RefUpdate) :
    Disciplined memView repoId refs u (updateStep printable memRefStore repoId refs u) ↔
      ¬(ZeroToZero u ∧ memView refs repoId u.name = some zeroOid) := by
  have hframe : ChangesOnly memView repoId u.name refs
      (updateStep printable memRefStore repoId refs u) :=
    fun repo other hother => view_applyRefUpdate memRefStore_changesOnlyNamed repoId refs u hother
  by_cases hvalid : Valid u
  · obtain ⟨name, old, new, hname, hold, hnew⟩ := hvalid.typed
    have hstate : updateStep printable memRefStore repoId refs u =
        if u.isDelete then (memRefStore.casDelete refs repoId name (some old)).2
        else (memRefStore.casUpdate refs repoId name (if u.isCreate then none else some old)
          new).2 := updateStep_of_valid repoId refs hname hold hnew
    by_cases hdelete : u.isDelete = true
    · rw [if_pos hdelete] at hstate
      have hvalue := memView_casDelete refs repoId name old
      rw [← hstate] at hvalue
      -- a delete that is a create as well asks for the zero id
      by_cases hcreate : u.isCreate = true
      · obtain rfl : old = zeroOid := (isCreate_iff hold).mp hcreate
        have hzero : ZeroToZero u := ⟨hcreate, hdelete, hvalid.1⟩
        constructor
        · rintro ⟨-, hmatch⟩ ⟨-, hstored⟩
          rw [hname] at hmatch hstored
          rw [if_pos hstored] at hvalue
          rw [hvalue, hstored, if_pos hcreate] at hmatch
          cases hmatch (by simp)
        · intro hne
          refine ⟨hframe, fun hmoved => ?_⟩
          have hstored : ¬ memView refs repoId name.text = some zeroOid := fun h =>
            hne ⟨hzero, hname ▸ h⟩
          rw [hname, hvalue, if_neg hstored] at hmoved
          exact absurd rfl hmoved
      · refine iff_of_true ⟨hframe, fun hmoved => ?_⟩ fun hbad => hcreate hbad.1.1
        rw [hname] at hmoved ⊢
        rw [hvalue] at hmoved
        split_ifs at hmoved with hstored
        · rw [hstored, if_neg hcreate, hold]
          rfl
        · exact absurd rfl hmoved
    · rw [if_neg hdelete] at hstate
      refine iff_of_true ⟨hframe, fun hmoved => ?_⟩ fun hbad => hdelete hbad.1.2.1
      rw [hname, hstate] at hmoved
      rw [hname, memView_casUpdate_of_ne refs repoId name _ new hmoved]
      split_ifs
      · rfl
      · rw [hold]
        rfl
  · exact iff_of_true (disciplined_of_invalid memView repoId refs hvalid)
      fun hbad => hvalid hbad.1.valid

/-! ### A git for repositories without symbolic refs -/

/-- An id given on the command line. -/
def argOid (s : String) : Option Oid :=
  if h : validOid s = true then some ⟨s, h⟩ else none

/-- The commands of the file store, on a map of refs. -/
def plainGit : GitRunner MemRefs := fun refs repoId args =>
  match args with
  | ["rev-parse", "--verify", "--end-of-options", name] =>
      match refs (repoId.text, name) with
      | some oid => (.ok (0, asBytes (oid.text ++ "\n"), []), refs)
      | none => (.ok (128, [], asBytes "fatal: Needed a single revision\n"), refs)
  | ["update-ref", "--end-of-options", name, new, old] =>
      match argOid new, argOid old with
      | some new, some old =>
          if refs (repoId.text, name) = expectedValue old then
            (.ok (0, [], []), fun k => if k = (repoId.text, name) then
              expectedValue new else refs k)
          else
            (.ok (128, [], asBytes "fatal: cannot lock ref\n"), refs)
      | _, _ => (.ok (128, [], asBytes "fatal: not a valid SHA1\n"), refs)
  | ["update-ref", "-d", "--end-of-options", name, old] =>
      match argOid old with
      | some old =>
          if old = zeroOid ∨ refs (repoId.text, name) = some old then
            (.ok (0, [], []), fun k => if k = (repoId.text, name) then none else refs k)
          else
            (.ok (1, [], asBytes "error: cannot lock ref\n"), refs)
      | none => (.ok (128, [], asBytes "fatal: not a valid old SHA1\n"), refs)
  | _ => (.ok (129, [], []), refs)

@[simp] theorem argOid_text (o : Oid) : argOid o.text = some o := by
  simp [argOid, o.valid]

/-- Setting one entry of the map changes only that ref. -/
theorem changesOnly_set (refs : MemRefs) (repoId : RepoId) (name : String) (v : Option Oid) :
    ChangesOnly memView repoId name refs
      (fun k => if k = (repoId.text, name) then v else refs k) := by
  intro repo other hother
  refine if_neg fun heq => hother ?_
  obtain ⟨hrepo, hname⟩ := Prod.mk.inj heq
  exact ⟨RepoId.ext hrepo, hname⟩

theorem plainGit_contract : UpdateRefContract plainGit memView (fun _ => True) where
  revParse := by
    intro refs repoId args
    unfold plainGit
    split
    · split <;> rfl
    · rename_i heq
      simp at heq
    · rename_i heq
      simp at heq
    · rfl
  update := by
    intro refs repoId name new old _ _ _
    simp only [plainGit, argOid_text]
    split_ifs with hexpected
    · exact ⟨trivial, changesOnly_set refs repoId name.text _, fun _ => hexpected⟩
    · exact ⟨trivial, fun _ _ _ => rfl, fun hmoved => absurd rfl hmoved⟩
  delete := by
    intro refs repoId name old _ _ hnonzero
    simp only [plainGit, argOid_text, hnonzero, false_or]
    split_ifs with hexpected
    · exact ⟨trivial, changesOnly_set refs repoId name.text _, fun _ => hexpected⟩
    · exact ⟨trivial, fun _ _ _ => rfl, fun hmoved => absurd rfl hmoved⟩
  deleteZero := by
    intro refs repoId name _ _
    simp only [plainGit, argOid_text, true_or, if_true]
    exact ⟨trivial, changesOnly_set refs repoId name.text _, if_pos rfl⟩

/-! ### Runs -/

/-- **When runs of pushes are disciplined.** Over the file store every update of a run is
disciplined exactly when no update from nothing to nothing names a ref that is present; over the
in-process store, exactly when none names a ref whose stored value is the zero id. The updates are
any list of names under `refs/`, taken one after the other from any state. Git itself appears as
`UpdateRefContract`, which speaks of repositories without symbolic refs. -/
theorem push_updates_disciplined_iff {σ : Type} (printable : Char → Bool) (runGit : GitRunner σ)
    (view : σ → RepoId → String → Option Oid) (plain : σ → Prop)
    (hgit : UpdateRefContract runGit view plain) (repoId : RepoId) (updates : List RefUpdate)
    (hnames : ∀ u ∈ updates, startsWith u.name "refs/" = true) (s : σ) (hs : plain s)
    (refs : MemRefs) :
    (EveryStep (updateStep printable (fsRefStore printable runGit) repoId)
        (fun s u => Disciplined view repoId s u
          (updateStep printable (fsRefStore printable runGit) repoId s u)) s updates ↔
      EveryStep (updateStep printable (fsRefStore printable runGit) repoId)
        (fun s u => ¬(ZeroToZero u ∧ view s repoId u.name ≠ none)) s updates) ∧
    (EveryStep (updateStep printable memRefStore repoId)
        (fun refs u => Disciplined memView repoId refs u
          (updateStep printable memRefStore repoId refs u)) refs updates ↔
      EveryStep (updateStep printable memRefStore repoId)
        (fun refs u => ¬(ZeroToZero u ∧ memView refs repoId u.name = some zeroOid))
        refs updates) := by
  constructor
  · exact everyStep_congr (fun s hs u hu => (fs_step hgit repoId hs (hnames u hu)).1)
      (fun s hs u hu => (fs_step hgit repoId hs (hnames u hu)).2) hs
  · exact everyStep_congr (I := fun _ => True) (fun _ _ _ _ => trivial)
      (fun refs _ u _ => mem_step printable repoId refs u) trivial

/-- One branch, `refs/heads/main`, in the demo repository. -/
def mainOnly : MemRefs := fun k =>
  if k = ("demo-1", "refs/heads/main") then some ⟨demoOid, by decide⟩ else none

/-- A delete of the branch under its current value, then a delete of nothing. -/
theorem push_updates_disciplined_deletes :
    EveryStep (updateStep printableAscii (fsRefStore printableAscii plainGit) demoRepo)
        (fun refs u => Disciplined memView demoRepo refs u
          (updateStep printableAscii (fsRefStore printableAscii plainGit) demoRepo refs u))
        mainOnly
        [⟨demoOid, RefUpdate.zero, "refs/heads/main"⟩,
          ⟨RefUpdate.zero, RefUpdate.zero, "refs/heads/main"⟩] ∧
      EveryStep (updateStep printableAscii memRefStore demoRepo)
        (fun refs u => Disciplined memView demoRepo refs u
          (updateStep printableAscii memRefStore demoRepo refs u))
        mainOnly
        [⟨demoOid, RefUpdate.zero, "refs/heads/main"⟩,
          ⟨RefUpdate.zero, RefUpdate.zero, "refs/heads/main"⟩] :=
  have h := push_updates_disciplined_iff printableAscii plainGit memView (fun _ => True)
    plainGit_contract demoRepo
    [⟨demoOid, RefUpdate.zero, "refs/heads/main"⟩,
      ⟨RefUpdate.zero, RefUpdate.zero, "refs/heads/main"⟩]
    (by decide) mainOnly trivial mainOnly
  ⟨h.1.mpr ⟨fun hbad => absurd hbad.1.1 (by decide),
      fun hbad => absurd hbad.2 (by decide), trivial⟩,
    h.2.mpr ⟨fun hbad => absurd hbad.1.1 (by decide),
      fun hbad => absurd hbad.2 (by decide), trivial⟩⟩

/-- A push of one update from nothing to nothing. -/
def zeroToZeroBody : List UInt8 :=
  writeFlush (writeData [] (asBytes (RefUpdate.zero ++ " " ++ RefUpdate.zero ++
    " refs/heads/main\x00report-status delete-refs\n")))

/-- Over the file store it deletes a branch that is present. -/
theorem push_zero_to_zero_deletes :
    parseReceivePackBody zeroToZeroBody = some
        { updates := [⟨RefUpdate.zero, RefUpdate.zero, "refs/heads/main"⟩]
          hasReportStatus := true, hasSideband64k := false, hasUnsupported := false
          pack := [] } ∧
      ¬ EveryStep (updateStep printableAscii (fsRefStore printableAscii plainGit) demoRepo)
        (fun refs u => Disciplined memView demoRepo refs u
          (updateStep printableAscii (fsRefStore printableAscii plainGit) demoRepo refs u))
        mainOnly [⟨RefUpdate.zero, RefUpdate.zero, "refs/heads/main"⟩] := by
  constructor
  · decide +kernel
  · rintro ⟨⟨-, hmatch⟩, -⟩
    have hnone := hmatch (by decide)
    revert hnone
    decide

end SmartHttp
end Artifacts
