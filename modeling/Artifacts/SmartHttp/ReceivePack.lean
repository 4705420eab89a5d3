import Artifacts.GitWire.Proto
import Artifacts.Refs.Store

/-!
# The native receive-pack handler

`nativeReceivePackResponse` unpacks the pack of a push, checks that the new tips
are connected, applies the ref updates one after another, and frames a report of
one line per update.  What the handler asks of the outside (the pack indexers,
`git rev-list`, an environment variable) is a `PackEnv`; the refs are a
`RefStore`.

* `Valid` is what passes the validators, and `CasApplied` what the store is asked and answers.
* `applyRefUpdate_ok_iff` says when an update is applied, in these two.

Errors of the store are texts in the report and do not end the loop.
-/

namespace Artifacts
namespace SmartHttp

open GitWire Pkt Refs Rust

/-- The answers of the handler's surroundings to one push. They are whatever they are: the pack may
be refused, and the check of the tips may fail. -/
structure PackEnv where
  /-- `ARTIFACTS_NATIVE_INDEX_PACK` is set and not `0`. -/
  preferNativeIndex : Bool
  /-- `ObjectStore::ingest_pack`. -/
  ingestPack : RepoId → List UInt8 → Result Unit
  /-- `unpack_objects_via_subprocess`. -/
  unpackObjects : List UInt8 → Result Unit
  /-- `git_cmd::rev_list_check_connected`: exit code and trimmed stderr. -/
  revListCheckConnected : List String → Result (Int × String)

structure Response where
  status : Nat
  contentType : String
  cacheControl : String
  body : List UInt8
  deriving DecidableEq, Repr

/-- `unpack_outcome`; the outer error leaves the handler. -/
def unpackOutcome (env : PackEnv) (repoId : String) (req : ReceivePackRequest) :
    Result (Except String Unit) :=
  if req.pack.isEmpty then
    .ok (.ok ())
  else if env.preferNativeIndex then
    match RepoId.tryFrom repoId with
    | .error e => .error e
    | .ok repoIdTyped =>
        match env.ingestPack repoIdTyped req.pack with
        | .ok _ => .ok (.ok ())
        | .error _ => .ok ((env.unpackObjects req.pack).mapError Error.display)
  else
    .ok ((env.unpackObjects req.pack).mapError Error.display)

def unpackLine : Except String Unit → String
  | .ok _ => "unpack ok\n"
  | .error msg => "unpack " ++ msg ++ "\n"

/-- `new_tips`: the new values of the updates that are no deletes. -/
def newTips (req : ReceivePackRequest) : List String :=
  (req.updates.filter fun u => !u.isDelete).map RefUpdate.new

/-- `connectivity`, with the detail that goes to the server log. -/
def connectivity (env : PackEnv) (unpack : Except String Unit) (req : ReceivePackRequest) :
    Except String Unit :=
  match unpack with
  | .ok _ =>
      if (newTips req).isEmpty then
        .ok ()
      else
        match env.revListCheckConnected (newTips req) with
        | .ok (0, _) => .ok ()
        | .ok (code, stderr) => .error ("rev-list exited " ++ toString code ++ ": " ++ stderr)
        | .error e => .error ("connectivity check could not run: " ++ e.display)
  | .error _ => .ok ()

section Updates

variable {σ : Type} (printable : Char → Bool) (store : RefStore σ) (repoId : String)

/-- `apply_ref_update`: the outcome, and the refs after it. -/
def applyRefUpdate (s : σ) (u : RefUpdate) : Except String Unit × σ :=
  match RepoId.tryFrom repoId with
  | .error e => (.error ("invalid repo id: " ++ e.display), s)
  | .ok repoIdTyped =>
      match RefName.tryFrom printable u.name with
      | .error e => (.error ("invalid ref name: " ++ e.display), s)
      | .ok refNameTyped =>
          match Oid.tryFrom printable u.old with
          | .error e => (.error ("invalid old oid: " ++ e.display), s)
          | .ok oldTyped =>
              match Oid.tryFrom printable u.new with
              | .error e => (.error ("invalid new oid: " ++ e.display), s)
              | .ok newTyped =>
                  let (outcome, s') :=
                    if u.isDelete then
                      store.casDelete s repoIdTyped refNameTyped (some oldTyped)
                    else
                      store.casUpdate s repoIdTyped refNameTyped
                        (if u.isCreate then none else some oldTyped) newTyped
                  match outcome with
                  | .ok .updated => (.ok (), s')
                  | .ok (.conflict _) => (.error "non-fast-forward", s')
                  | .error e => (.error ("error " ++ e.display), s')

/-- One report line. -/
def updateLine (u : RefUpdate) : Except String Unit → String
  | .ok _ => "ok " ++ u.name ++ "\n"
  | .error reason => "ng " ++ u.name ++ " " ++ reason ++ "\n"

/-- The compare-and-swap loop: the lines in order, and the refs after it. -/
def applyLines : σ → List RefUpdate → List String × σ
  | s, [] => ([], s)
  | s, u :: us =>
      let (outcome, s') := applyRefUpdate printable store repoId s u
      let (lines, s'') := applyLines s' us
      (updateLine u outcome :: lines, s'')

/-- The lines behind the unpack line, and the refs after them. -/
def updateLines (env : PackEnv) (unpack : Except String Unit) (req : ReceivePackRequest)
    (s : σ) : List String × σ :=
  match unpack with
  | .ok _ =>
      match connectivity env unpack req with
      | .error _ =>
          (req.updates.map fun u => "ng " ++ u.name ++ " missing necessary objects\n", s)
      | .ok _ => applyLines printable store repoId s req.updates
  | .error _ => (req.updates.map fun u => "ng " ++ u.name ++ " unpacker error\n", s)

end Updates

/-- The report: every line as a pkt-line, and a flush-pkt. -/
def buildReport (lines : List String) : List UInt8 :=
  writeFlush ((lines.map asBytes).foldl writeData [])

/-- `CHUNK`: what fits a frame besides the byte of the side band. -/
def sidebandChunk : Nat := pktLineMaxPayload - 1

/-- The report in band 1, if the client asked for side bands. -/
def frameReport (sideband : Bool) (report : List UInt8) : List UInt8 :=
  if sideband then
    writeFlush (((chunks sidebandChunk report).map fun chunk => 1 :: chunk).foldl writeData [])
  else
    report

/-- `native_receive_pack_response`: the pack, the check of the new tips, the updates one after the
other, and the report. A pack that cannot be unpacked is reported; an error is left for an id that
no repository has. -/
def nativeReceivePackResponse {σ : Type} (printable : Char → Bool) (env : PackEnv)
    (store : RefStore σ) (repoId : String) (req : ReceivePackRequest) (s : σ) :
    Result Response × σ :=
  match unpackOutcome env repoId req with
  | .error e => (.error e, s)
  | .ok unpack =>
      let (lines, s') := updateLines printable store repoId env unpack req s
      (.ok { status := 200
             contentType := "application/x-git-receive-pack-result"
             cacheControl := "no-cache"
             body := frameReport req.hasSideband64k (buildReport (unpackLine unpack :: lines)) },
        s')

/-- The requests of a body that `pack_handler` serves natively; `none` falls
through to `git receive-pack`. -/
def nativeRequest (body : List UInt8) : Option ReceivePackRequest :=
  match parseReceivePackBody body with
  | some req => if req.isSimple then some req else none
  | none => none

/-! ### One update -/

section OneUpdate

variable {σ : Type} {printable : Char → Bool} {store : RefStore σ}

/-- The store was asked to apply the update to the refs `s`, and did. -/
def CasApplied (store : RefStore σ) (repoId : RepoId) (u : RefUpdate) (s : σ) : Prop :=
  ∃ (name : RefName) (old new : Oid), u.name = name.text ∧ u.old = old.text ∧ u.new = new.text ∧
    if u.isDelete then (store.casDelete s repoId name (some old)).1 = .ok .updated
    else (store.casUpdate s repoId name (if u.isCreate then none else some old) new).1 =
      .ok .updated

/-- The update passes the validators of `apply_ref_update`. -/
def Valid (u : RefUpdate) : Prop :=
  validRefName u.name = true ∧ validOid u.old = true ∧ validOid u.new = true

instance (u : RefUpdate) : Decidable (Valid u) :=
  inferInstanceAs (Decidable (_ ∧ _ ∧ _))

/-- An update that passes the validators reaches the store. -/
theorem applyRefUpdate_of_valid (repoId : RepoId) (s : σ) {u : RefUpdate} {name : RefName}
    {old new : Oid} (hname : u.name = name.text) (hold : u.old = old.text)
    (hnew : u.new = new.text) :
    applyRefUpdate printable store repoId.text s u =
      let result :=
        if u.isDelete then store.casDelete s repoId name (some old)
        else store.casUpdate s repoId name (if u.isCreate then none else some old) new
      match result.1 with
      | .ok .updated => (.ok (), result.2)
      | .ok (.conflict _) => (.error "non-fast-forward", result.2)
      | .error e => (.error ("error " ++ e.display), result.2) := by
  unfold applyRefUpdate
  simp only [hname, hold, hnew, RepoId.tryFrom_text, RefName.tryFrom_text, Oid.tryFrom_text]

/-- An update that fails a validator changes nothing and is refused. -/
theorem applyRefUpdate_of_invalid (repoId : RepoId) (s : σ) {u : RefUpdate} (h : ¬ Valid u) :
    ∃ reason, applyRefUpdate printable store repoId.text s u = (.error reason, s) := by
  unfold applyRefUpdate
  rw [RepoId.tryFrom_text]
  simp only []
  split
  · exact ⟨_, rfl⟩
  · rename_i name hname
    split
    · exact ⟨_, rfl⟩
    · rename_i old hold
      split
      · exact ⟨_, rfl⟩
      · rename_i new hnew
        refine absurd ⟨?_, ?_, ?_⟩ h
        · rw [RefName.tryFrom_eq_ok.mp hname]
          exact name.valid
        · rw [Oid.tryFrom_eq_ok.mp hold]
          exact old.valid
        · rw [Oid.tryFrom_eq_ok.mp hnew]
          exact new.valid

/-- A valid update, with its fields as typed values. -/
theorem Valid.typed {u : RefUpdate} (h : Valid u) :
    ∃ (name : RefName) (old new : Oid), u.name = name.text ∧ u.old = old.text ∧
      u.new = new.text :=
  ⟨⟨u.name, h.1⟩, ⟨u.old, h.2.1⟩, ⟨u.new, h.2.2⟩, rfl, rfl, rfl⟩

theorem CasApplied.valid {repoId : RepoId} {u : RefUpdate} {s : σ}
    (h : CasApplied store repoId u s) : Valid u := by
  obtain ⟨name, old, new, hname, hold, hnew, -⟩ := h
  refine ⟨?_, ?_, ?_⟩
  · rw [hname]
    exact name.valid
  · rw [hold]
    exact old.valid
  · rw [hnew]
    exact new.valid

/-- The typed values of an update are determined by its text. -/
theorem casApplied_iff_of_valid {repoId : RepoId} {u : RefUpdate} {s : σ} {name : RefName}
    {old new : Oid} (hname : u.name = name.text) (hold : u.old = old.text)
    (hnew : u.new = new.text) :
    CasApplied store repoId u s ↔
      (if u.isDelete then store.casDelete s repoId name (some old)
        else store.casUpdate s repoId name (if u.isCreate then none else some old) new).1 =
        .ok .updated := by
  constructor
  · rintro ⟨name', old', new', hname', hold', hnew', happlied⟩
    obtain rfl : name = name' := RefName.ext (hname.symm.trans hname')
    obtain rfl : old = old' := Oid.ext (hold.symm.trans hold')
    obtain rfl : new = new' := Oid.ext (hnew.symm.trans hnew')
    split_ifs at happlied ⊢ <;> exact happlied
  · intro h
    refine ⟨name, old, new, hname, hold, hnew, ?_⟩
    split_ifs at h ⊢ <;> exact h

/-- **Specification of `apply_ref_update`.** It succeeds exactly when the store
applied the update. -/
theorem applyRefUpdate_ok_iff (repoId : RepoId) (s : σ) (u : RefUpdate) :
    (applyRefUpdate printable store repoId.text s u).1 = .ok () ↔
      CasApplied store repoId u s := by
  by_cases hvalid : Valid u
  · obtain ⟨name, old, new, hname, hold, hnew⟩ := hvalid.typed
    rw [applyRefUpdate_of_valid repoId s hname hold hnew,
      casApplied_iff_of_valid hname hold hnew]
    simp only []
    split
    · rename_i h
      simp [h]
    · rename_i h
      simp [h]
    · rename_i h
      simp [h]
  · obtain ⟨reason, hrefused⟩ : ∃ reason,
        applyRefUpdate printable store repoId.text s u = (.error reason, s) :=
      applyRefUpdate_of_invalid repoId s hvalid
    rw [hrefused]
    constructor
    · intro h
      cases h
    · intro h
      exact absurd h.valid hvalid

/-- **Frame of `apply_ref_update`.** -/
theorem view_applyRefUpdate {view : σ → RepoId → String → Option Oid}
    (hframe : ChangesOnlyNamed store view) (repoId : RepoId) (s : σ) (u : RefUpdate)
    {repo : RepoId} {name : String} (hother : ¬(repo = repoId ∧ name = u.name)) :
    view (applyRefUpdate printable store repoId.text s u).2 repo name = view s repo name := by
  by_cases hvalid : Valid u
  · obtain ⟨refName, old, new, hname, hold, hnew⟩ := hvalid.typed
    rw [hname] at hother
    have hkeep : view (if u.isDelete then store.casDelete s repoId refName (some old)
        else store.casUpdate s repoId refName (if u.isCreate then none else some old) new).2
        repo name = view s repo name := by
      split_ifs
      · exact hframe.casDelete _ _ _ _ _ _ hother
      · exact hframe.casUpdate _ _ _ _ _ _ _ hother
      · exact hframe.casUpdate _ _ _ _ _ _ _ hother
    rw [applyRefUpdate_of_valid repoId s hname hold hnew]
    simp only []
    split <;> exact hkeep
  · obtain ⟨reason, hrefused⟩ : ∃ reason,
        applyRefUpdate printable store repoId.text s u = (.error reason, s) :=
      applyRefUpdate_of_invalid repoId s hvalid
    rw [hrefused]

end OneUpdate

end SmartHttp
end Artifacts
