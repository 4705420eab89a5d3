import Artifacts.GitWire.LsRefs
import Artifacts.GitWire.PushBody
import Artifacts.SmartHttp.PushReport
import Artifacts.SmartHttp.UpdateDiscipline

/-!
# The remote as its clients see it

A client writes a push or an ls-refs request into bytes and reads the answer out of bytes;
between the two the handlers parse, compare and swap, and frame.  `RefMap` is the remote
without all that: a value for each ref, pushes that take effect update by update, and
listings of what is there.  Over any backend that compares and swaps and lists what it
holds, a run over the wire tells its clients what a run of the `RefMap` says.

A backend may refuse a change although the ref has the old value that the client gave:
git does so when the name is a directory of another ref, or when the object is missing or
of the wrong type.  Which changes it may refuse is a parameter, `Refusals`; what it must
never do is to report a change that it has not made, or to make one that it does not report.
-/

namespace Artifacts
namespace SmartHttp

open Foundation GitWire Pkt Refs Rust

/-! ### The abstract remote -/

/-- The refs of every repository. -/
abbrev RefMap := RepoId → String → Option Oid

def RefMap.set (m : RefMap) (repoId : RepoId) (name : String) (value : Option Oid) : RefMap :=
  fun repo other => if repo = repoId ∧ other = name then value else m repo other

/-- The changes that may be refused although the ref has its old value: the refs there are,
the ref, and its new value. -/
abbrev Refusals := RefMap → RepoId → String → Option Oid → Prop

/-- One ref is compared and swapped: is the change made, and what are the refs then? -/
inductive Swaps (refusals : Refusals) (repoId : RepoId) (name : String)
    (expected value : Option Oid) (m : RefMap) : Bool → RefMap → Prop
  | made : m repoId name = expected →
      Swaps refusals repoId name expected value m true (m.set repoId name value)
  | refused : (m repoId name = expected → refusals m repoId name value) →
      Swaps refusals repoId name expected value m false m

/-- The value that the client saw. -/
def oldValue (u : RefUpdate) : Option Oid := if u.isCreate then none else argOid u.old

/-- The value that the client wants. -/
def newValue (u : RefUpdate) : Option Oid := if u.isDelete then none else argOid u.new

/-- The updates of a push, one after the other: which of them are made, and the refs then. -/
inductive Pushes (refusals : Refusals) (repoId : RepoId) :
    RefMap → List RefUpdate → List Bool → RefMap → Prop
  | done (m : RefMap) : Pushes refusals repoId m [] [] m
  | update {m m' m'' : RefMap} {u : RefUpdate} {us : List RefUpdate} {made : Bool}
      {statuses : List Bool} :
      Swaps refusals repoId u.name (oldValue u) (newValue u) m made m' →
      Pushes refusals repoId m' us statuses m'' →
      Pushes refusals repoId m (u :: us) (made :: statuses) m''

section Unique

variable {refusals : Refusals} {repoId : RepoId}

theorem Swaps.unique (hnever : ∀ m repoId name value, ¬ refusals m repoId name value)
    {name : String} {expected value : Option Oid} {m m₁ m₂ : RefMap} {made₁ made₂ : Bool}
    (h₁ : Swaps refusals repoId name expected value m made₁ m₁)
    (h₂ : Swaps refusals repoId name expected value m made₂ m₂) : made₁ = made₂ ∧ m₁ = m₂ := by
  cases h₁ with
  | made hold =>
      cases h₂ with
      | made _ => exact ⟨rfl, rfl⟩
      | refused hrefused => exact absurd (hrefused hold) (hnever _ _ _ _)
  | refused hrefused =>
      cases h₂ with
      | made hold => exact absurd (hrefused hold) (hnever _ _ _ _)
      | refused _ => exact ⟨rfl, rfl⟩

/-- Where nothing is refused out of turn, the refs alone decide what a push does. -/
theorem Pushes.unique (hnever : ∀ m repoId name value, ¬ refusals m repoId name value)
    {m m₁ m₂ : RefMap} {us : List RefUpdate} {statuses₁ statuses₂ : List Bool}
    (h₁ : Pushes refusals repoId m us statuses₁ m₁)
    (h₂ : Pushes refusals repoId m us statuses₂ m₂) : statuses₁ = statuses₂ ∧ m₁ = m₂ := by
  induction h₁ generalizing statuses₂ m₂ with
  | done m =>
      cases h₂
      exact ⟨rfl, rfl⟩
  | update hswap _ ih =>
      cases h₂ with
      | update hswap' hrest =>
          obtain ⟨rfl, rfl⟩ := hswap.unique hnever hswap'
          obtain ⟨rfl, rfl⟩ := ih hrest
          exact ⟨rfl, rfl⟩

end Unique

/-! ### The backend -/

/-- What the handlers get at the refs through, and what a reader makes of its state: a map of refs,
and what `HEAD` is over it. -/
structure RefBackend (σ : Type) where
  store : RefStore σ
  lister : σ → RefLister
  view : σ → RefMap
  /-- What `HEAD` is when a repository has these refs. -/
  headOf : (String → Option Oid) → HeadState
  /-- The changes that the store may refuse for a reason of its own. -/
  mayRefuse : Refusals

/-- The store says that the change is made, or that the ref is in conflict with it. -/
inductive CasSays : Bool → Result CasOutcome → Prop
  | updated : CasSays true (.ok .updated)
  | conflict (current : Option Oid) : CasSays false (.ok (.conflict current))

/-- What a method of the store has done to one ref: the state is still sane, and between the two
maps lies a compare and swap that the answer speaks the truth of. -/
structure Swapped {σ : Type} (backend : RefBackend σ) (sane : σ → Prop) (s : σ) (repoId : RepoId)
    (name : String) (expected value : Option Oid) (result : Result CasOutcome × σ) : Prop where
  sane : sane result.2
  swaps : ∃ made, CasSays made result.1 ∧
    Swaps backend.mayRefuse repoId name expected value (backend.view s) made (backend.view result.2)

/-- Each method does on a sane state what it is for: compare and swap of one ref, a listing of the
refs that have some prefix, the state of `HEAD`. Only names under `refs/` and values other than the
zero id are asked about, and listings with a prefix at least. -/
structure Transactional {σ : Type} (backend : RefBackend σ) (sane : σ → Prop) : Prop where
  casUpdate : ∀ s repoId (name : RefName) expected (new : Oid), sane s →
    startsWith name.text "refs/" = true → expected ≠ some zeroOid → new ≠ zeroOid →
    Swapped backend sane s repoId name.text expected (some new)
      (backend.store.casUpdate s repoId name expected new)
  casDelete : ∀ s repoId (name : RefName) (old : Oid), sane s →
    startsWith name.text "refs/" = true → old ≠ zeroOid →
    Swapped backend sane s repoId name.text (some old) none
      (backend.store.casDelete s repoId name (some old))
  list : ∀ s repoId prefixes, sane s → prefixes ≠ [] →
    ∃ entries, (backend.lister s).list repoId prefixes = .ok entries ∧
      (entries.map RefEntry.key).Nodup ∧
      ∀ (name : RefName) oid, (∃ e ∈ entries, e.name = name ∧ e.oid = oid) ↔
        backend.view s repoId name.text = some oid ∧
          ∃ p ∈ prefixes, p.toList <+: name.text.toList
  readHead : ∀ s repoId, sane s →
    (backend.lister s).readHead repoId = .ok (backend.headOf (backend.view s repoId))

/-! ### The wire -/

/-- What a client asks for; of a push the surroundings answer while it is served. -/
inductive Ask where
  | push (env : PackEnv) (push : Push)
  | list (args : LsRefsArgs)

structure Visit where
  repoId : RepoId
  ask : Ask

/-- The body of the answer, from the body of the request; none if the request falls
through to git. -/
def serveRefs {σ : Type} (printable : Char → Bool) (backend : RefBackend σ) (s : σ) (v : Visit) :
    Option (List UInt8) × σ :=
  match v.ask with
  | .push env push =>
      match nativeRequest push.body with
      | none => (none, s)
      | some req =>
          match nativeReceivePackResponse printable env backend.store v.repoId.text req s with
          | (.error _, s') => (none, s')
          | (.ok response, s') => (some response.body, s')
  | .list args =>
      match parseLsRefsOnly ((lsRefsRequest args).flatMap encode) with
      | none => (none, s)
      | some args' =>
          match nativeLsRefsResponse v.repoId.text (backend.lister s) args' with
          | .error _ => (none, s)
          | .ok response => (some response.body, s)

/-- What the line of an update says of it. -/
def statusOf (u : RefUpdate) (line : List UInt8) : Option Bool :=
  if line = asBytes ("ok " ++ u.name ++ "\n") then some true
  else if (asBytes ("ng " ++ u.name ++ " ")).isPrefixOf line then some false
  else none

def readStatuses : List RefUpdate → List (Except PktError PktLine) → Option (List Bool)
  | [], [.ok .flush] => some []
  | u :: us, .ok (.data d) :: rest =>
      (statusOf u d).bind fun status => (readStatuses us rest).map (status :: ·)
  | _, _ => none

/-- What a client reads out of the answer to its push: for each update, is it applied? -/
def readReport (push : Push) (body : List UInt8) : Option (List Bool) :=
  match (receivedReport (decide ("side-band-64k" ∈ push.capabilities)) body).map pktIter with
  | some (.ok (.data _) :: lines) => readStatuses push.updates lines
  | _ => none

/-- A row, from the line it stands on. -/
def readRow (line : List UInt8) : Option LsRefsRow :=
  (lineText line).bind fun s =>
    match splitn 3 s ' ' with
    | [oid, name] => some ⟨oid, name, none⟩
    | [oid, name, extra] => some ⟨oid, name, some (" " ++ extra)⟩
    | _ => none

def readRows : List (Except PktError PktLine) → Option (List LsRefsRow)
  | [.ok .flush] => some []
  | .ok (.data d) :: rest => (readRow d).bind fun row => (readRows rest).map (row :: ·)
  | _ => none

/-! ### One update -/

section Updates

variable {σ : Type} {printable : Char → Bool} {backend : RefBackend σ} {sane : σ → Prop}
  {repoId : RepoId}

/-- The longest name of which every row fits a pkt-line. -/
def maxListedName : Nat := 65426

/-- An update as git sends it: of a valid name under `refs/`, from or to something. -/
structure Sendable (u : RefUpdate) : Prop where
  valid : Valid u
  under : startsWith u.name "refs/" = true
  moves : ¬ (u.isCreate = true ∧ u.isDelete = true)
  short : u.name.utf8ByteSize ≤ maxListedName

instance (u : RefUpdate) : Decidable (Sendable u) :=
  decidable_of_iff
    (Valid u ∧ startsWith u.name "refs/" = true ∧ ¬ (u.isCreate = true ∧ u.isDelete = true) ∧
      u.name.utf8ByteSize ≤ maxListedName)
    ⟨fun h => ⟨h.1, h.2.1, h.2.2.1, h.2.2.2⟩, fun h => ⟨h.valid, h.under, h.moves, h.short⟩⟩

/-- The handler turns what a method of the store says into its own answer. -/
theorem applyRefUpdate_of_answer {store : RefStore σ} (repoId : RepoId) (s : σ) {u : RefUpdate}
    {name : RefName} {old new : Oid} (hname : u.name = name.text) (hold : u.old = old.text)
    (hnew : u.new = new.text) {result : Result CasOutcome × σ} {made : Bool}
    (hresult : (if u.isDelete then store.casDelete s repoId name (some old)
      else store.casUpdate s repoId name (if u.isCreate then none else some old) new) = result)
    (hanswer : CasSays made result.1) :
    applyRefUpdate printable store repoId.text s u =
      (if made then .ok () else .error "non-fast-forward", result.2) := by
  rw [applyRefUpdate_of_valid repoId s hname hold hnew]
  obtain ⟨outcome, s'⟩ := result
  simp only [hresult]
  cases hanswer with
  | updated => rfl
  | conflict current => rfl

/-- **One update**, on the refs and on their map. -/
theorem applyRefUpdate_transactional (hbackend : Transactional backend sane) {s : σ} (hs : sane s)
    {u : RefUpdate} (hu : Sendable u) :
    let result := applyRefUpdate printable backend.store repoId.text s u
    sane result.2 ∧ ∃ made, result.1 = (if made then .ok () else .error "non-fast-forward") ∧
      Swaps backend.mayRefuse repoId u.name (oldValue u) (newValue u) (backend.view s) made
        (backend.view result.2) := by
  obtain ⟨name, old, new, hname, hold, hnew⟩ := hu.valid.typed
  have hunder := hu.under
  rw [hname] at hunder
  suffices hswapped : Swapped backend sane s repoId u.name (oldValue u) (newValue u)
      (if u.isDelete then backend.store.casDelete s repoId name (some old)
        else backend.store.casUpdate s repoId name (if u.isCreate then none else some old) new) by
    obtain ⟨hsane, made, hanswer, hswaps⟩ := hswapped
    rw [applyRefUpdate_of_answer repoId s hname hold hnew rfl hanswer]
    exact ⟨hsane, made, rfl, hswaps⟩
  rw [hname]
  by_cases hdelete : u.isDelete = true
  · have hcreate : ¬ u.isCreate = true := fun h => hu.moves ⟨h, hdelete⟩
    have hzero : old ≠ zeroOid := fun h => hcreate ((isCreate_iff hold).mpr h)
    have hswapped := hbackend.casDelete s repoId name old hs hunder hzero
    rw [if_pos hdelete, oldValue, if_neg hcreate, hold, argOid_text, newValue, if_pos hdelete]
    exact hswapped
  · have hzero : new ≠ zeroOid := fun h => hdelete ((isDelete_iff hnew).mpr h)
    have hexpected : oldValue u = if u.isCreate = true then none else some old := by
      rw [oldValue, hold, argOid_text]
    have hnonzero : oldValue u ≠ some zeroOid := by
      rw [hexpected]
      split_ifs with hcreate
      · exact nofun
      · exact fun h => hcreate ((isCreate_iff hold).mpr (Option.some.inj h))
    have hswapped := hbackend.casUpdate s repoId name (oldValue u) new hs hunder hnonzero hzero
    rw [if_neg hdelete, ← hexpected, newValue, if_neg hdelete, hnew, argOid_text]
    exact hswapped

theorem statusOf_ok (u : RefUpdate) : statusOf u (asBytes (updateLine u (.ok ()))) = some true :=
  if_pos rfl

theorem statusOf_ng (u : RefUpdate) (reason : String) :
    statusOf u (asBytes (updateLine u (.error reason))) = some false := by
  have hne : asBytes (updateLine u (.error reason)) ≠ asBytes ("ok " ++ u.name ++ "\n") := by
    intro heq
    have htext : "ng " ++ u.name ++ " " ++ reason ++ "\n" = "ok " ++ u.name ++ "\n" :=
      asBytes_inj.mp heq
    have hhead := congrArg (fun s : String => s.toList.head?) htext
    simp at hhead
  have hprefix : (asBytes ("ng " ++ u.name ++ " ")).isPrefixOf
      (asBytes (updateLine u (.error reason))) = true := by
    rw [List.isPrefixOf_iff_prefix]
    exact ⟨asBytes (reason ++ "\n"), by simp [updateLine, String.append_assoc]⟩
  rw [statusOf, if_neg hne, if_pos hprefix]

/-- **The updates of a push**: the lines say which are made, and the refs follow. -/
theorem applyLines_transactional (hbackend : Transactional backend sane) {s : σ} (hs : sane s)
    {us : List RefUpdate} (hus : ∀ u ∈ us, Sendable u) :
    let result := applyLines printable backend.store repoId.text s us
    sane result.2 ∧ ∃ statuses,
      readStatuses us (result.1.map (fun line => .ok (.data (asBytes line))) ++ [.ok .flush]) =
        some statuses ∧
      Pushes backend.mayRefuse repoId (backend.view s) us statuses (backend.view result.2) := by
  induction us generalizing s with
  | nil => exact ⟨hs, [], rfl, .done _⟩
  | cons u us ih =>
      have hone := @applyRefUpdate_transactional σ printable backend sane repoId hbackend s hs u
        (hus u List.mem_cons_self)
      dsimp only at hone ⊢
      rw [applyLines]
      generalize applyRefUpdate printable backend.store repoId.text s u = result at hone ⊢
      obtain ⟨outcome, s'⟩ := result
      obtain ⟨hs', made, houtcome, hswaps⟩ := hone
      obtain ⟨hsane, statuses, hread, hpushes⟩ :=
        ih hs' (fun v hv => hus v (List.mem_cons_of_mem u hv))
      dsimp only at houtcome hswaps hsane hread hpushes ⊢
      refine ⟨hsane, made :: statuses, ?_, .update hswaps hpushes⟩
      have hstatus : statusOf u (asBytes (updateLine u outcome)) = some made := by
        rw [houtcome]
        cases made with
        | true => exact statusOf_ok u
        | false => exact statusOf_ng u _
      rw [List.map_cons, List.cons_append, readStatuses, hstatus, hread]
      rfl

end Updates

/-! ### A push -/

/-- The request that a push is read as. -/
def requestOf (push : Push) : ReceivePackRequest where
  updates := push.updates
  hasReportStatus := true
  hasSideband64k := decide ("side-band-64k" ∈ push.capabilities)
  hasUnsupported := false
  pack := push.pack

/-- The pack was unpacked and every new tip is connected. -/
def passes (env : PackEnv) (repoId : RepoId) (req : ReceivePackRequest) : Bool :=
  match unpackOutcome env repoId.text req with
  | .ok (.ok ()) => (connectivity env (.ok ()) req).isOk
  | _ => false

/-- A push as git sends it to a server with these capabilities. -/
structure Proper (push : Push) : Prop where
  reports : "report-status" ∈ push.capabilities ∨ "report-status-v2" ∈ push.capabilities
  supported : ∀ c ∈ push.capabilities, Supported c
  updates : ∀ u ∈ push.updates, Sendable u

theorem nativeRequest_body {push : Push} (h : Proper push) :
    nativeRequest push.body = some (requestOf push) := by
  obtain ⟨req, hparse, hupdates, hpack, hsideband, hsimple⟩ := parseReceivePackBody_push push
  have hnative : req.isSimple = true := hsimple.mpr ⟨h.reports, h.supported⟩
  obtain ⟨updates, hasReport, hasSideband, hasUnsupported, pack⟩ := req
  obtain rfl : hasSideband = decide ("side-band-64k" ∈ push.capabilities) := by
    rw [Bool.eq_iff_iff, decide_eq_true_eq]
    exact hsideband
  have hflags : hasReport = true ∧ hasUnsupported = false := by
    unfold ReceivePackRequest.isSimple at hnative
    cases hasReport <;> cases hasUnsupported <;> simp_all
  obtain ⟨rfl, rfl⟩ := hflags
  rw [nativeRequest, hparse]
  dsimp only
  rw [if_pos hnative, requestOf, ← hupdates, ← hpack]

theorem passes_iff {env : PackEnv} {repoId : RepoId} {req : ReceivePackRequest} :
    passes env repoId req = true ↔ GateOpen env repoId req := by
  unfold passes GateOpen
  rw [← connectivity_ok_iff]
  split
  · rename_i hunpack
    cases connectivity env (.ok ()) req <;> simp [hunpack, Except.isOk, Except.toBool]
  · rename_i hother
    simpa using fun hunpack => absurd hunpack hother

/-- A line with one of the reasons of the handler fits. -/
theorem updateLine_short {u : RefUpdate} (h : u.name.utf8ByteSize ≤ maxListedName)
    {outcome : Except String Unit} (hreason : ∀ reason, outcome = .error reason →
      reason.utf8ByteSize ≤ 30) : (asBytes (updateLine u outcome)).length ≤ pktLineMaxPayload := by
  have hspace : " ".utf8ByteSize = 1 := by decide
  have hnewline : "\n".utf8ByteSize = 1 := by decide
  rw [maxListedName] at h
  rw [length_asBytes, pktLineMaxPayload]
  cases outcome with
  | ok _ =>
      have hok : "ok ".utf8ByteSize = 3 := by decide
      simp only [updateLine, String.utf8ByteSize_append]
      omega
  | error reason =>
      have hng : "ng ".utf8ByteSize = 3 := by decide
      have hsize := hreason reason rfl
      simp only [updateLine, String.utf8ByteSize_append]
      omega

section PushStep

variable {σ : Type} {printable : Char → Bool} {backend : RefBackend σ} {sane : σ → Prop}
  {repoId : RepoId}

theorem readReport_frameReport (push : Push) (first : String) {lines : List String}
    (hfits : ∀ line ∈ lines, (asBytes line).length ≤ pktLineMaxPayload) :
    readReport push (frameReport (requestOf push).hasSideband64k (buildReport (first :: lines))) =
      readStatuses push.updates
        (lines.map (fun line => .ok (.data (asBytes line))) ++ [.ok .flush]) := by
  unfold readReport
  rw [requestOf, receivedReport_frameReport, Option.map_some, pktIter_buildReport first hfits]
  rfl

/-- Behind a closed gate every line refuses. -/
theorem readStatuses_refused (us : List RefUpdate) (reason : String) :
    readStatuses us ((us.map fun u => updateLine u (.error reason)).map
        (fun line => .ok (.data (asBytes line))) ++ [.ok .flush]) =
      some (us.map fun _ => false) := by
  induction us with
  | nil => rfl
  | cons u us ih =>
      rw [List.map_cons, List.map_cons, List.cons_append, readStatuses, statusOf_ng, ih]
      rfl

/-- The lines of a push are short. -/
theorem applyLines_short (hbackend : Transactional backend sane) {s : σ} (hs : sane s)
    {us : List RefUpdate} (hus : ∀ u ∈ us, Sendable u) :
    ∀ line ∈ (applyLines printable backend.store repoId.text s us).1,
      (asBytes line).length ≤ pktLineMaxPayload := by
  induction us generalizing s with
  | nil => exact nofun
  | cons u us ih =>
      have hone := @applyRefUpdate_transactional σ printable backend sane repoId hbackend s hs u
        (hus u List.mem_cons_self)
      dsimp only at hone
      rw [applyLines]
      generalize applyRefUpdate printable backend.store repoId.text s u = result at hone ⊢
      obtain ⟨outcome, s'⟩ := result
      obtain ⟨hs', made, houtcome, -⟩ := hone
      intro line hline
      rcases List.mem_cons.mp hline with rfl | hline
      · refine updateLine_short (hus u List.mem_cons_self).short fun reason hreason => ?_
        dsimp only at houtcome
        rw [houtcome] at hreason
        cases made with
        | true => cases hreason
        | false =>
            cases hreason
            decide
      · exact ih hs' (fun v hv => hus v (List.mem_cons_of_mem u hv)) line hline

/-- What a push does to the refs, and what its client is told: nothing is done when the pack
is refused or a tip is not connected. -/
def PushTold {σ : Type} (backend : RefBackend σ) (env : PackEnv) (repoId : RepoId) (push : Push)
    (m : RefMap) (statuses : List Bool) (m' : RefMap) : Prop :=
  if passes env repoId (requestOf push) then
    Pushes backend.mayRefuse repoId m push.updates statuses m'
  else statuses = push.updates.map (fun _ => false) ∧ m' = m

/-- **A push over the wire.** -/
theorem push_transactional (hbackend : Transactional backend sane) {s : σ} (hs : sane s)
    (env : PackEnv) {push : Push} (hpush : Proper push) :
    let result := serveRefs printable backend s ⟨repoId, .push env push⟩
    sane result.2 ∧ ∃ bytes statuses, result.1 = some bytes ∧
      readReport push bytes = some statuses ∧
      PushTold backend env repoId push (backend.view s) statuses (backend.view result.2) := by
  obtain ⟨unpack, hunpack⟩ := unpackOutcome_ok env repoId (requestOf push)
  unfold serveRefs
  dsimp only
  rw [nativeRequest_body hpush]
  dsimp only
  rw [nativeReceivePackResponse, hunpack]
  dsimp only
  by_cases hgate : GateOpen env repoId (requestOf push)
  · rw [updateLines_of_gateOpen s hunpack hgate]
    obtain ⟨hsane, statuses, hread, hpushes⟩ := @applyLines_transactional σ printable backend sane
      repoId hbackend s hs push.updates hpush.updates
    have hshort := @applyLines_short σ printable backend sane repoId hbackend s hs push.updates
      hpush.updates
    refine ⟨hsane, _, statuses, rfl, (readReport_frameReport push _ hshort).trans hread, ?_⟩
    rw [PushTold, if_pos (passes_iff.mpr hgate)]
    exact hpushes
  · obtain ⟨reason, hreason, hlines⟩ :=
      @updateLines_of_gateClosed σ printable backend.store repoId env (requestOf push) s unpack hunpack
        hgate
    have hclosed : ¬ passes env repoId (requestOf push) = true := fun h => hgate (passes_iff.mp h)
    rw [hlines]
    have hshort : ∀ line ∈ push.updates.map fun u => updateLine u (.error reason),
        (asBytes line).length ≤ pktLineMaxPayload := by
      intro line hline
      obtain ⟨u, hu, rfl⟩ := List.mem_map.mp hline
      refine updateLine_short (hpush.updates u hu).short fun other hother => ?_
      cases hother
      exact (by decide : ∀ text ∈ ["unpacker error", "missing necessary objects"],
        text.utf8ByteSize ≤ 30) reason hreason
    refine ⟨hs, _, _, rfl,
      (readReport_frameReport push _ hshort).trans (readStatuses_refused push.updates reason), ?_⟩
    rw [PushTold, if_neg hclosed]
    exact ⟨rfl, rfl⟩

end PushStep

/-! ### A listing -/

/-- A row that a client can cut apart again: neither the object nor the name holds a blank or a
newline, and what follows begins with a blank. -/
structure Legible (row : LsRefsRow) : Prop where
  oid : ' ' ∉ row.oid.toList ∧ '\n' ∉ row.oid.toList
  name : ' ' ∉ row.name.toList ∧ '\n' ∉ row.name.toList
  extra : ∀ extra, row.extra = some extra → ∃ rest, extra = " " ++ rest ∧ '\n' ∉ rest.toList

theorem lineText_row {s : String} (h : '\n' ∉ s.toList) : lineText (asBytes (s ++ "\n")) = some s :=
  lineText_newline fun hlast => h (List.mem_of_getLast? hlast)

theorem readRow_line {row : LsRefsRow} (h : Legible row) :
    readRow (asBytes row.line) = some row := by
  obtain ⟨oid, name, extra⟩ := row
  have hoid := h.oid
  have hname := h.name
  dsimp only at hoid hname
  cases extra with
  | none =>
      have hline : '\n' ∉ (oid ++ " " ++ name).toList := by
        simp only [String.toList_append, List.mem_append, not_or]
        exact ⟨⟨hoid.2, by decide⟩, hname.2⟩
      have hcut : splitOnce (oid ++ " " ++ name) ' ' = some (oid, name) :=
        splitOnce_append _ rfl hoid.1
      have hrest : splitOnce name ' ' = none := splitOnce_eq_none hname.1
      show readRow (asBytes (oid ++ " " ++ name ++ "\n")) = _
      rw [readRow, lineText_row hline]
      simp [splitn, hcut, hrest]
  | some extra =>
      obtain ⟨rest, rfl, hrest⟩ := h.extra extra rfl
      have hcut : splitn 3 (RefUpdate.command ⟨oid, name, rest⟩) ' ' = [oid, name, rest] :=
        splitn_command hoid.1 hname.1
      have hline : '\n' ∉ (RefUpdate.command ⟨oid, name, rest⟩).toList := by
        simp only [RefUpdate.command, String.toList_append, List.mem_append, not_or]
        exact ⟨⟨⟨⟨hoid.2, by decide⟩, hname.2⟩, by decide⟩, hrest⟩
      have htext : oid ++ " " ++ name ++ (" " ++ rest) ++ "\n" =
          RefUpdate.command ⟨oid, name, rest⟩ ++ "\n" := by
        simp [RefUpdate.command, String.append_assoc]
      show readRow (asBytes (oid ++ " " ++ name ++ (" " ++ rest) ++ "\n")) = _
      rw [htext, readRow, lineText_row hline, Option.bind_some, hcut]

/-- What a client reads off a listing whose rows fit. -/
theorem readRows_response {rows : List LsRefsRow} (hlegible : ∀ row ∈ rows, Legible row)
    (hfits : ∀ row ∈ rows, (asBytes row.line).length ≤ pktLineMaxPayload) :
    readRows (pktIter (lsRefsResponse rows).body) = some rows := by
  have hread : ∀ rows : List LsRefsRow, (∀ row ∈ rows, Legible row) →
      (∀ row ∈ rows, (asBytes row.line).length ≤ pktLineMaxPayload) →
      readRows (rows.map (fun row =>
        .ok (.data ((asBytes row.line).take pktLineMaxPayload))) ++ [.ok .flush]) = some rows := by
    intro rows hlegible hfits
    induction rows with
    | nil => rfl
    | cons row rows ih =>
        rw [List.map_cons, List.cons_append, readRows,
          List.take_of_length_le (hfits row List.mem_cons_self),
          readRow_line (hlegible row List.mem_cons_self),
          ih (fun other h => hlegible other (List.mem_cons_of_mem row h))
            (fun other h => hfits other (List.mem_cons_of_mem row h))]
        rfl
  rw [lsRefsResponse, pktIter_writeData, List.map_map]
  exact hread rows hlegible hfits

theorem oid_not_blank (oid : Oid) : ' ' ∉ oid.text.toList ∧ '\n' ∉ oid.text.toList :=
  ⟨oid.not_mem_text (by decide), oid.not_mem_text (by decide)⟩

theorem refName_not_blank (name : RefName) :
    ' ' ∉ name.text.toList ∧ '\n' ∉ name.text.toList := by
  constructor
  · intro hmem
    exact absurd (name.not_forbidden_of_mem hmem) (by decide)
  · intro hmem
    exact absurd (name.not_forbidden_of_mem hmem) (by decide)

theorem legible_refRow (peel : Bool) (e : RefEntry) : Legible (refRow peel e) where
  oid := oid_not_blank e.oid
  name := refName_not_blank e.name
  extra extra h := by
    cases peel with
    | false => cases h
    | true =>
        cases hpeeled : e.peeled with
        | none => simp [refRow, hpeeled] at h
        | some p =>
            simp only [refRow, hpeeled, if_true, Option.map_some, Option.some.injEq] at h
            refine ⟨"peeled:" ++ p.text, h.symm, ?_⟩
            rw [String.toList_append, List.mem_append, not_or]
            exact ⟨by decide, (oid_not_blank p).2⟩

/-- The head's target, where the listing shows it. -/
def headTarget : HeadState → Option RefName
  | .symbolic target _ | .unborn target => some target
  | .detached _ => none

theorem legible_symref (oid name : String) (target : RefName) (h : ' ' ∉ oid.toList ∧ '\n' ∉ oid.toList)
    (hname : ' ' ∉ name.toList ∧ '\n' ∉ name.toList) :
    Legible ⟨oid, name, some (" symref-target:" ++ target.text)⟩ where
  oid := h
  name := hname
  extra extra heq := by
    cases heq
    refine ⟨"symref-target:" ++ target.text, rfl, ?_⟩
    rw [String.toList_append, List.mem_append, not_or]
    exact ⟨by decide, (refName_not_blank target).2⟩

/-- A row without its attribute fits if its name is listed, and 60 bytes are left for that. -/
theorem line_fits {row : LsRefsRow} (hoid : row.oid.utf8ByteSize ≤ 40)
    (hsize : row.name.utf8ByteSize + ((row.extra.map String.utf8ByteSize).getD 0) ≤ 65474) :
    (asBytes row.line).length ≤ pktLineMaxPayload := by
  have hspace : " ".utf8ByteSize = 1 := by decide
  have hnewline : "\n".utf8ByteSize = 1 := by decide
  rw [length_asBytes, pktLineMaxPayload]
  obtain ⟨oid, name, extra⟩ := row
  dsimp only at hoid hsize
  cases extra with
  | none =>
      show (oid ++ " " ++ name ++ "\n").utf8ByteSize ≤ 65516
      simp only [String.utf8ByteSize_append]
      simp only [Option.map_none, Option.getD_none] at hsize
      omega
  | some extra =>
      show (oid ++ " " ++ name ++ extra ++ "\n").utf8ByteSize ≤ 65516
      simp only [String.utf8ByteSize_append]
      simp only [Option.map_some, Option.getD_some] at hsize
      omega

theorem refRow_fits (peel : Bool) {e : RefEntry} (h : e.name.text.utf8ByteSize ≤ maxListedName) :
    (asBytes (refRow peel e).line).length ≤ pktLineMaxPayload := by
  rw [maxListedName] at h
  have hpeeled : ∀ p : Oid, (" peeled:" ++ p.text).utf8ByteSize = 48 := by
    intro p
    have hword : " peeled:".utf8ByteSize = 8 := by decide
    rw [String.utf8ByteSize_append, hword, p.utf8ByteSize_text]
  refine line_fits (Nat.le_of_eq e.oid.utf8ByteSize_text) ?_
  show e.name.text.utf8ByteSize + _ ≤ _
  cases peel with
  | false =>
      simp only [refRow, Bool.false_eq_true, if_false, Option.map_none, Option.getD_none]
      omega
  | true =>
      cases hp : e.peeled with
      | none =>
          simp only [refRow, hp, if_true, Option.map_none, Option.getD_none]
          omega
      | some p =>
          simp only [refRow, hp, if_true, Option.map_some, Option.getD_some, hpeeled]
          omega

/-- The row of `HEAD`, if there is one, can be read. -/
theorem headRows_readable {head : HeadState} (symrefs : Bool)
    (hshort : ∀ target ∈ headTarget head, target.text.utf8ByteSize ≤ maxListedName) :
    ∀ row ∈ headRows symrefs head,
      Legible row ∧ (asBytes row.line).length ≤ pktLineMaxPayload := by
  have hname : ' ' ∉ "HEAD".toList ∧ '\n' ∉ "HEAD".toList := by decide
  have hplain : ∀ oid : Oid, Legible ⟨oid.text, "HEAD", none⟩ ∧
      (asBytes (LsRefsRow.line ⟨oid.text, "HEAD", none⟩)).length ≤ pktLineMaxPayload := by
    intro oid
    refine ⟨⟨oid_not_blank oid, hname, nofun⟩, line_fits (Nat.le_of_eq oid.utf8ByteSize_text) ?_⟩
    show "HEAD".utf8ByteSize + 0 ≤ 65474
    decide
  have hsymref : ∀ (oid : String) (target : RefName), oid.utf8ByteSize ≤ 40 →
      ' ' ∉ oid.toList ∧ '\n' ∉ oid.toList → target.text.utf8ByteSize ≤ maxListedName →
      Legible ⟨oid, "HEAD", some (" symref-target:" ++ target.text)⟩ ∧
        (asBytes (LsRefsRow.line ⟨oid, "HEAD", some (" symref-target:" ++ target.text)⟩)).length ≤
          pktLineMaxPayload := by
    intro oid target hsize hoid htarget
    refine ⟨legible_symref oid "HEAD" target hoid hname, line_fits hsize ?_⟩
    have hhead : "HEAD".utf8ByteSize = 4 := by decide
    have hword : " symref-target:".utf8ByteSize = 15 := by decide
    rw [maxListedName] at htarget
    simp only [Option.map_some, Option.getD_some, String.utf8ByteSize_append]
    omega
  intro row hrow
  cases head with
  | symbolic target oid =>
      obtain rfl := List.mem_singleton.mp hrow
      cases symrefs with
      | false => exact hplain oid
      | true =>
          exact hsymref oid.text target (Nat.le_of_eq oid.utf8ByteSize_text) (oid_not_blank oid)
            (hshort target rfl)
  | detached oid =>
      obtain rfl := List.mem_singleton.mp hrow
      exact hplain oid
  | unborn target =>
      cases symrefs with
      | false => cases hrow
      | true =>
          obtain rfl := List.mem_singleton.mp hrow
          exact hsymref "unborn" target (by decide) (by decide) (hshort target rfl)

/-- The refs of a repository that a listing asks for, by their names. -/
structure ListsRefs (refs : String → Option Oid) (args : LsRefsArgs) (rows : List LsRefsRow) :
    Prop where
  sorted : rows.Pairwise fun a b => a.name < b.name
  named : ∀ row ∈ rows, ∃ (name : RefName) (oid : Oid), row.name = name.text ∧ row.oid = oid.text
  refs : ∀ (name : RefName) (oid : Oid),
    (∃ row ∈ rows, row.name = name.text ∧ row.oid = oid.text) ↔
      refs name.text = some oid ∧ Matched args.prefixes name.text

/-- A request whose lines fit.  One without prefixes is answered without refs. -/
structure Asks (args : LsRefsArgs) : Prop where
  lines : ∀ p ∈ args.prefixes, ("ref-prefix " ++ p).toList.getLast? ≠ some '\n'
  fits : ∀ p ∈ args.prefixes, (asBytes ("ref-prefix " ++ p ++ "\n")).length ≤ pktLineMaxPayload

section ListStep

variable {σ : Type} {printable : Char → Bool} {backend : RefBackend σ} {sane : σ → Prop}
  {repoId : RepoId}

theorem readTop_transactional (hbackend : Transactional backend sane) {s : σ} (hs : sane s)
    (args : LsRefsArgs) :
    readTop (backend.lister s) repoId args =
      .ok (servedTop (backend.headOf (backend.view s repoId)) args) := by
  have hmem : args.prefixes.any (· == "HEAD") = true ↔ "HEAD" ∈ args.prefixes := by
    rw [List.any_beq', List.contains_iff_mem]
  unfold readTop servedTop
  by_cases hasked : "HEAD" ∈ args.prefixes
  · rw [if_pos (hmem.mpr hasked), if_pos hasked, hbackend.readHead s repoId hs]
    rfl
  · rw [if_neg (fun h => hasked (hmem.mp h)), if_neg hasked]

/-- The refs that are listed, before they are put into lines. -/
theorem readRest_transactional (hbackend : Transactional backend sane) {s : σ} (hs : sane s)
    (args : LsRefsArgs) :
    ∃ entries : List RefEntry, readRest (backend.lister s) repoId args =
        .ok (entries.map (refRow args.peel)) ∧
      (entries.Pairwise fun a b => a.name.text < b.name.text) ∧
      ∀ (name : RefName) oid, (∃ e ∈ entries, e.name = name ∧ e.oid = oid) ↔
        backend.view s repoId name.text = some oid ∧ Matched args.prefixes name.text := by
  have hmatched : ∀ name : String, (∃ p ∈ args.prefixes.filter (· != "HEAD"),
      p.toList <+: name.toList) ↔ Matched args.prefixes name := by
    intro name
    constructor
    · rintro ⟨p, hp, hpre⟩
      obtain ⟨hmem, hne⟩ := List.mem_filter.mp hp
      exact ⟨p, hmem, bne_iff_ne.mp hne, hpre⟩
    · rintro ⟨p, hmem, hne, hpre⟩
      exact ⟨p, List.mem_filter.mpr ⟨hmem, bne_iff_ne.mpr hne⟩, hpre⟩
  unfold readRest
  dsimp only
  by_cases hother : (args.prefixes.filter (· != "HEAD")).isEmpty = true
  · refine ⟨[], if_pos hother, List.Pairwise.nil, fun name oid => ?_⟩
    rw [← hmatched, List.isEmpty_iff.mp hother]
    simp
  · obtain ⟨entries, hlist, hdistinct, hentries⟩ := hbackend.list s repoId _ hs
      (fun h => hother (List.isEmpty_iff.mpr h))
    refine ⟨sortByName entries, ?_, sortByName_pairwise hdistinct, fun name oid => ?_⟩
    · rw [if_neg hother, hlist]
      rfl
    · rw [← hmatched, ← hentries]
      simp only [mem_sortByName]

/-- **A listing over the wire.** -/
theorem list_transactional (hbackend : Transactional backend sane) {s : σ} (hs : sane s)
    (hhead : ∀ refs, ∀ target ∈ headTarget (backend.headOf refs),
      target.text.utf8ByteSize ≤ maxListedName)
    (hshort : ∀ repo name oid, backend.view s repo name = some oid →
      name.utf8ByteSize ≤ maxListedName)
    {args : LsRefsArgs} (hargs : Asks args) :
    let result := serveRefs printable backend s ⟨repoId, .list args⟩
    result.2 = s ∧ ∃ bytes rows, result.1 = some bytes ∧
      readRows (pktIter bytes) =
        some (servedTop (backend.headOf (backend.view s repoId)) args ++ rows) ∧
      ListsRefs (backend.view s repoId) args rows := by
  obtain ⟨entries, hrest, hsorted, hentries⟩ :=
    @readRest_transactional σ backend sane repoId hbackend s hs args
  have hrows : lsRefsRows repoId.text (backend.lister s) args =
      .ok (servedTop (backend.headOf (backend.view s repoId)) args ++
        entries.map (refRow args.peel)) := by
    unfold lsRefsRows
    split_ifs with hnone
    · -- nothing is matched, so the other side is empty as well
      have hnone := List.isEmpty_iff.mp hnone
      have hentries : entries = [] := by
        rw [List.eq_nil_iff_forall_not_mem]
        intro e he
        obtain ⟨-, p, hp, -⟩ := (hentries e.name e.oid).mp ⟨e, he, rfl, rfl⟩
        rw [hnone] at hp
        cases hp
      rw [hentries, servedTop, hnone, if_neg List.not_mem_nil]
      rfl
    rw [RepoId.tryFrom_text]
    show (readTop _ repoId args >>= fun top => readRest _ repoId args >>= fun rest => _) = _
    rw [readTop_transactional hbackend hs, hrest]
    rfl
  -- no row outgrows a pkt-line, so the client can take the body apart
  have hreadable : ∀ row ∈ servedTop (backend.headOf (backend.view s repoId)) args ++
      entries.map (refRow args.peel),
      Legible row ∧ (asBytes row.line).length ≤ pktLineMaxPayload := by
    intro row hrow
    rcases List.mem_append.mp hrow with htop | hrow
    · unfold servedTop at htop
      split_ifs at htop
      · exact headRows_readable args.symrefs (hhead _) row htop
      · cases htop
    · obtain ⟨e, he, rfl⟩ := List.mem_map.mp hrow
      obtain ⟨hview, -⟩ := (hentries e.name e.oid).mp ⟨e, he, rfl, rfl⟩
      exact ⟨legible_refRow args.peel e, refRow_fits args.peel (hshort repoId _ _ hview)⟩
  unfold serveRefs
  dsimp only
  rw [parseLsRefsOnly_request hargs.lines hargs.fits]
  dsimp only
  rw [nativeLsRefsResponse, hrows]
  refine ⟨rfl, _, entries.map (refRow args.peel), rfl, readRows_response
    (fun row h => (hreadable row h).1) (fun row h => (hreadable row h).2), ?_⟩
  refine ⟨List.pairwise_map.mpr hsorted, ?_, ?_⟩
  · intro row hrow
    obtain ⟨e, -, rfl⟩ := List.mem_map.mp hrow
    exact ⟨e.name, e.oid, rfl, rfl⟩
  · intro name oid
    rw [← hentries]
    constructor
    · rintro ⟨row, hrow, hname, hoid⟩
      obtain ⟨e, he, rfl⟩ := List.mem_map.mp hrow
      exact ⟨e, he, RefName.ext hname, Oid.ext hoid⟩
    · rintro ⟨e, he, rfl, rfl⟩
      exact ⟨refRow args.peel e, List.mem_map_of_mem he, rfl, rfl⟩

end ListStep

/-! ### Runs -/

/-- What a client asks for when it keeps to the protocol: pushes as git sends them, and listings
whose arguments can be written down. -/
def Ask.Proper : Ask → Prop
  | .push _ sent => SmartHttp.Proper sent
  | .list args => Asks args

/-- What the answer to a visit says of the refs `m` before it, and the refs after it: which
updates of a push are made, and which refs there are. -/
def Tells {σ : Type} (backend : RefBackend σ) (m : RefMap) (v : Visit)
    (answer : Option (List UInt8)) (m' : RefMap) : Prop :=
  match v.ask with
  | .push env push => ∃ bytes statuses, answer = some bytes ∧
      readReport push bytes = some statuses ∧ PushTold backend env v.repoId push m statuses m'
  | .list args => m' = m ∧ ∃ bytes rows, answer = some bytes ∧
      readRows (pktIter bytes) = some (servedTop (backend.headOf (m v.repoId)) args ++ rows) ∧
      ListsRefs (m v.repoId) args rows

/-- The answers to some visits, and the server after them. -/
def serveAll {σ : Type} (printable : Char → Bool) (backend : RefBackend σ) :
    σ → List Visit → List (Option (List UInt8)) × σ
  | s, [] => ([], s)
  | s, v :: visits =>
      let (answer, s') := serveRefs printable backend s v
      let (answers, s'') := serveAll printable backend s' visits
      (answer :: answers, s'')

/-- A run of the abstract remote that explains the answers: visit by visit, what was told to the
client is true of the map before, and the map behind is the next one's before. -/
inductive Explains {σ : Type} (backend : RefBackend σ) :
    RefMap → List Visit → List (Option (List UInt8)) → RefMap → Prop
  | done (m : RefMap) : Explains backend m [] [] m
  | visit {m m' m'' : RefMap} {v : Visit} {visits : List Visit} {answer : Option (List UInt8)}
      {answers : List (Option (List UInt8))} :
      Tells backend m v answer m' → Explains backend m' visits answers m'' →
      Explains backend m (v :: visits) (answer :: answers) m''

/-- Every ref has a name that a listing has room for. -/
def RefMap.Short (m : RefMap) : Prop :=
  ∀ repoId name oid, m repoId name = some oid → name.utf8ByteSize ≤ maxListedName

theorem Swaps.short {refusals : Refusals} {repoId : RepoId} {name : String}
    {expected value : Option Oid} {m m' : RefMap} {made : Bool}
    (h : Swaps refusals repoId name expected value m made m') (hm : m.Short)
    (hname : name.utf8ByteSize ≤ maxListedName) : m'.Short := by
  cases h with
  | refused _ => exact hm
  | made _ =>
      intro repo other oid hoid
      unfold RefMap.set at hoid
      split_ifs at hoid with hsame
      · rw [hsame.2]
        exact hname
      · exact hm repo other oid hoid

theorem Pushes.short {refusals : Refusals} {repoId : RepoId} {m m' : RefMap}
    {us : List RefUpdate} {statuses : List Bool} (h : Pushes refusals repoId m us statuses m')
    (hm : m.Short) (hus : ∀ u ∈ us, Sendable u) : m'.Short := by
  induction h with
  | done m => exact hm
  | update hswap _ ih =>
      obtain ⟨hu, hrest⟩ := List.forall_mem_cons.mp hus
      exact ih (hswap.short hm hu.short) hrest

section Runs

variable {σ : Type} {printable : Char → Bool} {backend : RefBackend σ} {sane : σ → Prop}

theorem Tells.short {m m' : RefMap} {v : Visit} {answer : Option (List UInt8)}
    (h : Tells backend m v answer m') (hm : m.Short) (hv : v.ask.Proper) : m'.Short := by
  obtain ⟨repoId, ask⟩ := v
  cases ask with
  | list args =>
      obtain ⟨rfl, -⟩ := h
      exact hm
  | push env push =>
      obtain ⟨bytes, statuses, -, -, htold⟩ := h
      unfold PushTold at htold
      split_ifs at htold
      · exact htold.short hm hv.updates
      · rw [htold.2]
        exact hm

/-- **One visit.** -/
theorem visit_transactional (hbackend : Transactional backend sane)
    (hhead : ∀ refs, ∀ target ∈ headTarget (backend.headOf refs),
      target.text.utf8ByteSize ≤ maxListedName) {s : σ} (hs : sane s)
    (hshort : (backend.view s).Short) {v : Visit} (hv : v.ask.Proper) :
    let result := serveRefs printable backend s v
    sane result.2 ∧ Tells backend (backend.view s) v result.1 (backend.view result.2) := by
  obtain ⟨repoId, ask⟩ := v
  cases ask with
  | push env push => exact push_transactional hbackend hs env hv
  | list args =>
      obtain ⟨hsame, bytes, rows, hanswer, hread, hlists⟩ :=
        @list_transactional σ printable backend sane repoId hbackend s hs hhead hshort args hv
      dsimp only
      rw [hsame]
      exact ⟨hs, rfl, bytes, rows, hanswer, hread, hlists⟩

/-- The run lemma. -/
theorem visits_transactional (hbackend : Transactional backend sane)
    (hhead : ∀ refs, ∀ target ∈ headTarget (backend.headOf refs),
      target.text.utf8ByteSize ≤ maxListedName) {s : σ} (hs : sane s)
    (hshort : (backend.view s).Short) {visits : List Visit}
    (hproper : ∀ v ∈ visits, v.ask.Proper) :
    let result := serveAll printable backend s visits
    sane result.2 ∧
      Explains backend (backend.view s) visits result.1 (backend.view result.2) := by
  induction visits generalizing s with
  | nil => exact ⟨hs, .done _⟩
  | cons v visits ih =>
      obtain ⟨hv, hrest⟩ := List.forall_mem_cons.mp hproper
      obtain ⟨hs', htells⟩ :=
        @visit_transactional σ printable backend sane hbackend hhead s hs hshort v hv
      obtain ⟨hsane, hexplains⟩ := ih hs' (htells.short hshort hv) hrest
      exact ⟨hsane, .visit htells hexplains⟩

end Runs

/-- **The remote refines its refs.** Whatever clients push to and list, over the wire and
in any order, one request after the other, their answers are those of a run of the refs
alone, which ends with the refs that are then stored.  Each report says which updates were
made, and these only where the ref had the old value; one that was not made although it had
is one that the backend may refuse.  Each listing shows exactly the refs, under the prefixes
it names, as the pushes before it have left them.  A client pushes as git does: valid names
under `refs/`, of a length that a listing has room for, and no update from nothing to
nothing. -/
theorem remote_refines {σ : Type} (printable : Char → Bool) (backend : RefBackend σ)
    (sane : σ → Prop) (hbackend : Transactional backend sane)
    (hhead : ∀ refs, ∀ target ∈ headTarget (backend.headOf refs),
      target.text.utf8ByteSize ≤ maxListedName)
    (s : σ) (hs : sane s) (hshort : (backend.view s).Short) (visits : List Visit)
    (hproper : ∀ v ∈ visits, v.ask.Proper) :
    Explains backend (backend.view s) visits (serveAll printable backend s visits).1
      (backend.view (serveAll printable backend s visits).2) :=
  (visits_transactional hbackend hhead hs hshort hproper).2

end SmartHttp
end Artifacts
