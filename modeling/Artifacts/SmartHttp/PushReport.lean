import Artifacts.SmartHttp.ReceivePack

/-!
# What a push report tells the client

The report of `nativeReceivePackResponse`, as a client reads it back from the
response body, is one unpack line and one line per update in order, and it
agrees with the refs: a line says `ok` exactly when the store applied that
update, and no ref moves unless the unpack and the connectivity check passed.

What is left of the refs is said twice.  Of any store: the compare-and-swaps of
all the updates in order, or nothing behind a closed gate.  Of a store that stands
still when it refuses: exactly the updates that the report calls `ok`, in order.
Reports whose lines do not fit a pkt-line are the subject of `ReportLines`.
-/

namespace Artifacts
namespace SmartHttp

open Foundation GitWire Pkt Refs Rust

/-! ### The client's view of the body -/

/-- The data of band 1, from the pkt-lines of a side-band stream. -/
def band1Data : List (Except PktError PktLine) → Option (List UInt8)
  | [.ok .flush] => some []
  | .ok (.data (1 :: chunk)) :: rest => (band1Data rest).map (chunk ++ ·)
  | _ => none

/-- The report a client takes out of a response body. -/
def receivedReport (sideband : Bool) (body : List UInt8) : Option (List UInt8) :=
  if sideband then band1Data (pktIter body) else some body

theorem band1Data_chunks (cs : List (List UInt8)) :
    band1Data (cs.map (fun c => .ok (.data (1 :: c))) ++ [.ok .flush]) = some cs.flatten := by
  induction cs with
  | nil => rfl
  | cons c cs ih =>
      rw [List.map_cons, List.cons_append, List.flatten_cons]
      change (band1Data _).map (c ++ ·) = _
      rw [ih]
      rfl

/-- A chunk and its band byte fit a pkt-line. -/
theorem take_banded {payload chunk : List UInt8} (h : chunk ∈ chunks sidebandChunk payload) :
    (1 :: chunk).take pktLineMaxPayload = 1 :: chunk := by
  have hlength : chunk.length ≤ sidebandChunk := length_le_of_mem_chunks h
  apply List.take_of_length_le
  simp only [List.length_cons, sidebandChunk, pktLineMaxPayload] at hlength ⊢
  omega

/-- **Side bands are transparent.** The client receives the report that was framed. -/
theorem receivedReport_frameReport (sideband : Bool) (report : List UInt8) :
    receivedReport sideband (frameReport sideband report) = some report := by
  cases sideband with
  | false => rfl
  | true =>
      have hfit : (chunks sidebandChunk report).map
            (fun c => (.ok (.data ((1 :: c).take pktLineMaxPayload)) : Except PktError PktLine)) =
          (chunks sidebandChunk report).map (fun c => .ok (.data (1 :: c))) :=
        List.map_congr_left fun c hc => by rw [take_banded hc]
      change band1Data (pktIter (writeFlush _)) = _
      rw [pktIter_writeData, List.map_map]
      change band1Data ((chunks sidebandChunk report).map
        (fun c => .ok (.data ((1 :: c).take pktLineMaxPayload))) ++ _) = _
      rw [hfit, band1Data_chunks, flatten_chunks (by decide)]

/-- The pkt-lines of a report whose lines fit. -/
theorem pktIter_buildReport (first : String) {lines : List String}
    (hfits : ∀ line ∈ lines, (asBytes line).length ≤ pktLineMaxPayload) :
    pktIter (buildReport (first :: lines)) =
      .ok (.data ((asBytes first).take pktLineMaxPayload)) ::
        lines.map (fun line => .ok (.data (asBytes line))) ++ [.ok .flush] := by
  have hlines : lines.map (fun line => (.ok (.data ((asBytes line).take pktLineMaxPayload)) :
      Except PktError PktLine)) = lines.map (fun line => .ok (.data (asBytes line))) :=
    List.map_congr_left fun line hline => by rw [List.take_of_length_le (hfits line hline)]
  rw [buildReport, pktIter_writeData, List.map_map, List.map_cons, List.cons_append,
    List.cons_append, ← hlines]
  rfl

/-! ### The update loop -/

section Loop

variable {σ : Type} (printable : Char → Bool) (store : RefStore σ) (repoId : RepoId)

/-- The refs after the store is asked for one update: the delete or the update of the ref it
names, guarded by its old value, and no call at all where the name or an id is malformed.  This is
what an update means to the client; it does not go through `applyRefUpdate`. -/
def swapped (u : RefUpdate) (s : σ) : σ :=
  if h : Valid u then
    if u.isDelete then
      (store.casDelete s repoId ⟨u.name, h.1⟩ (some ⟨u.old, h.2.1⟩)).2
    else
      (store.casUpdate s repoId ⟨u.name, h.1⟩ (if u.isCreate then none else some ⟨u.old, h.2.1⟩)
        ⟨u.new, h.2.2⟩).2
  else
    s

/-- The refs after some updates, one after another. -/
def swappedAll (s : σ) (updates : List RefUpdate) : σ :=
  updates.foldl (fun s u => swapped store repoId u s) s

/-- **Effect of `apply_ref_update`**: one call of the store, or none. -/
theorem applyRefUpdate_refs (s : σ) (u : RefUpdate) :
    (applyRefUpdate printable store repoId.text s u).2 = swapped store repoId u s := by
  by_cases hvalid : Valid u
  · have hcall := @applyRefUpdate_of_valid _ printable store repoId s u ⟨u.name, hvalid.1⟩
      ⟨u.old, hvalid.2.1⟩ ⟨u.new, hvalid.2.2⟩ rfl rfl rfl
    rw [hcall, swapped, dif_pos hvalid]
    by_cases hdelete : u.isDelete
    · simp only [if_pos hdelete]
      split <;> rfl
    · simp only [if_neg hdelete]
      split <;> rfl
  · obtain ⟨reason, hrefused⟩ : ∃ reason,
        applyRefUpdate printable store repoId.text s u = (.error reason, s) :=
      applyRefUpdate_of_invalid repoId s hvalid
    rw [hrefused, swapped, dif_neg hvalid]

/-- The refs after the first `i` updates. -/
def refsBefore (s : σ) (updates : List RefUpdate) (i : Nat) : σ :=
  (updates.take i).foldl (fun s u => (applyRefUpdate printable store repoId.text s u).2) s

theorem applyLines_refs (s : σ) (updates : List RefUpdate) :
    (applyLines printable store repoId.text s updates).2 =
      updates.foldl (fun s u => (applyRefUpdate printable store repoId.text s u).2) s := by
  induction updates generalizing s with
  | nil => rfl
  | cons u updates ih => exact ih _

theorem refsBefore_eq (s : σ) (updates : List RefUpdate) (i : Nat) :
    refsBefore printable store repoId s updates i = swappedAll store repoId s (updates.take i) := by
  simp only [refsBefore, swappedAll, applyRefUpdate_refs]

theorem applyLines_swapped (s : σ) (updates : List RefUpdate) :
    (applyLines printable store repoId.text s updates).2 = swappedAll store repoId s updates := by
  rw [applyLines_refs]
  simp only [swappedAll, applyRefUpdate_refs]

/-- A store that is as it was whenever it does not answer `updated`: what a compare-and-swap
promises beyond its answer. The in-process store is like that; the file store is, if git is. -/
structure RefusalsLeave (store : RefStore σ) (repoId : RepoId) : Prop where
  casUpdate : ∀ s name expected new, (store.casUpdate s repoId name expected new).1 ≠ .ok .updated →
    (store.casUpdate s repoId name expected new).2 = s
  casDelete : ∀ s name expected, (store.casDelete s repoId name expected).1 ≠ .ok .updated →
    (store.casDelete s repoId name expected).2 = s

/-- There, an update that was not applied moves nothing. -/
theorem swapped_of_refused {store : RefStore σ} {repoId : RepoId} (h : RefusalsLeave store repoId)
    {u : RefUpdate} {s : σ} (hrefused : ¬ CasApplied store repoId u s) :
    swapped store repoId u s = s := by
  by_cases hvalid : Valid u
  · rw [@casApplied_iff_of_valid _ store repoId u s ⟨u.name, hvalid.1⟩ ⟨u.old, hvalid.2.1⟩
      ⟨u.new, hvalid.2.2⟩ rfl rfl rfl] at hrefused
    rw [swapped, dif_pos hvalid]
    by_cases hdelete : u.isDelete
    · rw [if_pos hdelete] at hrefused ⊢
      exact h.casDelete s _ _ hrefused
    · rw [if_neg hdelete] at hrefused ⊢
      exact h.casUpdate s _ _ _ hrefused
  · rw [swapped, dif_neg hvalid]

/-- The line that says that an update was applied. -/
def okLine (u : RefUpdate) : String := "ok " ++ u.name ++ "\n"

/-- The updates that a report calls applied. -/
def reportedOk (updates : List RefUpdate) (lines : List String) : List RefUpdate :=
  ((updates.zip lines).filter fun p => p.2 = okLine p.1).map Prod.fst

theorem reportedOk_cons (u : RefUpdate) (updates : List RefUpdate) (line : String)
    (lines : List String) :
    reportedOk (u :: updates) (line :: lines) =
      if line = okLine u then u :: reportedOk updates lines else reportedOk updates lines := by
  unfold reportedOk
  rw [List.zip_cons_cons, List.filter_cons]
  by_cases hline : line = okLine u
  · rw [if_pos hline, if_pos (decide_eq_true hline), List.map_cons]
  · rw [if_neg hline, if_neg (by simpa using hline)]

/-- A refusal does not read as `ok`. -/
theorem ng_ne_okLine (u : RefUpdate) (name reason : String) :
    "ng " ++ name ++ " " ++ reason ++ "\n" ≠ okLine u := by
  intro h
  have hfirst := congrArg (fun text => text.toList.head?) h
  simp [okLine] at hfirst

theorem updateLine_eq_okLine_iff (u : RefUpdate) (outcome : Except String Unit) :
    updateLine u outcome = okLine u ↔ outcome = .ok () := by
  cases outcome with
  | ok _ => exact iff_of_true rfl rfl
  | error reason => exact iff_of_false (ng_ne_okLine u u.name reason) nofun

/-- The store moved by just the updates reported as `ok`, in their order: the step of one update
does nothing unless the update is reported so. -/
theorem applyLines_reportedOk (hleave : RefusalsLeave store repoId) (s : σ)
    (updates : List RefUpdate) :
    (applyLines printable store repoId.text s updates).2 =
      swappedAll store repoId s
        (reportedOk updates (applyLines printable store repoId.text s updates).1) := by
  induction updates generalizing s with
  | nil => rfl
  | cons u updates ih =>
      have hrest := ih (applyRefUpdate printable store repoId.text s u).2
      have hspec := @applyRefUpdate_ok_iff _ printable store repoId s u
      have hlines : (applyLines printable store repoId.text s (u :: updates)).1 =
          updateLine u (applyRefUpdate printable store repoId.text s u).1 ::
            (applyLines printable store repoId.text
              (applyRefUpdate printable store repoId.text s u).2 updates).1 := rfl
      have hrefs : (applyLines printable store repoId.text s (u :: updates)).2 =
          (applyLines printable store repoId.text
            (applyRefUpdate printable store repoId.text s u).2 updates).2 := rfl
      rw [hlines, hrefs, hrest, reportedOk_cons]
      by_cases hok : (applyRefUpdate printable store repoId.text s u).1 = .ok ()
      · rw [if_pos ((updateLine_eq_okLine_iff u _).mpr hok), applyRefUpdate_refs]
        rfl
      · rw [if_neg fun h => hok ((updateLine_eq_okLine_iff u _).mp h), applyRefUpdate_refs,
          swapped_of_refused hleave fun h => hok (hspec.mpr h)]

/-- Lines that refuse every update report none as applied. -/
theorem reportedOk_refused (updates : List RefUpdate) (reason : String) :
    reportedOk updates (updates.map fun u => updateLine u (.error reason)) = [] := by
  induction updates with
  | nil => rfl
  | cons u updates ih =>
      have hng : updateLine u (.error reason) ≠ okLine u := ng_ne_okLine u u.name reason
      rw [List.map_cons, reportedOk_cons, if_neg hng, ih]

theorem length_applyLines (s : σ) (updates : List RefUpdate) :
    (applyLines printable store repoId.text s updates).1.length = updates.length := by
  induction updates generalizing s with
  | nil => rfl
  | cons u updates ih =>
      change (applyLines printable store repoId.text _ updates).1.length + 1 = _
      rw [ih]
      rfl

/-- Line `i` reports update `i`, applied to the refs the updates before it left. -/
theorem applyLines_getElem? (s : σ) (updates : List RefUpdate) (i : Nat)
    (hi : i < updates.length) :
    (applyLines printable store repoId.text s updates).1[i]? =
      some (updateLine updates[i] (applyRefUpdate printable store repoId.text
        (refsBefore printable store repoId s updates i) updates[i]).1) := by
  induction updates generalizing s i with
  | nil => cases hi
  | cons u updates ih =>
      cases i with
      | zero => rfl
      | succ i => exact ih _ i (by simpa using hi)

/-- A ref that no update names keeps its value through the loop. -/
theorem view_applyLines {view : σ → RepoId → String → Option Oid}
    (hframe : ChangesOnlyNamed store view) (s : σ) (updates : List RefUpdate) {repo : RepoId}
    {name : String} (hother : repo = repoId → ∀ u ∈ updates, u.name ≠ name) :
    view (applyLines printable store repoId.text s updates).2 repo name = view s repo name := by
  rw [applyLines_refs]
  induction updates generalizing s with
  | nil => rfl
  | cons u updates ih =>
      rw [List.foldl_cons, ih _ fun hrepo v hv => hother hrepo v (List.mem_cons_of_mem u hv)]
      refine view_applyRefUpdate hframe repoId s u ?_
      rintro ⟨hrepo, hname⟩
      exact hother hrepo u List.mem_cons_self hname.symm

end Loop

/-! ### The report and the refs -/

/-- The pack was unpacked and every new tip is connected. Deletions have no tip to check, and
without tips git is not asked. -/
def GateOpen (env : PackEnv) (repoId : RepoId) (req : ReceivePackRequest) : Prop :=
  unpackOutcome env repoId.text req = .ok (.ok ()) ∧
    (newTips req = [] ∨ ∃ stderr, env.revListCheckConnected (newTips req) = .ok (0, stderr))

theorem connectivity_ok_iff (env : PackEnv) (req : ReceivePackRequest) :
    connectivity env (.ok ()) req = .ok () ↔
      newTips req = [] ∨ ∃ stderr, env.revListCheckConnected (newTips req) = .ok (0, stderr) := by
  unfold connectivity
  cases htips : newTips req with
  | nil => simp
  | cons tip tips =>
      simp only [List.isEmpty_cons, Bool.false_eq_true, if_false, reduceCtorEq, false_or]
      split
      · rename_i stderr h
        simp [h]
      · rename_i code stderr hcode h
        constructor
        · intro hbad
          cases hbad
        · rintro ⟨stderr', h'⟩
          rw [h] at h'
          cases h'
          exact absurd rfl hcode
      · rename_i e h
        simp [h]

/-- With a valid repository id the handler always gets an unpack outcome. -/
theorem unpackOutcome_ok (env : PackEnv) (repoId : RepoId) (req : ReceivePackRequest) :
    ∃ unpack, unpackOutcome env repoId.text req = .ok unpack := by
  unfold unpackOutcome
  rw [RepoId.tryFrom_text]
  simp only []
  split_ifs
  · exact ⟨_, rfl⟩
  · split <;> exact ⟨_, rfl⟩
  · exact ⟨_, rfl⟩

section Report

variable {σ : Type} {printable : Char → Bool} {store : RefStore σ} {repoId : RepoId}

/-- Behind an open gate the updates are applied. -/
theorem updateLines_of_gateOpen {env : PackEnv} {req : ReceivePackRequest} (s : σ)
    {unpack : Except String Unit} (hunpack : unpackOutcome env repoId.text req = .ok unpack)
    (hgate : GateOpen env repoId req) :
    updateLines printable store repoId.text env unpack req s =
      applyLines printable store repoId.text s req.updates := by
  obtain rfl : unpack = .ok () := Except.ok.inj (hunpack.symm.trans hgate.1)
  rw [updateLines, (connectivity_ok_iff env req).mpr hgate.2]

/-- Behind a closed gate every update is refused for one and the same reason. -/
theorem updateLines_of_gateClosed {env : PackEnv} {req : ReceivePackRequest} (s : σ)
    {unpack : Except String Unit} (hunpack : unpackOutcome env repoId.text req = .ok unpack)
    (hgate : ¬ GateOpen env repoId req) :
    ∃ reason ∈ ["unpacker error", "missing necessary objects"],
      updateLines printable store repoId.text env unpack req s =
        (req.updates.map fun u => updateLine u (.error reason), s) := by
  cases unpack with
  | error msg =>
      refine ⟨"unpacker error", by decide, ?_⟩
      simp [updateLines, updateLine, String.append_assoc]
  | ok _ =>
      have hconn : connectivity env (.ok ()) req ≠ .ok () := fun hok =>
        hgate ⟨hunpack, (connectivity_ok_iff env req).mp hok⟩
      refine ⟨"missing necessary objects", by decide, ?_⟩
      rw [updateLines]
      split
      · simp [updateLine, String.append_assoc]
      · rename_i hok
        exact absurd hok hconn

end Report

/-- What the client can rely on after a push: `response` and `s'` are the answer and the refs,
`lines` the report lines behind the unpack line.  `gated`, `shut`, `asked` and `moved` say what
the refs are, from those before and the request alone; `reported` ties each line to the answer of
the store, at the refs that the updates before it left. -/
structure ReportAgrees {σ : Type} (printable : Char → Bool) (env : PackEnv) (store : RefStore σ)
    (view : σ → RepoId → String → Option Oid) (repoId : RepoId) (req : ReceivePackRequest)
    (s : σ) (response : Response) (s' : σ) (unpack : Except String Unit)
    (lines : List String) : Prop where
  /-- The handler answers, and leaves these refs. -/
  answered : nativeReceivePackResponse printable env store repoId.text req s =
    (.ok response, s')
  /-- No ref moves unless the unpack and the connectivity check passed. -/
  gated : ∀ repo name, view s' repo name ≠ view s repo name → GateOpen env repoId req
  /-- Otherwise the store is not asked for anything. -/
  shut : ¬ GateOpen env repoId req → s' = s
  /-- If they passed, the store was asked for every update, once and in order. -/
  asked : GateOpen env repoId req → s' = swappedAll store repoId s req.updates
  /-- The refs are those before with exactly the updates reported as `ok` applied in order, if
  the store stands still whenever it does not answer `updated`. -/
  moved : RefusalsLeave store repoId →
    s' = swappedAll store repoId s (reportedOk req.updates lines)
  /-- Refs the request does not name keep their values. -/
  unnamedKept : ∀ repo name, (repo = repoId → ∀ u ∈ req.updates, u.name ≠ name) →
    view s' repo name = view s repo name
  unpacked : unpackOutcome env repoId.text req = .ok unpack
  /-- The body is one unpack line, the update lines, and a flush-pkt. -/
  reportLines : (receivedReport req.hasSideband64k response.body).map pktIter =
    some (.ok (.data ((asBytes (unpackLine unpack)).take pktLineMaxPayload)) ::
      lines.map (fun line => .ok (.data (asBytes line))) ++ [.ok .flush])
  /-- One line per update. -/
  counted : lines.length = req.updates.length
  /-- Line `i` says `ok` exactly when the store applied update `i`. -/
  reported : ∀ i (hi : i < req.updates.length),
    (lines[i]? = some (okLine req.updates[i]) ∧ GateOpen env repoId req ∧
        CasApplied store repoId req.updates[i]
          (swappedAll store repoId s (req.updates.take i))) ∨
      ((∃ reason, lines[i]? = some ("ng " ++ req.updates[i].name ++ " " ++ reason ++ "\n")) ∧
        ¬(GateOpen env repoId req ∧ CasApplied store repoId req.updates[i]
          (swappedAll store repoId s (req.updates.take i))))

/-- **The report of a push agrees with the refs.** For every request there is a response with one
unpack line and one line for each update, in the order of the updates. Behind a closed gate the refs
are what they were; otherwise all updates were asked of the store, once and in order, and if the
store stands still when it refuses, the refs are those before with exactly the updates applied that
the report calls `ok`. The store is any that changes only the ref it is called for. The lines are
taken to fit a pkt-line, which `ReportLines` shows to be a condition on the texts of the unpack, the
validators and the store. -/
theorem native_receive_pack_report {σ : Type} (printable : Char → Bool) (env : PackEnv)
    (store : RefStore σ) (view : σ → RepoId → String → Option Oid)
    (hframe : ChangesOnlyNamed store view) (repoId : RepoId) (req : ReceivePackRequest) (s : σ)
    (hfits : ∀ unpack, unpackOutcome env repoId.text req = .ok unpack →
      ∀ line ∈ (updateLines printable store repoId.text env unpack req s).1,
        (asBytes line).length ≤ pktLineMaxPayload) :
    ∃ response s' unpack lines,
      ReportAgrees printable env store view repoId req s response s' unpack lines := by
  obtain ⟨unpack, hunpack⟩ := unpackOutcome_ok env repoId req
  obtain ⟨lines, s', hlines⟩ : ∃ lines s',
      updateLines printable store repoId.text env unpack req s = (lines, s') := ⟨_, _, rfl⟩
  have hfits' : ∀ line ∈ lines, (asBytes line).length ≤ pktLineMaxPayload := by
    have hall := hfits unpack hunpack
    rw [hlines] at hall
    exact hall
  obtain ⟨response, hresponse⟩ : ∃ response : Response, response =
      { status := 200
        contentType := "application/x-git-receive-pack-result"
        cacheControl := "no-cache"
        body := frameReport req.hasSideband64k (buildReport (unpackLine unpack :: lines)) } :=
    ⟨_, rfl⟩
  have hanswer : nativeReceivePackResponse printable env store repoId.text req s =
      (.ok response, s') := by
    rw [nativeReceivePackResponse, hunpack, hresponse]
    simp only [hlines]
  have hframes : (receivedReport req.hasSideband64k response.body).map pktIter =
      some (.ok (.data ((asBytes (unpackLine unpack)).take pktLineMaxPayload)) ::
        lines.map (fun line => .ok (.data (asBytes line))) ++ [.ok .flush]) := by
    rw [hresponse, receivedReport_frameReport, Option.map_some, pktIter_buildReport _ hfits']
  refine ⟨response, s', unpack, lines, ?_⟩
  -- behind an open gate the lines are those of the loop, behind a closed one all say the same
  by_cases hgate : GateOpen env repoId req
  · have happly : applyLines printable store repoId.text s req.updates = (lines, s') := by
      rw [← updateLines_of_gateOpen s hunpack hgate, hlines]
    have hkeep : ∀ repo name, (repo = repoId → ∀ u ∈ req.updates, u.name ≠ name) →
        view s' repo name = view s repo name := by
      intro repo name hother
      have hloop := view_applyLines printable store repoId hframe s req.updates hother
      rwa [happly] at hloop
    have hcount : lines.length = req.updates.length := by
      rw [← length_applyLines printable store repoId s, happly]
    have hasked : s' = swappedAll store repoId s req.updates := by
      rw [← applyLines_swapped printable store repoId s req.updates, happly]
    have hmoved : RefusalsLeave store repoId →
        s' = swappedAll store repoId s (reportedOk req.updates lines) := by
      intro hleave
      have hloop := applyLines_reportedOk printable store repoId hleave s req.updates
      rwa [happly] at hloop
    refine ⟨hanswer, fun _ _ _ => hgate, fun hshut => absurd hgate hshut, fun _ => hasked, hmoved,
      hkeep, hunpack, hframes, hcount, fun i hi => ?_⟩
    -- line `i` is about the refs that the updates before it left
    have hline := applyLines_getElem? printable store repoId s req.updates i hi
    have hspec : (applyRefUpdate printable store repoId.text
          (refsBefore printable store repoId s req.updates i) req.updates[i]).1 = .ok () ↔
        CasApplied store repoId req.updates[i]
          (refsBefore printable store repoId s req.updates i) :=
      applyRefUpdate_ok_iff repoId _ _
    rw [happly] at hline
    rw [← refsBefore_eq printable store repoId s req.updates i]
    cases houtcome : (applyRefUpdate printable store repoId.text
        (refsBefore printable store repoId s req.updates i) req.updates[i]).1 with
    | ok _ =>
        rw [houtcome] at hline hspec
        exact Or.inl ⟨hline, hgate, hspec.mp rfl⟩
    | error reason =>
        rw [houtcome] at hline hspec
        refine Or.inr ⟨⟨reason, hline⟩, fun happlied => ?_⟩
        cases hspec.mpr happlied.2
  · obtain ⟨reason, -, hclosed⟩ :=
      @updateLines_of_gateClosed _ printable store repoId env req s unpack hunpack hgate
    obtain ⟨rfl, rfl⟩ := Prod.mk.inj (hclosed.symm.trans hlines)
    refine ⟨hanswer, fun _ _ hmoved => absurd rfl hmoved, fun _ => rfl,
      fun hopen => absurd hopen hgate, fun _ => ?_, fun _ _ _ => rfl, hunpack, hframes, by simp,
      fun i hi => Or.inr ⟨⟨reason, ?_⟩, fun happlied => hgate happlied.1⟩⟩
    · rw [reportedOk_refused]
      rfl
    · simp [updateLine, hi]

/-! ### A push of three updates -/

/-- The printable characters below 128. -/
def printableAscii (c : Char) : Bool := 0x20 ≤ c.toNat && c.toNat < 0x7f

/-- Surroundings in which the pack unpacks and every tip is connected. -/
def connectedEnv : PackEnv where
  preferNativeIndex := false
  ingestPack := fun _ _ => .ok ()
  unpackObjects := fun _ => .ok ()
  revListCheckConnected := fun _ => .ok (0, "")

def demoRepo : RepoId := ⟨"demo-1", rfl⟩

def demoOid : String := "1111111111111111111111111111111111111111"

/-- A create, a delete of an absent ref, and a name with a space. -/
def demoRequest : ReceivePackRequest where
  updates :=
    [⟨RefUpdate.zero, demoOid, "refs/heads/main"⟩, ⟨demoOid, RefUpdate.zero, "refs/heads/old"⟩,
      ⟨RefUpdate.zero, demoOid, "refs/heads/a b"⟩]
  hasReportStatus := true
  hasSideband64k := true
  hasUnsupported := false
  pack := [80, 65, 67, 75]

/-- The in-process store stands still when it refuses. -/
theorem memRefStore_refusalsLeave (repoId : RepoId) : RefusalsLeave memRefStore repoId where
  casUpdate := by
    intro refs name expected new hrefused
    simp only [memRefStore, memCasUpdate] at hrefused ⊢
    split_ifs at hrefused ⊢ <;> first | rfl | exact absurd rfl hrefused
  casDelete := by
    intro refs name expected hrefused
    simp only [memRefStore, memCasDelete] at hrefused ⊢
    split_ifs at hrefused ⊢ <;> first | rfl | exact absurd rfl hrefused

/-- The three updates on an empty in-process store: the report agrees, only the first is called
applied, and just that ref is there afterwards. -/
theorem native_receive_pack_report_demo :
    ∃ response s' unpack lines, ReportAgrees printableAscii connectedEnv memRefStore memView
      demoRepo demoRequest (fun _ => none) response s' unpack lines ∧
      memView s' demoRepo "refs/heads/main" = some ⟨demoOid, by decide⟩ ∧
      memView s' demoRepo "refs/heads/old" = none := by
  obtain ⟨response, s', unpack, lines, hagrees⟩ :=
    native_receive_pack_report printableAscii connectedEnv memRefStore memView
      memRefStore_changesOnlyNamed demoRepo demoRequest (fun _ => none) (by
        intro unpack hunpack
        obtain rfl : unpack = .ok () := (Except.ok.inj hunpack).symm
        decide)
  have hopen : GateOpen connectedEnv demoRepo demoRequest := ⟨rfl, Or.inr ⟨"", rfl⟩⟩
  refine ⟨response, s', unpack, lines, hagrees, ?_, ?_⟩
  · rw [hagrees.asked hopen]
    decide
  · rw [hagrees.asked hopen]
    decide

end SmartHttp
end Artifacts
