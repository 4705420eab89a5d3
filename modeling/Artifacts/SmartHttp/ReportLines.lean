import Artifacts.GitWire.PushBody
import Artifacts.PktLine.Streams
import Artifacts.SmartHttp.PushNames

/-!
# The length of the report lines

`write_data` takes a payload of at most `PKT_LINE_MAX_PAYLOAD` bytes.  The request parser
bounds the name of an update, so the lines `ok`, `non-fast-forward` and the two closing
ones fit.  A refusal repeats the name in its text, and the texts of the unpack and of the
store come from outside: these lines fit only if their texts do.

`QuotesFit` bounds the names that the validators quote, byte by byte, and `StoreFails` the texts
of a store that fails.  The stores of this server differ: the in-process one never fails, the
file store repeats what git prints.
-/

namespace Artifacts
namespace SmartHttp

open GitWire Pkt Refs Rust

/-! ### What is written -/

/-- The payloads of the report lines. -/
def linePayloads (lines : List String) : List (List UInt8) := lines.map asBytes

/-- The payloads of the report in band 1. -/
def bandPayloads (report : List UInt8) : List (List UInt8) :=
  (chunks sidebandChunk report).map fun chunk => 1 :: chunk

/-- The payloads that `native_receive_pack_response` passes to `write_data`, in order. -/
def writtenPayloads {σ : Type} (printable : Char → Bool) (env : PackEnv) (store : RefStore σ)
    (repoId : String) (req : ReceivePackRequest) (s : σ) : List (List UInt8) :=
  match unpackOutcome env repoId req with
  | .error _ => []
  | .ok unpack =>
      let lines := unpackLine unpack :: (updateLines printable store repoId env unpack req s).1
      linePayloads lines ++
        if req.hasSideband64k then bandPayloads (buildReport lines) else []

/-- The text with which the validators of `apply_ref_update` refuse an update. -/
def refusal (printable : Char → Bool) (u : RefUpdate) : Option String :=
  match RefName.tryFrom printable u.name with
  | .error e => some ("invalid ref name: " ++ e.display)
  | .ok _ =>
      match Oid.tryFrom printable u.old with
      | .error e => some ("invalid old oid: " ++ e.display)
      | .ok _ =>
          match Oid.tryFrom printable u.new with
          | .error e => some ("invalid new oid: " ++ e.display)
          | .ok _ => none

section Refusals

variable {σ : Type} (printable : Char → Bool) (store : RefStore σ) (repoId : RepoId)

/-- The store fails on the update. -/
def StoreFails (s : σ) (u : RefUpdate) (e : Error) : Prop :=
  ∃ (name : RefName) (old new : Oid), u.name = name.text ∧ u.old = old.text ∧ u.new = new.text ∧
    (if u.isDelete then store.casDelete s repoId name (some old)
      else store.casUpdate s repoId name (if u.isCreate then none else some old) new).1 = .error e

/-- The text that an update is refused with by the validators or by a failure of the
store. -/
def RefusedWith (s : σ) (u : RefUpdate) (text : String) : Prop :=
  refusal printable u = some text ∨ ∃ e, StoreFails store repoId s u e ∧ text = "error " ++ e.display

/-- A validator quotes what it refuses.  The quoted text fits into the line of the update,
beside the name and the words around it; `old` and `new` refuse digits in upper case, which
the request parser admits. -/
structure QuotesFit (u : RefUpdate) : Prop where
  name : validRefName u.name = false →
    u.name.utf8ByteSize + (debugStr printable u.name).utf8ByteSize ≤ 65462
  old : validRefName u.name = true → validOid u.old = false →
    u.name.utf8ByteSize + (debugStr printable u.old).utf8ByteSize ≤ 65468
  new : validRefName u.name = true → validOid u.old = true → validOid u.new = false →
    u.name.utf8ByteSize + (debugStr printable u.new).utf8ByteSize ≤ 65468

/-- The texts that come into the report fit their lines: that of a failed unpack, what the
validators quote, and what the store says when it fails. -/
structure TextsFit (env : PackEnv) (req : ReceivePackRequest) (s : σ) : Prop where
  unpack : ∀ msg, unpackOutcome env repoId.text req = .ok (.error msg) → msg.utf8ByteSize ≤ 65508
  quotes : GateOpen env repoId req → ∀ u ∈ req.updates, QuotesFit printable u
  store : GateOpen env repoId req → ∀ i (hi : i < req.updates.length) e,
    StoreFails store repoId (refsBefore printable store repoId s req.updates i)
      req.updates[i] e → req.updates[i].name.utf8ByteSize + e.display.utf8ByteSize ≤ 65505

end Refusals

/-! ### The longest name -/

theorem size_splitOnce {s head tail : String} {sep : Char} (hsep : sep.utf8Size = 1)
    (h : splitOnce s sep = some (head, tail)) :
    s.utf8ByteSize = head.utf8ByteSize + 1 + tail.utf8ByteSize := by
  rw [splitOnce_eq_some h, String.utf8ByteSize_append, String.utf8ByteSize_append,
    String.utf8ByteSize_singleton, hsep]

theorem size_trimEndMatches (s : String) (c : Char) :
    (trimEndMatches s c).utf8ByteSize ≤ s.utf8ByteSize := by
  have hcut : s = trimEndMatches s c ++
      String.ofList (s.toList.reverse.takeWhile (· == c)).reverse := by
    rw [← String.toList_inj]
    unfold trimEndMatches
    rw [String.toList_append, String.toList_ofList, String.toList_ofList, ← List.reverse_append,
      List.takeWhile_append_dropWhile, List.reverse_reverse]
  have hsize := congrArg String.utf8ByteSize hcut
  rw [String.utf8ByteSize_append] at hsize
  omega

theorem splitn_three {s a b c : String} {sep : Char} (h : splitn 3 s sep = [a, b, c]) :
    ∃ rest, splitOnce s sep = some (a, rest) ∧ splitOnce rest sep = some (b, c) := by
  cases hs : splitOnce s sep with
  | none =>
      rw [splitn, hs] at h
      cases h
  | some parts =>
      obtain ⟨head, rest⟩ := parts
      cases hrest : splitOnce rest sep with
      | none =>
          simp only [splitn, hs, hrest] at h
          cases h
      | some parts =>
          obtain ⟨mid, tail⟩ := parts
          simp only [splitn, hs, hrest] at h
          cases h
          exact ⟨rest, rfl, hrest⟩

/-- An update takes its name, two oids and two spaces of the line. -/
theorem size_parseUpdateLine {s : String} {u : RefUpdate} {caps : Option String}
    (h : parseUpdateLine s = some (u, caps)) : u.name.utf8ByteSize + 82 ≤ s.utf8ByteSize := by
  have hhex := isHex40_of_parseUpdateLine h
  have hforty : ∀ {oid : String}, isHex40 oid = true → oid.utf8ByteSize = 40 := by
    intro oid hoid
    simpa using (Bool.and_eq_true_iff.mp hoid).1
  have hold := hforty hhex.1
  have hnew := hforty hhex.2
  -- the part before the NUL is no longer than the line
  have hparts : ∀ {head : String}, splitn 3 head ' ' = [u.old, u.new, u.name] →
      u.name.utf8ByteSize + 82 ≤ head.utf8ByteSize := by
    intro head hsplit
    obtain ⟨rest, hfirst, hsecond⟩ := splitn_three hsplit
    have hsize := size_splitOnce rfl hfirst
    have hsize' := size_splitOnce rfl hsecond
    omega
  unfold parseUpdateLine at h
  cases hnul : splitOnce s '\x00' with
  | none =>
      rw [hnul] at h
      dsimp only at h
      split at h
      · rename_i old new name hsplit
        split_ifs at h
        cases h
        exact hparts hsplit
      · cases h
  | some parts =>
      obtain ⟨head, behind⟩ := parts
      have hsize := size_splitOnce rfl hnul
      rw [hnul] at h
      dsimp only at h
      split at h
      · rename_i old new name hsplit
        split_ifs at h
        cases h
        have hhead := hparts hsplit
        omega
      · cases h

/-- **The longest name** that the request parser admits. -/
theorem size_name {body : List UInt8} {req : ReceivePackRequest}
    (h : parseReceivePackBody body = some req) : ∀ u ∈ req.updates, u.name.utf8ByteSize ≤ 65434 := by
  refine forall_updates ?_ h
  intro buf d rest s u caps hread hs hline
  obtain ⟨head, payload, n, -, -, -, hbehind⟩ := behind_of_read hread
  have hcap : d.length ≤ pktLineMaxPayload := by
    cases hbehind with
    | data hcap => exact hcap
  have hbytes : s.utf8ByteSize = d.length := by
    rw [← asBytes_of_fromUtf8 hs, length_asBytes]
  have htrim := size_trimEndMatches s '\n'
  have hupdate := size_parseUpdateLine hline
  rw [pktLineMaxPayload] at hcap
  omega

/-! ### The lines -/

section Lines

variable {σ : Type} {printable : Char → Bool} {store : RefStore σ} {repoId : RepoId}

theorem refusal_eq_none {u : RefUpdate} : refusal printable u = none ↔ Valid u := by
  unfold refusal Valid RefName.tryFrom Oid.tryFrom
  split_ifs <;> simp_all

/-- The text of a refusal: the words of `apply_ref_update`, those of the validator, and what
the validator quotes. -/
theorem size_refusal (words kind quoted : String) :
    (words ++ (Error.badRequest (kind ++ quoted)).display).utf8ByteSize =
      words.utf8ByteSize + 13 + kind.utf8ByteSize + quoted.utf8ByteSize := by
  have hbad : ("bad request: ").utf8ByteSize = 13 := by decide
  show (words ++ ("bad request: " ++ (kind ++ quoted))).utf8ByteSize = _
  simp only [String.utf8ByteSize_append]
  omega

/-- The validators run in turn, and the first that refuses gives the text. -/
theorem refusal_fits_iff {u : RefUpdate} :
    (∀ text, refusal printable u = some text →
        u.name.utf8ByteSize + text.utf8ByteSize ≤ 65511) ↔ QuotesFit printable u := by
  have hname : ("invalid ref name: ").utf8ByteSize = 18 := by decide
  have hold : ("invalid old oid: ").utf8ByteSize = 17 := by decide
  have hnew : ("invalid new oid: ").utf8ByteSize = 17 := by decide
  have hoid : ("invalid oid: ").utf8ByteSize = 13 := by decide
  -- the first check that fails writes the text
  cases hn : validRefName u.name with
  | false =>
      have hrefusal : refusal printable u = some ("invalid ref name: " ++
          (Error.badRequest ("invalid ref name: " ++ debugStr printable u.name)).display) := by
        unfold refusal RefName.tryFrom
        rw [dif_neg (by rw [hn]; exact Bool.false_ne_true)]
      have hsize := size_refusal "invalid ref name: " "invalid ref name: "
        (debugStr printable u.name)
      rw [hname] at hsize
      constructor
      · intro h
        have hline := h _ hrefusal
        exact ⟨fun _ => by omega, by simp [hn], by simp [hn]⟩
      · intro h text htext
        have hquoted := h.name hn
        obtain rfl := Option.some.inj (hrefusal.symm.trans htext)
        omega
  | true =>
  cases ho : validOid u.old with
  | false =>
      have hrefusal : refusal printable u = some ("invalid old oid: " ++
          (Error.badRequest ("invalid oid: " ++ debugStr printable u.old)).display) := by
        unfold refusal RefName.tryFrom Oid.tryFrom
        rw [dif_pos hn, dif_neg (by rw [ho]; exact Bool.false_ne_true)]
      have hsize := size_refusal "invalid old oid: " "invalid oid: " (debugStr printable u.old)
      rw [hold, hoid] at hsize
      constructor
      · intro h
        have hline := h _ hrefusal
        exact ⟨by simp [hn], fun _ _ => by omega, by simp [ho]⟩
      · intro h text htext
        have hquoted := h.old hn ho
        obtain rfl := Option.some.inj (hrefusal.symm.trans htext)
        omega
  | true =>
  cases hw : validOid u.new with
  | false =>
      have hrefusal : refusal printable u = some ("invalid new oid: " ++
          (Error.badRequest ("invalid oid: " ++ debugStr printable u.new)).display) := by
        unfold refusal RefName.tryFrom Oid.tryFrom
        rw [dif_pos hn, dif_pos ho, dif_neg (by rw [hw]; exact Bool.false_ne_true)]
      have hsize := size_refusal "invalid new oid: " "invalid oid: " (debugStr printable u.new)
      rw [hnew, hoid] at hsize
      constructor
      · intro h
        have hline := h _ hrefusal
        exact ⟨by simp [hn], by simp [ho], fun _ _ _ => by omega⟩
      · intro h text htext
        have hquoted := h.new hn ho hw
        obtain rfl := Option.some.inj (hrefusal.symm.trans htext)
        omega
  | true =>
      have hnone : refusal printable u = none := refusal_eq_none.mpr ⟨hn, ho, hw⟩
      rw [hnone]
      refine iff_of_true (fun text => nofun) ⟨?_, ?_, ?_⟩ <;> simp [hn, ho, hw]

/-- Either the validators or the store give the text. -/
theorem refused_fits_iff {s : σ} {u : RefUpdate} :
    (∀ text, RefusedWith printable store repoId s u text →
        u.name.utf8ByteSize + text.utf8ByteSize ≤ 65511) ↔
      QuotesFit printable u ∧ ∀ e, StoreFails store repoId s u e →
        u.name.utf8ByteSize + e.display.utf8ByteSize ≤ 65505 := by
  have herror : ∀ e : Error, ("error " ++ e.display).utf8ByteSize = e.display.utf8ByteSize + 6 := by
    intro e
    have hword : ("error ").utf8ByteSize = 6 := by decide
    rw [String.utf8ByteSize_append, hword, Nat.add_comm]
  rw [← refusal_fits_iff]
  constructor
  · intro h
    refine ⟨fun text htext => h text (Or.inl htext), fun e he => ?_⟩
    have hline := h _ (Or.inr ⟨e, he, rfl⟩)
    rw [herror] at hline
    omega
  · rintro ⟨hquotes, hstore⟩ text (htext | ⟨e, he, rfl⟩)
    · exact hquotes text htext
    · have hline := hstore e he
      rw [herror]
      omega

/-- A refused update gets its text, and changes nothing. -/
theorem applyRefUpdate_of_refusal {s : σ} {u : RefUpdate} {text : String}
    (h : refusal printable u = some text) :
    applyRefUpdate printable store repoId.text s u = (.error text, s) := by
  unfold refusal at h
  unfold applyRefUpdate
  rw [RepoId.tryFrom_text]
  dsimp only
  split at h
  · cases h
    simp_all
  · split at h
    · cases h
      simp_all
    · split at h
      · cases h
        simp_all
      · cases h

theorem storeFails_iff_of_valid {s : σ} {u : RefUpdate} {e : Error} {name : RefName}
    {old new : Oid} (hname : u.name = name.text) (hold : u.old = old.text)
    (hnew : u.new = new.text) :
    StoreFails store repoId s u e ↔
      (if u.isDelete then store.casDelete s repoId name (some old)
        else store.casUpdate s repoId name (if u.isCreate then none else some old) new).1 =
        .error e := by
  constructor
  · rintro ⟨name', old', new', hname', hold', hnew', hfails⟩
    obtain rfl : name = name' := RefName.ext (hname.symm.trans hname')
    obtain rfl : old = old' := Oid.ext (hold.symm.trans hold')
    obtain rfl : new = new' := Oid.ext (hnew.symm.trans hnew')
    exact hfails
  · exact fun h => ⟨name, old, new, hname, hold, hnew, h⟩

/-- The text of a line that says `ng`, unless it is the constant one. -/
theorem applyRefUpdate_error_iff {s : σ} {u : RefUpdate} {text : String}
    (htext : text ≠ "non-fast-forward") :
    (applyRefUpdate printable store repoId.text s u).1 = .error text ↔
      RefusedWith printable store repoId s u text := by
  by_cases hvalid : Valid u
  · obtain ⟨name, old, new, hname, hold, hnew⟩ := hvalid.typed
    have hnone : refusal printable u = none := refusal_eq_none.mpr hvalid
    have hfails : ∀ e, StoreFails store repoId s u e ↔ _ :=
      fun e => storeFails_iff_of_valid hname hold hnew
    rw [applyRefUpdate_of_valid repoId s hname hold hnew]
    unfold RefusedWith
    simp only [hnone, hfails, reduceCtorEq, false_or]
    split
    · rename_i h
      simp [h]
    · rename_i h
      simp [h, Ne.symm htext]
    · rename_i e h
      simp only [h, Except.error.injEq]
      constructor
      · rintro rfl
        exact ⟨e, rfl, rfl⟩
      · rintro ⟨e', rfl, rfl⟩
        rfl
  · have hno : ∀ e, ¬ StoreFails store repoId s u e := by
      rintro e ⟨name, old, new, hname, hold, hnew, -⟩
      apply hvalid
      exact ⟨hname ▸ name.valid, hold ▸ old.valid, hnew ▸ new.valid⟩
    cases hrefusal : refusal printable u with
    | none => exact absurd (refusal_eq_none.mp hrefusal) hvalid
    | some reason =>
        rw [applyRefUpdate_of_refusal hrefusal]
        simp [RefusedWith, hrefusal, hno]

theorem size_updateLine (u : RefUpdate) (text : String) :
    (updateLine u (.error text)).utf8ByteSize = u.name.utf8ByteSize + text.utf8ByteSize + 5 := by
  have h1 : ("ng ").utf8ByteSize = 3 := rfl
  have h2 : (" ").utf8ByteSize = 1 := rfl
  have h3 : ("\n").utf8ByteSize = 1 := rfl
  simp only [updateLine, String.utf8ByteSize_append, h1, h2, h3]
  omega

theorem size_unpackLine_error (msg : String) :
    (unpackLine (.error msg)).utf8ByteSize = msg.utf8ByteSize + 8 := by
  have h1 : ("unpack ").utf8ByteSize = 7 := rfl
  have h2 : ("\n").utf8ByteSize = 1 := rfl
  simp only [unpackLine, String.utf8ByteSize_append, h1, h2]
  omega

/-- With a short name, a line is too long only by its text. -/
theorem updateLine_fits_iff {s : σ} {u : RefUpdate} (hname : u.name.utf8ByteSize ≤ 65434) :
    (updateLine u (applyRefUpdate printable store repoId.text s u).1).utf8ByteSize ≤
        pktLineMaxPayload ↔
      ∀ text, RefusedWith printable store repoId s u text →
        u.name.utf8ByteSize + text.utf8ByteSize ≤ 65511 := by
  have hshort : ("non-fast-forward").utf8ByteSize = 16 := by decide
  have hrefused : ∀ text, RefusedWith printable store repoId s u text →
      text = "non-fast-forward" ∨
        (applyRefUpdate printable store repoId.text s u).1 = .error text := by
    intro text h
    by_cases htext : text = "non-fast-forward"
    · exact Or.inl htext
    · exact Or.inr ((applyRefUpdate_error_iff htext).mpr h)
  cases houtcome : (applyRefUpdate printable store repoId.text s u).1 with
  | ok _ =>
      have hok : (updateLine u (.ok ())).utf8ByteSize = u.name.utf8ByteSize + 4 := by
        have h1 : ("ok ").utf8ByteSize = 3 := rfl
        have h2 : ("\n").utf8ByteSize = 1 := rfl
        simp only [updateLine, String.utf8ByteSize_append, h1, h2]
        omega
      refine iff_of_true (by rw [hok, pktLineMaxPayload]; omega) fun text h => ?_
      rcases hrefused text h with rfl | herror
      · omega
      · rw [houtcome] at herror
        cases herror
  | error reason =>
      rw [size_updateLine, pktLineMaxPayload]
      constructor
      · intro hfits text h
        rcases hrefused text h with rfl | herror
        · omega
        · rw [houtcome] at herror
          cases herror
          omega
      · intro hfits
        by_cases hconflict : reason = "non-fast-forward"
        · rw [hconflict]
          omega
        · have htext := hfits reason ((applyRefUpdate_error_iff hconflict).mp houtcome)
          omega

/-- The chunks of a side band always fit. -/
theorem bandPayloads_fit (report : List UInt8) :
    ∀ p ∈ bandPayloads report, p.length ≤ pktLineMaxPayload := by
  intro p hp
  obtain ⟨chunk, hchunk, rfl⟩ := List.mem_map.mp hp
  have hlen : chunk.length ≤ sidebandChunk := length_le_of_mem_chunks hchunk
  simp only [List.length_cons, sidebandChunk, pktLineMaxPayload] at hlen ⊢
  omega

/-- The payloads that are written fit exactly if the lines do. -/
theorem writtenPayloads_fit_iff {env : PackEnv} {req : ReceivePackRequest} {s : σ}
    {unpack : Except String Unit} {lines : List String}
    (hunpack : unpackOutcome env repoId.text req = .ok unpack)
    (hlines : (updateLines printable store repoId.text env unpack req s).1 = lines) :
    (∀ p ∈ writtenPayloads printable env store repoId.text req s,
        p.length ≤ pktLineMaxPayload) ↔
      (unpackLine unpack).utf8ByteSize ≤ pktLineMaxPayload ∧
        ∀ line ∈ lines, line.utf8ByteSize ≤ pktLineMaxPayload := by
  have hbands : ∀ p ∈ (if req.hasSideband64k then
      bandPayloads (buildReport (unpackLine unpack :: lines)) else []),
      p.length ≤ pktLineMaxPayload := by
    split_ifs
    · exact bandPayloads_fit _
    · exact fun _ => nofun
  unfold writtenPayloads
  rw [hunpack]
  dsimp only
  rw [hlines]
  constructor
  · intro hall
    have hline : ∀ line ∈ unpackLine unpack :: lines, line.utf8ByteSize ≤ pktLineMaxPayload :=
      fun line hline => hall _ (List.mem_append_left _ (List.mem_map_of_mem hline))
    exact ⟨hline _ List.mem_cons_self, fun line h => hline _ (List.mem_cons_of_mem _ h)⟩
  · rintro ⟨hfirst, hrest⟩ p hp
    rcases List.mem_append.mp hp with hp | hp
    · obtain ⟨line, hline, rfl⟩ := List.mem_map.mp hp
      rcases List.mem_cons.mp hline with rfl | hline
      · exact hfirst
      · exact hrest line hline
    · exact hbands p hp

theorem unpackLine_fits_iff {env : PackEnv} {req : ReceivePackRequest}
    {unpack : Except String Unit} (hunpack : unpackOutcome env repoId.text req = .ok unpack) :
    (unpackLine unpack).utf8ByteSize ≤ pktLineMaxPayload ↔
      ∀ msg, unpackOutcome env repoId.text req = .ok (.error msg) → msg.utf8ByteSize ≤ 65508 := by
  rw [hunpack]
  cases unpack with
  | ok _ =>
      have hok : ("unpack ok\n").utf8ByteSize ≤ pktLineMaxPayload := by decide
      exact iff_of_true hok fun msg => nofun
  | error msg =>
      rw [size_unpackLine_error, pktLineMaxPayload]
      constructor
      · rintro h _ ⟨⟩
        omega
      · intro h
        have hmsg := h msg rfl
        omega

/-- Behind an open gate every update has its line, as long as its own reason is. -/
theorem openLines_fit_iff {env : PackEnv} {req : ReceivePackRequest} {s : σ}
    {unpack : Except String Unit} {lines : List String}
    (hnames : ∀ u ∈ req.updates, u.name.utf8ByteSize ≤ 65434)
    (hunpack : unpackOutcome env repoId.text req = .ok unpack) (hgate : GateOpen env repoId req)
    (hlines : (updateLines printable store repoId.text env unpack req s).1 = lines) :
    (∀ line ∈ lines, line.utf8ByteSize ≤ pktLineMaxPayload) ↔
      ∀ i (hi : i < req.updates.length) text,
        RefusedWith printable store repoId (refsBefore printable store repoId s req.updates i)
          req.updates[i] text →
            req.updates[i].name.utf8ByteSize + text.utf8ByteSize ≤ 65511 := by
  have happly : (applyLines printable store repoId.text s req.updates).1 = lines := by
    rw [← updateLines_of_gateOpen s hunpack hgate, hlines]
  have hcount : lines.length = req.updates.length := by
    rw [← happly, length_applyLines]
  have hline : ∀ i (hi : i < req.updates.length), lines[i]? = some (updateLine req.updates[i]
      (applyRefUpdate printable store repoId.text
        (refsBefore printable store repoId s req.updates i) req.updates[i]).1) := by
    intro i hi
    rw [← happly]
    exact applyLines_getElem? printable store repoId s req.updates i hi
  constructor
  · intro hall i hi
    refine (updateLine_fits_iff (hnames _ (List.getElem_mem hi))).mp ?_
    exact hall _ (List.mem_of_getElem? (hline i hi))
  · intro hall line hmem
    obtain ⟨i, hi, rfl⟩ := List.mem_iff_getElem.mp hmem
    have hsome := hline i (hcount ▸ hi)
    rw [List.getElem?_eq_getElem hi] at hsome
    rw [Option.some.inj hsome]
    exact (updateLine_fits_iff (hnames _ (List.getElem_mem _))).mpr (hall i _)

/-- Behind a closed gate the reasons are short. -/
theorem closedLines_fit {env : PackEnv} {req : ReceivePackRequest} {s : σ}
    {unpack : Except String Unit} (hnames : ∀ u ∈ req.updates, u.name.utf8ByteSize ≤ 65434)
    (hunpack : unpackOutcome env repoId.text req = .ok unpack)
    (hgate : ¬ GateOpen env repoId req) :
    ∀ line ∈ (updateLines printable store repoId.text env unpack req s).1,
      line.utf8ByteSize ≤ pktLineMaxPayload := by
  obtain ⟨reason, hreason, hclosed⟩ :=
    @updateLines_of_gateClosed _ printable store repoId env req s unpack hunpack hgate
  have hshort : ∀ reason ∈ ["unpacker error", "missing necessary objects"],
      reason.utf8ByteSize ≤ 25 := by decide
  intro line hmem
  rw [hclosed] at hmem
  obtain ⟨u, hu, rfl⟩ := List.mem_map.mp hmem
  have hname := hnames u hu
  have hsize := hshort reason hreason
  rw [size_updateLine, pktLineMaxPayload]
  omega

/-- **Which reports fit.** Every payload handed to `write_data` is within the cap exactly when the
texts that come into the report fit: the text of a failed unpack, the names that the validators
quote, and what the store says when it fails. The request is any that the parser accepts, and the
store and its state are any. -/
theorem payloads_fit_iff {body : List UInt8} {req : ReceivePackRequest}
    (hreq : parseReceivePackBody body = some req) (env : PackEnv) (s : σ) :
    (∀ p ∈ writtenPayloads printable env store repoId.text req s,
        p.length ≤ pktLineMaxPayload) ↔
      TextsFit printable store repoId env req s := by
  obtain ⟨unpack, hunpack⟩ := unpackOutcome_ok env repoId req
  have hnames := size_name hreq
  rw [writtenPayloads_fit_iff hunpack rfl, unpackLine_fits_iff hunpack]
  constructor
  · rintro ⟨hunpackLine, hlines⟩
    have hrefused := fun hgate i hi => refused_fits_iff.mp
      ((openLines_fit_iff hnames hunpack hgate rfl).mp hlines i hi)
    refine ⟨hunpackLine, fun hgate => ?_, fun hgate i hi => (hrefused hgate i hi).2⟩
    exact List.forall_mem_iff_forall_getElem.mpr fun i hi => (hrefused hgate i hi).1
  · intro h
    refine ⟨h.unpack, ?_⟩
    by_cases hgate : GateOpen env repoId req
    · refine (openLines_fit_iff hnames hunpack hgate rfl).mpr fun i hi => ?_
      exact refused_fits_iff.mpr
        ⟨h.quotes hgate _ (List.getElem_mem hi), h.store hgate i hi⟩
    · exact closedLines_fit hnames hunpack hgate

end Lines

/-- The memory store never fails. -/
theorem memRefStore_not_fails {repoId : RepoId} {s : MemRefs} {u : RefUpdate} {e : Error} :
    ¬ StoreFails memRefStore repoId s u e := by
  rintro ⟨name, old, new, -, -, -, hfails⟩
  simp only [memRefStore, memCasUpdate, memCasDelete] at hfails
  split_ifs at hfails

/-- The report of a push with a name that is refused and a delete fits its lines. -/
theorem payloads_fit_flushPush : ∃ req, parseReceivePackBody flushPush.body = some req ∧
    ∀ p ∈ writtenPayloads printableAscii connectedEnv memRefStore demoRepo.text req
      (fun _ => none), p.length ≤ pktLineMaxPayload := by
  obtain ⟨req, first, hbody, -⟩ := parse_body flushPush
  refine ⟨_, hbody, (payloads_fit_iff hbody connectedEnv (fun _ => none)).mpr ⟨?_, ?_, ?_⟩⟩
  · intro msg hmsg
    cases hmsg
  · intro _ u hu
    have hquotes : ∀ u ∈ flushPush.updates, validOid u.old = true ∧ validOid u.new = true ∧
        u.name.utf8ByteSize + (debugStr printableAscii u.name).utf8ByteSize ≤ 65462 := by
      decide +kernel
    obtain ⟨hold, hnew, hname⟩ := hquotes u hu
    exact ⟨fun _ => hname, fun _ hbad => by simp [hold] at hbad,
      fun _ _ hbad => by simp [hnew] at hbad⟩
  · intro _ i hi e hfails
    exact absurd hfails memRefStore_not_fails

/-! ### A name that is repeated in its refusal -/

/-- So many question marks. -/
def questionMarks (n : Nat) : String := String.ofList (List.replicate n '?')

theorem size_questionMarks (n : Nat) : (questionMarks n).utf8ByteSize = n := by
  have hbyte : String.utf8EncodeChar '?' = [63] := by decide
  rw [← length_asBytes, questionMarks, asBytes_ofList]
  induction n with
  | zero => rfl
  | succ n ih =>
      rw [List.replicate_succ, List.flatMap_cons, List.length_append, ih, hbyte,
        List.length_singleton, Nat.add_comm]

theorem eq_of_mem_questionMarks {n : Nat} {c : Char} (h : c ∈ (questionMarks n).toList) :
    c = '?' := by
  rw [questionMarks, String.toList_ofList] at h
  exact List.eq_of_mem_replicate h

theorem size_debugStr_questionMarks (n : Nat) :
    (debugStr printableAscii (questionMarks n)).utf8ByteSize = n + 2 := by
  have hplain : (List.replicate n '?').flatMap (escapeDebugChar printableAscii) =
      List.replicate n '?' := by
    induction n with
    | zero => rfl
    | succ n ih =>
        rw [List.replicate_succ, List.flatMap_cons, ih]
        rfl
  have hquote : (String.ofList ['"']).utf8ByteSize = 1 := by decide
  have hmarks := size_questionMarks n
  unfold questionMarks at hmarks
  unfold debugStr questionMarks
  rw [String.toList_ofList, hplain, String.ofList_append, String.ofList_cons,
    String.utf8ByteSize_append, String.utf8ByteSize_append, String.utf8ByteSize_singleton,
    hmarks, hquote]
  have hone : ('"').utf8Size = 1 := rfl
  omega

theorem questionMarks_invalid (n : Nat) : validRefName (questionMarks (n + 1)) = false := by
  rw [Bool.eq_false_iff]
  intro hvalid
  have hmem : '?' ∈ (questionMarks (n + 1)).toList := by
    rw [questionMarks, String.toList_ofList]
    exact List.mem_cons_self
  have hhead : questionMarks (n + 1) ≠ "HEAD" := by
    intro heq
    rw [heq] at hmem
    revert hmem
    decide
  obtain ⟨-, -, -, -, -, -, -, hchars, -⟩ := validRefName_spec hvalid hhead
  have hmark := hchars '?' hmem
  revert hmark
  decide

/-- A name of 33000 bytes. -/
def longName : String := questionMarks 33000

/-- As a command the name still fits in a frame. -/
theorem longName_fits : ∀ line ∈ updateTexts ["report-status"] [⟨RefUpdate.zero, demoOid, longName⟩],
    (asBytes (line ++ if true then "\n" else "")).length ≤ pktLineMaxPayload := by
  intro line hline
  obtain rfl := List.mem_singleton.mp hline
  have hzero : RefUpdate.zero.utf8ByteSize = 40 := by decide
  have hoid : demoOid.utf8ByteSize = 40 := by decide
  have hname : longName.utf8ByteSize = 33000 := size_questionMarks 33000
  have hcaps : (" ".intercalate ["report-status"]).utf8ByteSize = 13 := by decide
  have hspace : (" ").utf8ByteSize = 1 := rfl
  have hnul : ("\x00").utf8ByteSize = 1 := rfl
  have hend : ("\n").utf8ByteSize = 1 := rfl
  simp only [length_asBytes, String.utf8ByteSize_append, RefUpdate.command, hzero, hoid, hname,
    hcaps, hspace, hnul, hend, if_true, pktLineMaxPayload]
  omega

/-- A push of that name. -/
def longPush : Push where
  updates := [⟨RefUpdate.zero, demoOid, longName⟩]
  capabilities := ["report-status"]
  pack := []
  newline := true
  nonempty := List.cons_ne_nil _ _
  oids := by
    intro u hu
    obtain rfl := List.mem_singleton.mp hu
    decide +kernel
  names := by
    intro u hu
    obtain rfl := List.mem_singleton.mp hu
    have hmem : ∀ c ∈ longName.toList, c = '?' := fun c hc => eq_of_mem_questionMarks hc
    exact ⟨fun h => absurd (hmem _ h) (by decide), fun h => absurd (hmem _ h) (by decide)⟩
  tokens := by decide
  fits := longName_fits

/-- The line of a refused name is written as long as it is. -/
theorem refused_line_written {name : String} (hinvalid : validRefName name = false)
    {req : ReceivePackRequest} (hupdates : req.updates = [⟨RefUpdate.zero, demoOid, name⟩])
    (hpack : req.pack = []) :
    ∃ p ∈ writtenPayloads printableAscii connectedEnv memRefStore demoRepo.text req
      (fun _ => none), p.length =
        name.utf8ByteSize + (debugStr printableAscii name).utf8ByteSize + 54 := by
  have hunpack : unpackOutcome connectedEnv demoRepo.text req = .ok (.ok ()) := by
    unfold unpackOutcome
    rw [hpack]
    rfl
  have hgate : GateOpen connectedEnv demoRepo req := ⟨hunpack, Or.inr ⟨"", rfl⟩⟩
  have hrefusal : refusal printableAscii ⟨RefUpdate.zero, demoOid, name⟩ =
      some ("invalid ref name: " ++ ("bad request: " ++
        ("invalid ref name: " ++ debugStr printableAscii name))) := by
    unfold refusal RefName.tryFrom
    rw [dif_neg (by rw [hinvalid]; exact Bool.false_ne_true)]
    rfl
  refine ⟨asBytes (updateLine ⟨RefUpdate.zero, demoOid, name⟩ (.error ("invalid ref name: " ++
    ("bad request: " ++ ("invalid ref name: " ++ debugStr printableAscii name))))), ?_, ?_⟩
  · unfold writtenPayloads
    rw [hunpack]
    dsimp only
    rw [updateLines_of_gateOpen _ hunpack hgate, hupdates]
    unfold applyLines
    rw [applyRefUpdate_of_refusal hrefusal]
    exact List.mem_append_left _ (List.mem_cons_of_mem _ List.mem_cons_self)
  · have h1 : ("invalid ref name: ").utf8ByteSize = 18 := by decide
    have h2 : ("bad request: ").utf8ByteSize = 13 := by decide
    rw [length_asBytes, size_updateLine, String.utf8ByteSize_append, String.utf8ByteSize_append,
      String.utf8ByteSize_append, h1, h2]
    dsimp only
    omega

/-- The report line of that push does not fit, although its body parses. -/
theorem long_name_truncated : ∃ body req, parseReceivePackBody body = some req ∧
    ¬ ∀ p ∈ writtenPayloads printableAscii connectedEnv memRefStore demoRepo.text req
        (fun _ => none), p.length ≤ pktLineMaxPayload := by
  obtain ⟨first, u, hbody, -⟩ := parse_body longPush
  refine ⟨_, _, hbody, fun hall => ?_⟩
  have hinvalid : validRefName longName = false := questionMarks_invalid 32999
  obtain ⟨p, hp, hlength⟩ := @refused_line_written longName hinvalid
    { first with updates := longPush.updates, pack := longPush.pack } rfl rfl
  have hcap := hall p hp
  have hname : longName.utf8ByteSize = 33000 := size_questionMarks 33000
  have hdebug : (debugStr printableAscii longName).utf8ByteSize = 33000 + 2 :=
    size_debugStr_questionMarks 33000
  rw [pktLineMaxPayload] at hcap
  omega

end SmartHttp
end Artifacts
