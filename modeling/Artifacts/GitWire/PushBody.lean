import Artifacts.Foundation.Separators
import Artifacts.GitWire.Proto
import Artifacts.Rust.Lines

/-!
# What a push body says

A `Push` is what a client wants to send: ref updates, capability tokens and pack bytes.
`Push.body` writes it, the capabilities behind a NUL on the first line and the pack
unframed behind the flush, and `parseReceivePackBody` reads every push back.

The fields of `Push` are what git promises of its side: hexadecimal ids, no NUL and no newline
in a name, lines that a pkt-line has room for.  Bodies that no client writes are not looked at
here.
-/

namespace Artifacts
namespace GitWire

open Foundation Pkt Rust

/-- A capability that the native path supports.  An empty token lists nothing. -/
def Supported (c : String) : Prop :=
  c ∈ ["", "report-status", "report-status-v2", "side-band-64k", "ofs-delta", "delete-refs",
      "no-thin", "quiet"] ∨
    startsWith c "agent=" = true ∨ startsWith c "session-id=" = true ∨
      startsWith c "object-format=" = true

instance (c : String) : Decidable (Supported c) := inferInstanceAs (Decidable (_ ∨ _))

/-- The command of an update, before any capabilities. -/
def RefUpdate.command (u : RefUpdate) : String := u.old ++ " " ++ u.new ++ " " ++ u.name

/-- The update lines, with the capabilities on the first. -/
def updateTexts (capabilities : List String) : List RefUpdate → List String
  | [] => []
  | u :: us => (u.command ++ "\x00" ++ " ".intercalate capabilities) :: us.map RefUpdate.command

/-- What a client pushes.  It may end its lines with a newline or not. -/
structure Push where
  updates : List RefUpdate
  capabilities : List String
  pack : List UInt8
  newline : Bool
  nonempty : updates ≠ []
  oids : ∀ u ∈ updates, isHex40 u.old = true ∧ isHex40 u.new = true
  names : ∀ u ∈ updates, '\x00' ∉ u.name.toList ∧ '\n' ∉ u.name.toList
  tokens : ∀ c ∈ capabilities, ' ' ∉ c.toList ∧ '\x00' ∉ c.toList ∧ '\n' ∉ c.toList
  fits : ∀ line ∈ updateTexts capabilities updates,
    (asBytes (line ++ if newline then "\n" else "")).length ≤ pktLineMaxPayload

/-- The payloads of the update lines. -/
def Push.payloads (push : Push) : List (List UInt8) :=
  (updateTexts push.capabilities push.updates).map fun line =>
    asBytes (line ++ if push.newline then "\n" else "")

/-- The body of the push. -/
def Push.body (push : Push) : List UInt8 :=
  writeFlush (push.payloads.foldl writeData []) ++ push.pack

/-! ### One line -/

/-- An oid has no character that the line is cut at. -/
theorem not_mem_of_isHex40 {s : String} (h : isHex40 s = true) {a : Char}
    (ha : a ∈ [' ', '\x00', '\n']) : a ∉ s.toList := by
  intro hmem
  unfold isHex40 at h
  have hall := (Bool.and_eq_true_iff.mp h).2
  have hascii : ∀ a ∈ [' ', '\x00', '\n'], a.toNat < 128 := by decide
  have hnone : ∀ a ∈ [' ', '\x00', '\n'], ((48 ≤ UInt8.ofNat a.toNat && UInt8.ofNat a.toNat ≤ 57) ||
      (97 ≤ UInt8.ofNat a.toNat && UInt8.ofNat a.toNat ≤ 102) ||
      (65 ≤ UInt8.ofNat a.toNat && UInt8.ofNat a.toNat ≤ 70)) = false := by decide
  have hdigit := List.all_eq_true.mp hall _ ((mem_asBytes_ascii (hascii a ha)).mpr hmem)
  exact Bool.noConfusion ((hnone a ha).symm.trans hdigit)

theorem splitOnce_eq_none {s : String} {sep : Char} (h : sep ∉ s.toList) :
    splitOnce s sep = none :=
  if_neg h

/-- A command is cut into its three parts, whatever spaces the name has. -/
theorem splitn_command {u : RefUpdate} (hold : ' ' ∉ u.old.toList) (hnew : ' ' ∉ u.new.toList) :
    splitn 3 u.command ' ' = [u.old, u.new, u.name] := by
  have hfirst : splitOnce u.command ' ' = some (u.old, u.new ++ " " ++ u.name) := by
    have hcut := @splitOnce_append u.old " " ' ' (u.new ++ " " ++ u.name) rfl hold
    rw [← hcut]
    simp only [RefUpdate.command, String.append_assoc]
  have hsecond : splitOnce (u.new ++ " " ++ u.name) ' ' = some (u.new, u.name) :=
    splitOnce_append _ rfl hnew
  simp only [splitn, hfirst, hsecond]

theorem not_mem_command {u : RefUpdate} {a : Char} (ha : a ∈ ['\x00', '\n'])
    (hold : isHex40 u.old = true) (hnew : isHex40 u.new = true) (hname : a ∉ u.name.toList) :
    a ∉ u.command.toList := by
  have hmem : a ∈ [' ', '\x00', '\n'] := List.mem_cons_of_mem _ ha
  have hspace : ∀ a ∈ ['\x00', '\n'], a ∉ " ".toList := by decide
  simp only [RefUpdate.command, String.toList_append, List.mem_append, not_or]
  exact ⟨⟨⟨⟨not_mem_of_isHex40 hold hmem, hspace a ha⟩, not_mem_of_isHex40 hnew hmem⟩,
    hspace a ha⟩, hname⟩

theorem trimEndMatches_line {s : String} (newline : Bool) (h : '\n' ∉ s.toList) :
    trimEndMatches (s ++ if newline then "\n" else "") '\n' = s := by
  have hstop : s.toList.reverse.dropWhile (· == '\n') = s.toList.reverse := by
    refine dropWhile_eq_self fun c hc => ?_
    rw [beq_eq_false_iff_ne]
    rintro rfl
    exact h (List.mem_reverse.mp hc)
  unfold trimEndMatches
  cases newline with
  | false =>
      rw [if_neg Bool.false_ne_true, String.append_empty, hstop, List.reverse_reverse,
        String.ofList_toList]
  | true =>
      have hlist : (s ++ "\n").toList.reverse = '\n' :: s.toList.reverse := by simp
      rw [if_pos rfl, hlist, List.dropWhile_cons_of_pos rfl, hstop, List.reverse_reverse,
        String.ofList_toList]

theorem parseUpdateLine_command {u : RefUpdate} (hold : isHex40 u.old = true)
    (hnew : isHex40 u.new = true) (hname : '\x00' ∉ u.name.toList) :
    parseUpdateLine u.command = some (u, none) := by
  have hnul : '\x00' ∉ u.command.toList := not_mem_command (by decide) hold hnew hname
  have hparts := splitn_command (u := u) (not_mem_of_isHex40 hold (by decide))
    (not_mem_of_isHex40 hnew (by decide))
  unfold parseUpdateLine
  rw [splitOnce_eq_none hnul]
  dsimp only
  rw [hparts]
  simp [hold, hnew]

theorem parseUpdateLine_capabilities {u : RefUpdate} (caps : String) (hold : isHex40 u.old = true)
    (hnew : isHex40 u.new = true) (hname : '\x00' ∉ u.name.toList) :
    parseUpdateLine (u.command ++ "\x00" ++ caps) = some (u, some caps) := by
  have hnul : '\x00' ∉ u.command.toList := not_mem_command (by decide) hold hnew hname
  have hparts := splitn_command (u := u) (not_mem_of_isHex40 hold (by decide))
    (not_mem_of_isHex40 hnew (by decide))
  unfold parseUpdateLine
  rw [splitOnce_append caps rfl hnul]
  dsimp only
  rw [hparts]
  simp [hold, hnew]

/-! ### The capabilities -/

/-- What the capabilities of a push make of a request: flags are set and none is taken back, the
updates stay, and any capability the server does not know is noted. -/
structure Noted (capabilities : List String) (req req' : ReceivePackRequest) : Prop where
  updates : req'.updates = req.updates
  report : req'.hasReportStatus = true ↔ req.hasReportStatus = true ∨
    "report-status" ∈ capabilities ∨ "report-status-v2" ∈ capabilities
  sideband : req'.hasSideband64k = true ↔ req.hasSideband64k = true ∨
    "side-band-64k" ∈ capabilities
  unsupported : req'.hasUnsupported = true ↔ req.hasUnsupported = true ∨
    ∃ c ∈ capabilities, ¬ Supported c

theorem noteCapability_noted (req : ReceivePackRequest) (c : String) :
    Noted [c] req (noteCapability req c) := by
  refine ⟨updates_noteCapability req c, ?_, ?_, ?_⟩
  · unfold noteCapability
    grind
  · unfold noteCapability
    grind
  · have hrefused : ∀ c ∈ ["atomic", "push-options", "push-cert"], ¬ Supported c := by decide
    have hmem : (∃ x ∈ [c], ¬ Supported x) ↔ ¬ Supported c := by simp
    rw [hmem]
    unfold noteCapability
    split_ifs with hempty hreport hsideband hplain hatomic hinfo
    · simp [Supported, hempty]
    · rcases hreport with rfl | rfl <;> simp [Supported]
    · simp [Supported, hsideband]
    · rcases hplain with rfl | rfl | rfl | rfl <;> simp [Supported]
    · simp [hrefused c (by simpa using hatomic)]
    · simp only [Bool.or_eq_true, or_assoc] at hinfo
      simp [Supported, hinfo]
    · simp only [Bool.or_eq_true, or_assoc] at hinfo
      have hno : ¬ Supported c := by
        rintro (hlisted | hpre)
        · simp only [List.mem_cons, List.not_mem_nil, or_false] at hlisted
          tauto
        · exact hinfo hpre
      simp [hno]

/-- The capabilities are noted one after the other. -/
theorem foldl_noteCapability_noted (cs : List String) (req : ReceivePackRequest) :
    Noted cs req (cs.foldl noteCapability req) := by
  induction cs generalizing req with
  | nil => exact ⟨rfl, by simp, by simp, by simp⟩
  | cons c cs ih =>
      have hone := noteCapability_noted req c
      have hrest := ih (noteCapability req c)
      rw [List.foldl_cons]
      refine ⟨hrest.updates.trans hone.updates, ?_, ?_, ?_⟩
      · rw [hrest.report, hone.report]
        simp only [List.mem_cons, List.not_mem_nil, or_false]
        tauto
      · rw [hrest.sideband, hone.sideband]
        simp only [List.mem_cons, List.not_mem_nil, or_false]
        tauto
      · rw [hrest.unsupported, hone.unsupported]
        simp [or_assoc]

/-- The tokens behind the NUL are the ones that were joined. -/
theorem noted_split {capabilities : List String} (h : ∀ c ∈ capabilities, ' ' ∉ c.toList)
    (req : ReceivePackRequest) :
    Noted capabilities req
      ((split (" ".intercalate capabilities) ' ').foldl noteCapability req) := by
  cases capabilities with
  | nil =>
      -- one empty token
      have hsplit : split (" ".intercalate []) ' ' = [""] := by decide
      rw [hsplit]
      exact ⟨rfl, by simp [noteCapability], by simp [noteCapability], by simp [noteCapability]⟩
  | cons c cs =>
      have hsplit : split (" ".intercalate (c :: cs)) ' ' = c :: cs := by
        unfold split
        rw [String.toList_intercalate]
        show (([' '].intercalate ((c :: cs).map String.toList)).splitOn ' ').map _ = _
        rw [List.splitOn_intercalate ' ' ?_ (by simp), List.map_map]
        · simp [Function.comp_def]
        · intro l hl
          obtain ⟨t, ht, rfl⟩ := List.mem_map.mp hl
          exact h t ht
      rw [hsplit]
      exact foldl_noteCapability_noted _ req

/-! ### The whole body -/

/-- The lines behind the first. -/
theorem parseLoop_commands {us : List RefUpdate} {newline : Bool}
    (hoids : ∀ u ∈ us, isHex40 u.old = true ∧ isHex40 u.new = true)
    (hnames : ∀ u ∈ us, '\x00' ∉ u.name.toList ∧ '\n' ∉ u.name.toList)
    (hfits : ∀ u ∈ us,
      (asBytes (u.command ++ if newline then "\n" else "")).length ≤ pktLineMaxPayload)
    {fuel : Nat} {req : ReceivePackRequest} {pack : List UInt8}
    (hfuel : us.length < fuel) :
    parseLoop fuel false req ((us.map fun u =>
        asBytes (u.command ++ if newline then "\n" else "")).flatMap dataFrame ++
          (flushBytes ++ pack)) =
      some { req with updates := req.updates ++ us, pack := pack } := by
  induction us generalizing fuel req with
  | nil =>
      obtain ⟨fuel, rfl⟩ : ∃ n, fuel = n + 1 := ⟨fuel - 1, by simp at hfuel; omega⟩
      show parseLoop (fuel + 1) false req (flushBytes ++ pack) = _
      rw [parseLoop, read_flush, List.append_nil]
  | cons u us ih =>
      obtain ⟨fuel, rfl⟩ : ∃ n, fuel = n + 1 := ⟨fuel - 1, by simp at hfuel; omega⟩
      have hu := hoids u List.mem_cons_self
      have hname := hnames u List.mem_cons_self
      have hline : '\n' ∉ u.command.toList := not_mem_command (by decide) hu.1 hu.2 hname.2
      rw [parseLoop, List.map_cons, List.flatMap_cons, List.append_assoc, read_dataFrame,
        List.take_of_length_le (hfits u List.mem_cons_self)]
      dsimp only
      rw [fromUtf8_asBytes, Option.bind_some, trimEndMatches_line newline hline,
        parseUpdateLine_command hu.1 hu.2 hname.1]
      dsimp only
      rw [ih (fun v hv => hoids v (List.mem_cons_of_mem u hv))
        (fun v hv => hnames v (List.mem_cons_of_mem u hv))
        (fun v hv => hfits v (List.mem_cons_of_mem u hv)) (by simp at hfuel; omega)]
      simp [addUpdate]

/-- The request that a push is read as. -/
theorem parse_body (push : Push) :
    ∃ req first, parseReceivePackBody push.body =
        some { req with updates := push.updates, pack := push.pack } ∧
      Noted push.capabilities ⟨[first], false, false, false, []⟩ req := by
  obtain ⟨updates, capabilities, pack, newline, hne, hoids, hnames, htokens, hfits⟩ := push
  obtain ⟨u, us, rfl⟩ : ∃ u us, updates = u :: us := List.exists_cons_of_ne_nil hne
  have hu := hoids u List.mem_cons_self
  have hname := hnames u List.mem_cons_self
  have hcaps : '\n' ∉ (" ".intercalate capabilities).toList := by
    rw [String.toList_intercalate]
    intro hmem
    rcases mem_intercalate hmem with heq | ⟨word, hword, hin⟩
    · revert heq
      decide
    · obtain ⟨c, hc, rfl⟩ := List.mem_map.mp hword
      exact (htokens c hc).2.2 hin
  have hline : '\n' ∉ (u.command ++ "\x00" ++ " ".intercalate capabilities).toList := by
    have hcommand : '\n' ∉ u.command.toList := not_mem_command (by decide) hu.1 hu.2 hname.2
    simp only [String.toList_append, List.mem_append, not_or]
    exact ⟨⟨hcommand, by decide⟩, hcaps⟩
  have hnoted := noted_split (fun c hc => (htokens c hc).1) ⟨[u], false, false, false, []⟩
  obtain ⟨first, hfirst⟩ : ∃ first, (split (" ".intercalate capabilities) ' ').foldl noteCapability
      ⟨[u], false, false, false, []⟩ = first := ⟨_, rfl⟩
  rw [hfirst] at hnoted
  have hbody : parseReceivePackBody (Push.body ⟨u :: us, capabilities, pack, newline, hne, hoids,
      hnames, htokens, hfits⟩) = some { first with updates := u :: us, pack := pack } := by
    -- more fuel than the body has bytes
    obtain ⟨fuel, hfuel⟩ : ∃ fuel, parseReceivePackBody (Push.body ⟨u :: us, capabilities, pack,
        newline, hne, hoids, hnames, htokens, hfits⟩) =
          parseLoop (fuel + us.length + 2) true ⟨[], false, false, false, []⟩ (Push.body ⟨u :: us,
            capabilities, pack, newline, hne, hoids, hnames, htokens, hfits⟩) :=
      ⟨_, parseLoop_eq_of_le (Nat.le_refl _) (Nat.le_add_right_of_le (Nat.le_add_right _ _))⟩
    rw [hfuel]
    -- the first line, with the capabilities behind it
    simp only [Push.body, Push.payloads, foldl_writeData, List.nil_append, writeFlush, updateTexts,
      List.map_cons, List.flatMap_cons, List.append_assoc]
    rw [parseLoop, read_dataFrame, List.take_of_length_le (hfits _ List.mem_cons_self)]
    dsimp only
    rw [fromUtf8_asBytes, Option.bind_some, trimEndMatches_line newline hline,
      parseUpdateLine_capabilities _ hu.1 hu.2 hname.1]
    have hadd : addUpdate true ⟨[], false, false, false, []⟩ u
        (some (" ".intercalate capabilities)) = first := hfirst
    dsimp only
    rw [hadd]
    have hrest := @parseLoop_commands us newline
      (fun v hv => hoids v (List.mem_cons_of_mem u hv))
      (fun v hv => hnames v (List.mem_cons_of_mem u hv))
      (fun v hv => hfits _ (List.mem_cons_of_mem _ (List.mem_map_of_mem hv)))
      (fuel + us.length + 1) first pack (by omega)
    rw [hnoted.updates] at hrest
    simpa [Function.comp_def] using hrest
  exact ⟨first, u, hbody, hnoted⟩

/-- **Round trip of a push.** The updates come back in their order, the pack byte by byte, and the
flags say what was listed. The push is any: one update or more, on lines that a pkt-line has room
for, and any bytes for a pack. -/
theorem parseReceivePackBody_push (push : Push) :
    ∃ req, parseReceivePackBody push.body = some req ∧ req.updates = push.updates ∧
      req.pack = push.pack ∧
      (req.hasSideband64k = true ↔ "side-band-64k" ∈ push.capabilities) ∧
      (req.isSimple = true ↔
        ("report-status" ∈ push.capabilities ∨ "report-status-v2" ∈ push.capabilities) ∧
          ∀ c ∈ push.capabilities, Supported c) := by
  obtain ⟨req, first, hbody, hnoted⟩ := parse_body push
  refine ⟨_, hbody, rfl, rfl, ?_, ?_⟩
  · simpa using hnoted.sideband
  · have hreport := hnoted.report
    have hunsupported := hnoted.unsupported
    have hsimple : ∀ req : ReceivePackRequest, req.updates ≠ [] →
        (req.isSimple = true ↔ req.hasReportStatus = true ∧ ¬ req.hasUnsupported = true) := by
      intro req hupdates
      simp [ReceivePackRequest.isSimple, hupdates]
    rw [hsimple _ push.nonempty]
    refine and_congr (hreport.trans (by simp)) ?_
    rw [not_iff_comm, hunsupported]
    simp

/-- A push of a branch whose name has a space and of the delete of a tag, with a pack that
looks like a flush. -/
def flushPush : Push where
  updates :=
    [⟨RefUpdate.zero, String.ofList (List.replicate 40 'c'), "refs/heads/a b"⟩,
      ⟨String.ofList (List.replicate 40 'd'), RefUpdate.zero, "refs/tags/v1"⟩]
  capabilities := ["report-status", "agent=git/2.45"]
  pack := asBytes "0000"
  newline := false
  nonempty := by decide
  oids := by decide +kernel
  names := by decide
  tokens := by decide
  fits := by decide +kernel

theorem flushPush_read : ∃ req, parseReceivePackBody flushPush.body = some req ∧
    req.updates = flushPush.updates ∧ req.pack = asBytes "0000" ∧ req.isSimple = true := by
  obtain ⟨req, hreq, hupdates, hpack, -, hsimple⟩ := parseReceivePackBody_push flushPush
  exact ⟨req, hreq, hupdates, hpack, hsimple.mpr (by decide)⟩

end GitWire
end Artifacts
