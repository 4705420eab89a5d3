import Artifacts.Ids
import Artifacts.Reads.Diff
import Artifacts.Rust.Numbers
import Artifacts.Rust.Words
import Mathlib.Data.List.Forall2

/-!
# The commit log

`gitLog` is what `git log` prints for `LOG_FORMAT`, with a newline behind each record, and
`parseLogRecords` reads it back.  A record ends at a NUL, which no commit contains.  Its
fields end at a byte 1, which the message may contain, and of the message the newlines in
front are taken for the one that ends the record before.

`LoggedCommit` is a commit as git stores it: names and emails have neither NUL nor newline nor
byte 1, and times are not negative.  Messages in other encodings than UTF-8, which make the
request fail, are not in it.
-/

namespace Artifacts
namespace Reads

open Foundation Rust

structure Signature where
  name : String
  email : String
  deriving DecidableEq, Repr

structure CommitSummary where
  sha : String
  parents : List String
  author : Signature
  committer : Signature
  message : String
  timestamp : Int64
  deriving DecidableEq, Repr

/-! ### Reading -/

section Reading

-- the `Display` of a `FromUtf8Error`
variable (fromUtf8Error : List UInt8 → String)

/-- `String::from_utf8(field)?`: one field that is not UTF-8 ends the listing of all commits. -/
def utf8Field (field : List UInt8) : Result String :=
  match fromUtf8 field with
  | some text => .ok text
  | none => .error (.other (fromUtf8Error field))

/-- One record, if it is not skipped. -/
def parseLogRecord (record : List UInt8) : Result (Option CommitSummary) :=
  if record.isEmpty then .ok none
  else
    match record.splitOn 1 with
    | sha :: parents :: authorName :: authorEmail :: committerName :: committerEmail ::
        timestamp :: message :: _ => do
        let sha ← utf8Field fromUtf8Error sha
        let authorName ← utf8Field fromUtf8Error authorName
        let authorEmail ← utf8Field fromUtf8Error authorEmail
        let committerName ← utf8Field fromUtf8Error committerName
        let committerEmail ← utf8Field fromUtf8Error committerEmail
        let message ← utf8Field fromUtf8Error message
        return some
          { sha := trim sha
            parents := splitWhitespace ((fromUtf8 parents).getD "")
            author := ⟨authorName, authorEmail⟩
            committer := ⟨committerName, committerEmail⟩
            message := trimStartMatches message '\n'
            timestamp := (parseI64 (trim ((fromUtf8 timestamp).getD "0"))).getD 0 }
    | _ => .ok none

/-- The loop of `parse_log_records`. -/
def parseRecords : List (List UInt8) → List CommitSummary → Result (List CommitSummary)
  | [], out => .ok out
  | record :: records, out =>
      match parseLogRecord fromUtf8Error record with
      | .error e => .error e
      | .ok none => parseRecords records out
      | .ok (some summary) => parseRecords records (out ++ [summary])

/-- `parse_log_records`. The bytes are cut into records at every NUL, and a record into fields at
the byte 1. -/
def parseLogRecords (bytes : List UInt8) : Result (List CommitSummary) :=
  parseRecords fromUtf8Error (bytes.splitOn 0) []

end Reading

/-! ### What git prints -/

/-- A name and an email as git takes them. -/
structure Person where
  name : String
  email : String
  plain : ∀ c ∈ ['\x00', '\x01', '\n'], c ∉ name.toList ∧ c ∉ email.toList

structure LoggedCommit where
  oid : Oid
  parents : List Oid
  author : Person
  committer : Person
  timestamp : Nat
  message : String
  nulFree : '\x00' ∉ message.toList

/-- `%P`. -/
def LoggedCommit.parentsField (commit : LoggedCommit) : String :=
  String.ofList ([' '].intercalate (commit.parents.map fun p => p.text.toList))

/-- The fields before the message; `front` is what was printed since the last NUL. -/
def LoggedCommit.fields (commit : LoggedCommit) (front : String) : List String :=
  [front ++ commit.oid.text, commit.parentsField, commit.author.name, commit.author.email,
    commit.committer.name, commit.committer.email, toString commit.timestamp]

/-- `LOG_FORMAT` up to its NUL. -/
def LoggedCommit.record (commit : LoggedCommit) (front : String) : List UInt8 :=
  [1].intercalate ((commit.fields front ++ [commit.message]).map asBytes)

/-- A NUL ends each record, and a newline follows it. -/
def gitLog (commits : List LoggedCommit) : List UInt8 :=
  commits.flatMap fun commit => commit.record "" ++ [0, 10]

/-- The summary says what the commit says, in every field. Ids are texts there, and the time is a
signed number of 64 bits. -/
structure Summarizes (summary : CommitSummary) (commit : LoggedCommit) : Prop where
  sha : summary.sha = commit.oid.text
  parents : summary.parents = commit.parents.map Oid.text
  author : summary.author = ⟨commit.author.name, commit.author.email⟩
  committer : summary.committer = ⟨commit.committer.name, commit.committer.email⟩
  message : summary.message = commit.message
  timestamp : summary.timestamp.toInt = commit.timestamp

/-- The message has no byte 1 and no newline in front, and the time fits the field. -/
structure LoggedCommit.Plain (commit : LoggedCommit) : Prop where
  noSeparator : '\x01' ∉ commit.message.toList
  noNewline : commit.message.toList.head? ≠ some '\n'
  inTime : commit.timestamp < 2 ^ 63

/-! ### One record -/

/-- What is read of a commit: the message up to the first byte 1, without the newlines in
front. -/
def LoggedCommit.readBack (commit : LoggedCommit) : CommitSummary where
  sha := commit.oid.text
  parents := commit.parents.map Oid.text
  author := ⟨commit.author.name, commit.author.email⟩
  committer := ⟨commit.committer.name, commit.committer.email⟩
  message := trimStartMatches
    (String.ofList (commit.message.toList.takeWhile (· != '\x01'))) '\n'
  timestamp := if commit.timestamp < 2 ^ 63 then Int64.ofNat commit.timestamp else 0

theorem not_mem_parentsField {c : Char} (hc : isOidChar c = false) (hblank : c ≠ ' ')
    (commit : LoggedCommit) : c ∉ commit.parentsField.toList := by
  intro hmem
  rw [LoggedCommit.parentsField, String.toList_ofList] at hmem
  rcases mem_intercalate hmem with heq | ⟨word, hword, hin⟩
  · exact hblank heq
  · obtain ⟨p, -, rfl⟩ := List.mem_map.mp hword
    exact p.not_mem_text hc hin

/-- A control character that ends a field or a record is in no field before the message. -/
theorem not_mem_fields {c : Char} (hc : c ∈ ['\x00', '\x01', '\n']) {front : String}
    (hfront : c ∉ front.toList) (commit : LoggedCommit) :
    ∀ field ∈ commit.fields front, c ∉ field.toList := by
  have hclasses : ∀ c ∈ ['\x00', '\x01', '\n'],
      isOidChar c = false ∧ isAsciiDigit c = false ∧ c ≠ ' ' := by
    decide
  obtain ⟨hoid, hdigit, hblank⟩ := hclasses c hc
  intro field hfield
  simp only [LoggedCommit.fields, List.mem_cons, List.not_mem_nil, or_false] at hfield
  rcases hfield with rfl | rfl | rfl | rfl | rfl | rfl | rfl
  · rw [String.toList_append, List.mem_append, not_or]
    exact ⟨hfront, commit.oid.not_mem_text hoid⟩
  · exact not_mem_parentsField hoid hblank commit
  · exact (commit.author.plain c hc).1
  · exact (commit.author.plain c hc).2
  · exact (commit.committer.plain c hc).1
  · exact (commit.committer.plain c hc).2
  · exact not_mem_digits hdigit commit.timestamp

/-- The parents are read back. -/
theorem splitWhitespace_parentsField (commit : LoggedCommit) :
    splitWhitespace commit.parentsField = commit.parents.map Oid.text := by
  have hnonempty : [] ∉ commit.parents.map fun p => p.text.toList := by
    intro hmem
    obtain ⟨p, -, hnil⟩ := List.mem_map.mp hmem
    exact p.toList_ne_nil hnil
  have hplain : ∀ word ∈ commit.parents.map fun p => p.text.toList,
      ∀ c ∈ word, isWhitespace c = false := by
    intro word hword c hc
    obtain ⟨p, -, rfl⟩ := List.mem_map.mp hword
    exact p.isWhitespace_of_mem hc
  rw [splitWhitespace, LoggedCommit.parentsField, String.toList_ofList,
    wordsOf_intercalate hnonempty hplain, List.map_map]
  simp [Function.comp_def]

/-- The time is read back, if it fits the field. -/
theorem readBack_timestamp (n : Nat) :
    (parseI64 (trim (toString n))).getD 0 = if n < 2 ^ 63 then Int64.ofNat n else 0 := by
  rw [trim_eq_self, parseI64_toString]
  · split_ifs <;> rfl
  · intro c hc
    exact isWhitespace_of_isAsciiDigit (isAsciiDigit_of_mem hc)

/-- **What is read of one record.** -/
theorem parseLogRecord_record (fromUtf8Error : List UInt8 → String) (commit : LoggedCommit)
    {front : String} (hblank : ∀ c ∈ front.toList, isWhitespace c = true) :
    parseLogRecord fromUtf8Error (commit.record front) = .ok (some commit.readBack) := by
  have hfront : '\x01' ∉ front.toList := by
    intro hmem
    exact absurd (hblank _ hmem) (by decide)
  have hcut : (commit.record front).splitOn 1 =
      (commit.fields front).map asBytes ++ (asBytes commit.message).splitOn 1 := by
    rw [LoggedCommit.record, List.map_append, List.map_singleton, splitOn_intercalate_concat]
    intro field hfield hmem
    obtain ⟨field, hin, rfl⟩ := List.mem_map.mp hfield
    exact not_mem_fields (c := '\x01') (by decide) hfront commit field hin
      ((mem_asBytes_ascii (a := '\x01') (by decide)).mp hmem)
  have hmessage : ∃ rest, (asBytes commit.message).splitOn 1 =
      asBytes (String.ofList (commit.message.toList.takeWhile (· != '\x01'))) :: rest := by
    have hbytes := splitOn_asBytes (a := '\x01') (by decide) commit.message
    have hhead := head_splitOn '\x01' commit.message.toList
    cases hpieces : commit.message.toList.splitOn '\x01' with
    | nil => exact absurd hpieces (List.splitOn_ne_nil _ _)
    | cons piece rest =>
        rw [hpieces] at hbytes hhead
        rw [← Option.some.inj hhead]
        exact ⟨_, hbytes⟩
  have hne : (commit.record front).isEmpty = false := by
    cases hrecord : commit.record front with
    | nil =>
        rw [hrecord] at hcut
        exact absurd (congrArg List.length hcut) (by simp [LoggedCommit.fields])
    | cons b rest => rfl
  have hsha : trim (front ++ commit.oid.text) = commit.oid.text := by
    have htrim := trim_append hblank (fun _ => commit.oid.isWhitespace_of_mem)
    rwa [← String.toList_append, String.ofList_toList, String.ofList_toList] at htrim
  obtain ⟨rest, hrest⟩ := hmessage
  rw [parseLogRecord, hne, if_neg Bool.false_ne_true, hcut, hrest]
  simp only [LoggedCommit.fields, List.map_cons, List.map_nil, List.cons_append, List.nil_append,
    utf8Field, fromUtf8_asBytes, bind, Except.bind, pure, Except.pure, hsha, Option.getD_some,
    splitWhitespace_parentsField, readBack_timestamp]
  rfl

/-! ### The whole log -/

theorem record_front (commit : LoggedCommit) (front : String) :
    asBytes front ++ commit.record "" = commit.record front := by
  simp [LoggedCommit.record, LoggedCommit.fields, List.intercalate_cons_cons]

/-- No NUL is printed before the one that ends the record. -/
theorem zero_not_mem_record (commit : LoggedCommit) {front : String}
    (hfront : '\x00' ∉ front.toList) : (0 : UInt8) ∉ commit.record front := by
  intro hzero
  rcases mem_intercalate hzero with heq | ⟨word, hword, hin⟩
  · cases heq
  · obtain ⟨field, hfield, rfl⟩ := List.mem_map.mp hword
    have hchar : '\x00' ∈ field.toList := (mem_asBytes_ascii (a := '\x00') (by decide)).mp hin
    rcases List.mem_append.mp hfield with hfield | hmessage
    · exact not_mem_fields (by decide) hfront commit field hfield hchar
    · rw [List.mem_singleton.mp hmessage] at hchar
      exact commit.nulFree hchar

/-- **What is read of a log**: one summary for each commit, in order. -/
theorem parseRecords_gitLog (fromUtf8Error : List UInt8 → String) (commits : List LoggedCommit)
    (out : List CommitSummary) (front : String) (hfront : front = "" ∨ front = "\n") :
    parseRecords fromUtf8Error ((asBytes front ++ gitLog commits).splitOn 0) out =
      .ok (out ++ commits.map LoggedCommit.readBack) := by
  induction commits generalizing out front with
  | nil =>
      -- what follows the last NUL is one field
      rw [gitLog, List.flatMap_nil, List.map_nil, List.append_nil, List.append_nil]
      rcases hfront with rfl | rfl <;> rfl
  | cons commit commits ih =>
      have hblank : ∀ c ∈ front.toList, isWhitespace c = true := by
        rcases hfront with rfl | rfl <;> simp [isWhitespace]
      have hnul : '\x00' ∉ front.toList := by
        rcases hfront with rfl | rfl <;> simp
      have hcut : (asBytes front ++ gitLog (commit :: commits)).splitOn 0 =
          commit.record front :: (asBytes "\n" ++ gitLog commits).splitOn 0 := by
        rw [gitLog, List.flatMap_cons, List.append_assoc, ← List.append_assoc, record_front]
        exact List.splitOn_append_cons_self_of_not_mem (zero_not_mem_record commit hnul) _
      rw [hcut, parseRecords, parseLogRecord_record fromUtf8Error commit hblank]
      dsimp only
      rw [ih (out ++ [commit.readBack]) "\n" (Or.inr rfl), List.map_cons, List.append_assoc]
      rfl

theorem parseLogRecords_gitLog (fromUtf8Error : List UInt8 → String)
    (commits : List LoggedCommit) :
    parseLogRecords fromUtf8Error (gitLog commits) = .ok (commits.map LoggedCommit.readBack) :=
  parseRecords_gitLog fromUtf8Error commits [] "" (Or.inl rfl)

/-- A message keeps its length where nothing is cut off it. -/
theorem readBack_message_iff (message : String) :
    trimStartMatches (String.ofList (message.toList.takeWhile (· != '\x01'))) '\n' = message ↔
      '\x01' ∉ message.toList ∧ message.toList.head? ≠ some '\n' := by
  rw [trimStartMatches, String.toList_ofList, ← String.toList_inj, String.toList_ofList]
  constructor
  · intro h
    have hsuffix := List.dropWhile_suffix (l := message.toList.takeWhile (· != '\x01')) (· == '\n')
    have hprefix := List.takeWhile_prefix (l := message.toList) (· != '\x01')
    have hlength : (message.toList.takeWhile (· != '\x01')).length = message.toList.length := by
      have hle := hsuffix.length_le
      have hle' := hprefix.length_le
      rw [h] at hle
      omega
    have hwhole := hprefix.eq_of_length hlength
    constructor
    · intro hmem
      rw [← hwhole] at hmem
      simpa using List.mem_takeWhile_imp hmem
    · intro hnewline
      rw [hwhole] at h
      have hhead := List.head?_dropWhile_not (· == '\n') message.toList
      rw [h, hnewline] at hhead
      simp at hhead
  · rintro ⟨hseparator, hnewline⟩
    have hwhole : message.toList.takeWhile (· != '\x01') = message.toList := by
      rw [List.takeWhile_eq_self_iff]
      intro c hc
      rw [bne_iff_ne]
      rintro rfl
      exact hseparator hc
    rw [hwhole]
    cases hmessage : message.toList with
    | nil => rfl
    | cons c rest =>
        rw [hmessage, List.head?_cons, ne_eq, Option.some.injEq] at hnewline
        exact List.dropWhile_cons_of_neg (by simpa using hnewline)

/-- A commit is read back as it is exactly when it is plain. -/
theorem summarizes_readBack_iff (commit : LoggedCommit) :
    Summarizes commit.readBack commit ↔ commit.Plain := by
  have htime : (if commit.timestamp < 2 ^ 63 then Int64.ofNat commit.timestamp else 0).toInt =
      commit.timestamp ↔ commit.timestamp < 2 ^ 63 := by
    split_ifs with hsmall
    · simp only [hsmall, iff_true]
      exact Int64.toInt_ofNat_of_lt hsmall
    · simp only [hsmall, iff_false, Int64.toInt_zero]
      omega
  constructor
  · intro h
    obtain ⟨hseparator, hnewline⟩ := (readBack_message_iff commit.message).mp h.message
    exact ⟨hseparator, hnewline, htime.mp h.timestamp⟩
  · intro h
    exact ⟨rfl, rfl, rfl, rfl, (readBack_message_iff commit.message).mpr ⟨h.noSeparator, h.noNewline⟩,
      htime.mpr h.inTime⟩

/-- **A log is read back exactly when its commits are plain.** A commit is plain if its message has
no byte 1 and no newline in front, and if its time fits the field. The commits are any list, with
any parents, any names that git takes and any text without NUL for a message. What is read back is
every field of every commit, in order. -/
theorem parse_log_records_iff (fromUtf8Error : List UInt8 → String)
    (commits : List LoggedCommit) :
    (∃ out, parseLogRecords fromUtf8Error (gitLog commits) = .ok out ∧
        List.Forall₂ Summarizes out commits) ↔
      ∀ commit ∈ commits, commit.Plain := by
  rw [parseLogRecords_gitLog]
  simp only [Except.ok.injEq, exists_eq_left', List.forall₂_map_left_iff, List.forall₂_same,
    summarizes_readBack_iff]

/-- A commit whose message has the separator of the fields. -/
def separatorCommit : LoggedCommit where
  oid := ⟨"9fceb02d0ae598e95dc970b74767f19372d61af8", by decide⟩
  parents := []
  author := ⟨"agent", "agent@example.com", by decide⟩
  committer := ⟨"agent", "agent@example.com", by decide⟩
  timestamp := 1700000000
  message := "first\x01second"
  nulFree := by decide

/-- Its message ends at the separator. -/
theorem separator_cuts_message :
    ¬ ∃ out, parseLogRecords (fun _ => "invalid utf-8 sequence") (gitLog [separatorCommit]) =
        .ok out ∧ List.Forall₂ Summarizes out [separatorCommit] := by
  rintro ⟨out, hout, hall⟩
  rw [parseLogRecords_gitLog, Except.ok.injEq] at hout
  subst hout
  have hplain := (summarizes_readBack_iff separatorCommit).mp (List.forall₂_cons.mp hall).1
  exact absurd hplain.noSeparator (by decide)

end Reads
end Artifacts
