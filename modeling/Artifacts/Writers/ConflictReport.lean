import Artifacts.Rust.Numbers
import Artifacts.Writers.MergeTable

/-!
# The report of a conflict

`Report` is what `git merge-tree --write-tree -z` prints for a merge with conflicts: the
tree, the section of conflicted files, an empty record and the informational messages.
`run_merge_tree` does not stop at the empty record: it takes a path from every record with
a TAB, so a message about a file with a TAB in its name adds what stands behind the TAB.

`Message` is any message that git may print, with the paths it is about.  Nothing is asked of
the texts but that they have no NUL, since a file name may hold nearly anything.
-/

namespace Artifacts
namespace Writers

open Foundation Rust

/-! ### What git prints -/

inductive Stage where
  | base
  | ours
  | theirs
  deriving DecidableEq, Repr

def Stage.text : Stage → String
  | .base => "1"
  | .ours => "2"
  | .theirs => "3"

/-- One version of a conflicted file, as a record of `git merge-tree -z` has it. A path holds any
characters but NUL, newlines and blanks included. -/
structure ConflictedFile where
  mode : String
  octal : ∀ c ∈ mode.toList, isAsciiDigit c = true
  oid : Oid
  stage : Stage
  path : String
  nulFree : '\x00' ∉ path.toList

/-- What stands before the TAB. -/
def ConflictedFile.head (file : ConflictedFile) : String :=
  file.mode ++ " " ++ file.oid.text ++ " " ++ file.stage.text

def ConflictedFile.record (file : ConflictedFile) : String :=
  file.head ++ "\t" ++ file.path

/-- An informational message: the paths it is about, its kind and its text. -/
structure Message where
  paths : List String
  kind : String
  text : String
  nulFree : ∀ record ∈ kind :: text :: paths, '\x00' ∉ record.toList

def Message.records (message : Message) : List String :=
  toString message.paths.length :: (message.paths ++ [message.kind, message.text])

structure Report where
  tree : Oid
  files : List ConflictedFile
  messages : List Message

/-- The records behind the tree. -/
def Report.records (report : Report) : List String :=
  report.files.map ConflictedFile.record ++ "" :: report.messages.flatMap Message.records

/-- Every record ends with a NUL. -/
def Report.stdout (report : Report) : List UInt8 :=
  asBytes report.tree.text ++ 0 :: report.records.flatMap fun record => asBytes record ++ [0]

/-! ### Records with a TAB -/

/-- What stands behind the first TAB. -/
def afterTab (record : String) : Option String := (splitOnce record '\t').map Prod.snd

theorem tab_mem_asBytes (record : String) : (9 : UInt8) ∈ asBytes record ↔ '\t' ∈ record.toList :=
  mem_asBytes_ascii (a := '\t') (by decide)

/-- The scan of the bytes finds what the text has behind its first TAB. -/
theorem fromUtf8_behind_tab (record path : String) :
    ((9 : UInt8) ∈ asBytes record ∧
        fromUtf8 (((asBytes record).dropWhile (· != 9)).drop 1) = some path) ↔
      afterTab record = some path := by
  have htab := tab_mem_asBytes record
  unfold afterTab
  cases hcut : splitOnce record '\t' with
  | none =>
      have hno : '\t' ∉ record.toList := by
        intro hmem
        unfold splitOnce at hcut
        rw [if_pos hmem] at hcut
        cases hcut
      simp [htab, hno]
  | some cut =>
      obtain ⟨head, tail⟩ := cut
      have hrecord := splitOnce_eq_some hcut
      have hhead : '\t' ∉ head.toList := by
        unfold splitOnce at hcut
        split_ifs at hcut
        cases hcut
        rw [String.toList_ofList]
        intro hmem
        simpa using List.mem_takeWhile_imp hmem
      have hbytes : asBytes record = asBytes head ++ 9 :: asBytes tail := by
        rw [hrecord, asBytes_append, asBytes_append, List.append_assoc]
        rfl
      have hall : ∀ b ∈ asBytes head, (b != 9) = true := by
        intro b hb
        rw [bne_iff_ne]
        rintro rfl
        exact hhead ((tab_mem_asBytes head).mp hb)
      have hdrop : ((asBytes record).dropWhile (· != 9)).drop 1 = asBytes tail := by
        rw [hbytes, List.dropWhile_append_of_pos hall, List.dropWhile_cons_of_neg (by decide)]
        rfl
      have hmem : (9 : UInt8) ∈ asBytes record := by
        rw [hbytes]
        simp
      rw [hdrop, fromUtf8_asBytes]
      simp [hmem]

/-- Before the TAB there are only digits and blanks. -/
theorem ConflictedFile.not_mem_head (file : ConflictedFile) {c : Char}
    (hdigit : isAsciiDigit c = false) (hoid : isOidChar c = false) (hblank : c ≠ ' ')
    (hstage : c ∉ ['1', '2', '3']) : c ∉ file.head.toList := by
  intro hmem
  simp only [ConflictedFile.head, String.toList_append, List.mem_append] at hmem
  have hspace : c ∉ " ".toList := by
    simpa using hblank
  rcases hmem with (((hmode | hbetween) | hid) | hbetween) | hnumber
  · exact Bool.noConfusion ((file.octal c hmode).symm.trans hdigit)
  · exact hspace hbetween
  · exact file.oid.not_mem_text hoid hid
  · exact hspace hbetween
  · cases hcase : file.stage <;> simp_all [Stage.text]

/-- The record of a file has its path behind the TAB. -/
theorem ConflictedFile.afterTab_record (file : ConflictedFile) :
    afterTab file.record = some file.path := by
  have hhead : '\t' ∉ file.head.toList :=
    file.not_mem_head (by decide) (by decide) (by decide) (by decide)
  rw [afterTab, ConflictedFile.record, splitOnce_append file.path rfl hhead]
  rfl

/-- One record of text. -/
theorem conflictPaths_cons (record : String) (records : List (List UInt8)) (paths : List String) :
    conflictPaths (asBytes record :: records) paths =
      match afterTab record with
      | some path => conflictPaths records (if paths.contains path then paths else paths ++ [path])
      | none => conflictPaths records paths := by
  have hscan := fromUtf8_behind_tab record
  rw [conflictPaths]
  cases hpath : afterTab record with
  | some path =>
      obtain ⟨htab, hutf8⟩ := (hscan path).mpr hpath
      rw [if_pos htab, hutf8]
  | none =>
      have hno : (9 : UInt8) ∉ asBytes record := by
        intro htab
        rw [tab_mem_asBytes] at htab
        simp [afterTab, splitOnce, htab] at hpath
      rw [if_neg hno]

/-- **The scan of records of text** ends with each path that stands behind a TAB, once. -/
theorem conflictPaths_text (records paths : List String) (hnodup : paths.Nodup) :
    ∃ paths', conflictPaths (records.map asBytes) paths = .ok paths' ∧ paths'.Nodup ∧
      ∀ path, path ∈ paths' ↔ path ∈ paths ∨ ∃ record ∈ records, afterTab record = some path := by
  induction records generalizing paths with
  | nil => exact ⟨paths, rfl, hnodup, by simp⟩
  | cons record records ih =>
      rw [List.map_cons, conflictPaths_cons]
      cases hpath : afterTab record with
      | none => simpa [hpath] using ih paths hnodup
      | some new =>
          by_cases hmem : new ∈ paths
          · obtain ⟨paths', heq, hnodup', hiff⟩ := ih paths hnodup
            refine ⟨paths', by simpa [hmem] using heq, hnodup', ?_⟩
            intro path
            rw [hiff]
            simp only [List.exists_mem_cons_iff, hpath, Option.some.injEq]
            constructor
            · tauto
            · rintro (hold | rfl | hlater)
              · exact Or.inl hold
              · exact Or.inl hmem
              · exact Or.inr hlater
          · have hpushed : (paths ++ [new]).Nodup := by
              rw [List.nodup_append]
              refine ⟨hnodup, by simp, ?_⟩
              intro a ha b hb hab
              rw [List.mem_singleton] at hb
              exact hmem (hb ▸ hab ▸ ha)
            obtain ⟨paths', heq, hnodup', hiff⟩ := ih (paths ++ [new]) hpushed
            refine ⟨paths', by simpa [hmem] using heq, hnodup', ?_⟩
            intro path
            rw [hiff]
            simp only [List.mem_append, List.mem_singleton, List.exists_mem_cons_iff, hpath,
              Option.some.injEq, eq_comm (a := new), or_assoc]

/-! ### Whole reports -/

theorem Report.nulFree (report : Report) :
    ∀ record ∈ report.records, (0 : UInt8) ∉ asBytes record := by
  intro record hrecord hbyte
  have hzero : '\x00' ∈ record.toList := (mem_asBytes_ascii (a := '\x00') (by decide)).mp hbyte
  rcases List.mem_append.mp hrecord with hfile | hrest
  · obtain ⟨file, -, rfl⟩ := List.mem_map.mp hfile
    simp only [ConflictedFile.record, String.toList_append, List.mem_append] at hzero
    rcases hzero with (hhead | htab) | hpath
    · exact absurd hhead (file.not_mem_head (by decide) (by decide) (by decide) (by decide))
    · simp at htab
    · exact file.nulFree hpath
  · rcases List.mem_cons.mp hrest with rfl | hmessage
    · simp at hzero
    · obtain ⟨message, -, hmem⟩ := List.mem_flatMap.mp hmessage
      simp only [Message.records, List.mem_cons, List.mem_append, List.not_mem_nil, or_false] at hmem
      rcases hmem with rfl | hpath | rfl | rfl
      · exact not_mem_digits (by decide) _ hzero
      · exact message.nulFree record (by simp [hpath]) hzero
      · exact message.nulFree _ (by simp) hzero
      · exact message.nulFree _ (by simp) hzero

/-- The report is cut into the records it was written from. -/
theorem Report.cut (report : Report) :
    ((report.stdout.dropWhile (· != 0)).drop 1).splitOn 0 =
      (report.records ++ [""]).map asBytes := by
  rw [Report.stdout, (cut_report _ _).2]
  have hterminated : report.records.flatMap (fun record => asBytes record ++ [0]) =
      (report.records.map asBytes).flatMap fun word => word ++ [0] := by
    rw [List.flatMap_map]
  rw [hterminated, splitOn_terminated]
  · simp [asBytes]
  · intro word hword
    obtain ⟨record, hrecord, rfl⟩ := List.mem_map.mp hword
    exact report.nulFree record hrecord

/-- The paths of the section of conflicted files, each once. A path stands there up to three times,
once for each version. -/
def ReportsExactly (report : Report) (result : Result MergeTreeOutcome) : Prop :=
  ∃ paths, result = .ok (.conflict paths) ∧ paths.Nodup ∧
    ∀ path, path ∈ paths ↔ ∃ file ∈ report.files, file.path = path

/-- What is read out of a report: the paths behind the TABs of all records. -/
theorem readMergeTree_report (report : Report) (stderr : List UInt8) :
    ∃ paths, paths.Nodup ∧
      (∀ path, path ∈ paths ↔ ∃ record ∈ report.records, afterTab record = some path) ∧
      readMergeTree (.ok (1, report.stdout, stderr)) =
        match paths with
        | [] => .error (.other "merge-tree reported conflict but emitted no parseable paths")
        | path :: paths => .ok (.conflict (path :: paths)) := by
  obtain ⟨paths, hscan, hnodup, hmem⟩ :=
    conflictPaths_text (report.records ++ [""]) [] List.nodup_nil
  refine ⟨paths, hnodup, ?_, ?_⟩
  · intro path
    have hnone : afterTab "" = none := by decide
    simp [hmem, hnone]
  · have hnul : ¬ (0 : UInt8) ∉ report.stdout := not_not.mpr (by simp [Report.stdout])
    have htree : report.stdout.takeWhile (· != 0) = asBytes report.tree.text :=
      (cut_report _ _).1
    unfold readMergeTree
    dsimp only
    rw [if_neg (by decide), if_neg hnul, htree, utf8Trimmed_oid]
    dsimp only
    rw [if_neg (by decide), report.cut, hscan]
    cases paths <;> rfl

/-- A path behind a TAB of a message is taken for a conflicted one. -/
theorem reported_of_message {report : Report} {stderr : List UInt8}
    (h : ReportsExactly report (readMergeTree (.ok (1, report.stdout, stderr)))) :
    report.files ≠ [] ∧ ∀ message ∈ report.messages, ∀ record ∈ message.records, ∀ path,
      afterTab record = some path → ∃ file ∈ report.files, file.path = path := by
  obtain ⟨paths, hnodup, hmem, hread⟩ := readMergeTree_report report stderr
  obtain ⟨reported, heq, -, hfiles⟩ := h
  rw [hread] at heq
  cases paths with
  | nil => cases heq
  | cons first rest =>
      cases heq
      constructor
      · rintro hnil
        obtain ⟨file, hfile, -⟩ := (hfiles first).mp List.mem_cons_self
        rw [hnil] at hfile
        cases hfile
      · intro message hmessage record hrecord path hpath
        apply (hfiles path).mp
        apply (hmem path).mpr
        refine ⟨record, ?_, hpath⟩
        apply List.mem_append_right
        apply List.mem_cons_of_mem
        exact List.mem_flatMap.mpr ⟨message, hmessage, hrecord⟩

/-- **`run_merge_tree` reports the conflicted paths exactly when there are any and no message has
another path behind its first TAB.** The report is any that git prints with exit code 1, with any
number of conflicted files and stages and messages of any texts. -/
theorem reports_conflicts_iff (report : Report) (stderr : List UInt8) :
    ReportsExactly report (readMergeTree (.ok (1, report.stdout, stderr))) ↔
      report.files ≠ [] ∧ ∀ message ∈ report.messages, ∀ record ∈ message.records, ∀ path,
        afterTab record = some path → ∃ file ∈ report.files, file.path = path := by
  constructor
  · exact reported_of_message
  · rintro ⟨hne, hmessages⟩
    obtain ⟨paths, hnodup, hmem, hread⟩ := readMergeTree_report report stderr
    have hfiles : ∀ path, path ∈ paths ↔ ∃ file ∈ report.files, file.path = path := by
      intro path
      rw [hmem]
      constructor
      · rintro ⟨record, hrecord, hpath⟩
        rcases List.mem_append.mp hrecord with hsection | hrest
        · obtain ⟨file, hfile, rfl⟩ := List.mem_map.mp hsection
          rw [file.afterTab_record, Option.some.injEq] at hpath
          exact ⟨file, hfile, hpath⟩
        · rcases List.mem_cons.mp hrest with rfl | hmessage
          · cases hpath
          · obtain ⟨message, hmessage, hrecord⟩ := List.mem_flatMap.mp hmessage
            exact hmessages message hmessage record hrecord path hpath
      · rintro ⟨file, hfile, rfl⟩
        exact ⟨file.record, List.mem_append_left _ (List.mem_map_of_mem hfile),
          file.afterTab_record⟩
    cases paths with
    | nil =>
        obtain ⟨file, hfile⟩ := List.exists_mem_of_ne_nil _ hne
        exact absurd ((hfiles file.path).mpr ⟨file, hfile, rfl⟩) (by simp)
    | cons first rest => exact ⟨first :: rest, hread, hnodup, hfiles⟩

/-- A merge that conflicts in a file with a TAB in its name. -/
def tabReport : Report where
  tree := ⟨"d8329fc1cc938780ffdd9f94e0d364e0ea74f579", by decide⟩
  files :=
    [{ mode := "100644"
       octal := by decide
       oid := ⟨"83baae61804e65cc73a7201a7252750c76066a30", by decide⟩
       stage := .ours
       path := "a\tb"
       nulFree := by decide }]
  messages :=
    [{ paths := ["a\tb"]
       kind := "CONFLICT (contents)"
       text := "CONFLICT (content): Merge conflict in a\tb\n"
       nulFree := by decide }]

/-- The path in the message is cut at its TAB, and `b` is reported. -/
theorem message_path_reported : ¬ ReportsExactly tabReport
    (readMergeTree (.ok (1, tabReport.stdout, []))) := by
  intro h
  obtain ⟨file, hfile, hpath⟩ := (reported_of_message h).2 _ List.mem_cons_self "a\tb"
    (by decide) "b" (by decide)
  rw [List.mem_singleton.mp hfile] at hpath
  exact absurd hpath (by decide)

end Writers
end Artifacts
