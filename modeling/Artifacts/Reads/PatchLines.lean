import Artifacts.Reads.GitDiff
import Artifacts.Rust.Numbers
import Mathlib.Algebra.BigOperators.Group.List.Basic
import Mathlib.Data.List.Basic

/-!
# The patch, line by line

What `patchLine` does with the lines that git prints: a line that is not of a hunk is skipped,
sets a status or opens a hunk, and a line of a hunk is read up to what `HunkLine.read` says.

* `Skipped` are the lines that change nothing, whatever the state.
* `runLines_hunk` is the one lemma about a hunk that later modules use.
* `Printable` lines are what git prints outside of hunks, so that no carriage return is cut off
  there.
-/

namespace Artifacts
namespace Reads

open Rust

/-! ### Lines -/

/-- A printable character of ASCII. -/
def Printable (c : Char) : Prop := 32 ≤ c.toNat ∧ c.toNat < 127

instance (c : Char) : Decidable (Printable c) := inferInstanceAs (Decidable (_ ∧ _))

theorem quoteByte_printable (b : UInt8) : ∀ c ∈ quoteByte b, Printable c := by
  have hall : ∀ n < 256, ∀ c ∈ quoteByte (UInt8.ofNat n), Printable c := by decide +kernel
  have hb := hall b.toNat b.toNat_lt
  rwa [UInt8.ofNat_toNat] at hb

theorem quoted_printable (p : FilePath) : ∀ c ∈ p.quoted, Printable c := by
  intro c hc
  obtain ⟨b, -, hc⟩ := List.mem_flatMap.mp hc
  exact quoteByte_printable b c hc

theorem quoteTwo_printable {pre : List Char} (hpre : ∀ c ∈ pre, Printable c) (p : FilePath) :
    ∀ c ∈ quoteTwo pre p, Printable c := by
  intro c hc
  unfold quoteTwo at hc
  split_ifs at hc
  · rw [List.mem_cons, List.mem_append, List.mem_append, List.mem_singleton] at hc
    rcases hc with rfl | (hc | hc) | rfl
    · decide
    · exact hpre c hc
    · exact quoted_printable p c hc
    · decide
  · rcases List.mem_append.mp hc with hc | hc
    · exact hpre c hc
    · exact quoted_printable p c hc

theorem arrow_printable : ∀ c ∈ " => ".toList, Printable c := forall_mem_of_all (by decide)

theorem pprintRename_printable (a b : FilePath) : ∀ c ∈ pprintRename a b, Printable c := by
  have hold : ∀ c ∈ quoteTwo [] a, Printable c := quoteTwo_printable (by simp) a
  have hnew : ∀ c ∈ quoteTwo [] b, Printable c := quoteTwo_printable (by simp) b
  have hsimple : ∀ c ∈ quoteTwo [] a ++ " => ".toList ++ quoteTwo [] b, Printable c := by
    intro c hc
    rcases List.mem_append.mp hc with hc | hc
    · rcases List.mem_append.mp hc with hc | hc
      · exact hold c hc
      · exact arrow_printable c hc
    · exact hnew c hc
  intro c hc
  unfold pprintRename at hc
  dsimp only at hc
  split_ifs at hc with hquotes hfolded
  · exact hsimple c hc
  · exact hsimple c hc
  · simp only [List.mem_append, List.mem_cons] at hc
    rcases hc with hc | rfl | ((hc | hc) | hc) | rfl | hc
    · exact hold c (List.mem_of_mem_take hc)
    · decide
    · exact hold c (List.mem_of_mem_drop (List.mem_of_mem_take hc))
    · exact arrow_printable c hc
    · exact hnew c (List.mem_of_mem_drop (List.mem_of_mem_take hc))
    · decide
    · exact hold c (List.mem_of_mem_drop hc)

theorem stripCr_of_printable {l : List Char} (h : ∀ c ∈ l, Printable c) : stripCr l = l := by
  unfold stripCr
  rw [if_neg]
  intro hlast
  have hcr := (h '\r' (List.mem_of_getLast? hlast)).1
  revert hcr
  decide

/-- Only the end of a line is cut. -/
theorem stripCr_append_of_ne_nil (front : List Char) {back : List Char} (h : back ≠ []) :
    stripCr (front ++ back) = front ++ stripCr back := by
  unfold stripCr
  rw [List.getLast?_append_of_ne_nil front h]
  split_ifs
  · exact List.dropLast_append_of_ne_nil h
  · rfl

theorem stripCr_cons {c : Char} (hc : c ≠ '\r') (text : List Char) :
    stripCr (c :: text) = c :: stripCr text := by
  cases text with
  | nil => simp [stripCr, hc]
  | cons d rest => exact stripCr_append_of_ne_nil [c] (List.cons_ne_nil d rest)

/-- Lines that were written with a newline each. -/
theorem lines_unlines {ls : List (List Char)} (h : ∀ l ∈ ls, '\n' ∉ l) :
    lines (unlines ls) = ls.map fun l => String.ofList (stripCr l) :=
  lines_flatMap h

/-! ### Numbers -/

/-- A number as `parse::<u32>` and `unwrap_or(0)` leave it. -/
def asU32 (n : Nat) : Nat := if n < 2 ^ 32 then n else 0

theorem parseU32_toString (n : Nat) : (parseU32 (toString n)).getD 0 = asU32 n := by
  change (parseUnsigned 32 (toString n)).getD 0 = asU32 n
  rw [parseUnsigned_toString, asU32]
  split_ifs <;> rfl

/-! ### Lines that say nothing -/

theorem startsWith_ofList {l : List Char} {pat : String} :
    startsWith (String.ofList l) pat = pat.toList.isPrefixOf l := by
  unfold startsWith
  rw [String.toList_ofList]

theorem startsWith_of_head_ne {c d : Char} {rest ds : List Char} {pat : String}
    (hpat : pat.toList = d :: ds) (h : d ≠ c) :
    startsWith (String.ofList (c :: rest)) pat = false := by
  rw [startsWith_ofList, hpat, List.isPrefixOf_cons_cons, beq_eq_false_iff_ne.mpr h]
  rfl

theorem stripPrefix_of_not {s pat : String} (h : startsWith s pat = false) :
    stripPrefix s pat = none := by
  unfold stripPrefix
  rw [h]
  rfl

theorem stripPrefix_append {pat : String} (rest : List Char) :
    stripPrefix (String.ofList (pat.toList ++ rest)) pat = some (String.ofList rest) := by
  unfold stripPrefix
  rw [startsWith_ofList, if_pos (List.isPrefixOf_iff_prefix.mpr (List.prefix_append _ _)),
    String.toList_ofList, List.drop_left]

/-- A line of no other kind goes to the open hunk. -/
theorem patchLine_inside (st : DiffState) {line : String}
    (hdiff : startsWith line "diff --git " = false) (hnew : startsWith line "new file mode" = false)
    (hdeleted : startsWith line "deleted file mode" = false)
    (hat : startsWith line "@@ " = false) :
    patchLine st line = { st with currentHunk := st.currentHunk.map fun h => hunkLine h line } := by
  unfold patchLine
  rw [stripPrefix_of_not hdiff, hnew, hdeleted, stripPrefix_of_not hat]
  rfl

theorem patchLine_of_head (st : DiffState) {c : Char} {rest : List Char} (hd : 'd' ≠ c)
    (hn : 'n' ≠ c) (hat : '@' ≠ c) :
    patchLine st (String.ofList (c :: rest)) =
      { st with currentHunk := st.currentHunk.map fun h => hunkLine h (String.ofList (c :: rest)) } :=
  patchLine_inside st
    (startsWith_of_head_ne (by decide : "diff --git ".toList = 'd' :: "iff --git ".toList) hd)
    (startsWith_of_head_ne (by decide : "new file mode".toList = 'n' :: "ew file mode".toList) hn)
    (startsWith_of_head_ne (by decide : "deleted file mode".toList = 'd' :: "eleted file mode".toList)
      hd)
    (startsWith_of_head_ne (by decide : "@@ ".toList = '@' :: "@ ".toList) hat)

/-- A line that is skipped wherever it stands: the reader of the patch is as it was, whatever file
and hunk are current. -/
def Skipped (line : String) : Prop := ∀ st, patchLine st line = st

theorem skipped_of_hunkLine {line : String}
    (h : ∀ st, patchLine st line =
      { st with currentHunk := st.currentHunk.map fun h => hunkLine h line })
    (hsame : ∀ hunk, hunkLine hunk line = hunk) : Skipped line := by
  intro st
  rw [h]
  obtain ⟨files, currentFile, currentHunk⟩ := st
  cases currentHunk with
  | none => rfl
  | some hunk =>
      show (⟨files, currentFile, some (hunkLine hunk line)⟩ : DiffState) = _
      rw [hsame]

/-- A line that begins with another letter. -/
theorem skipped_of_head {c : Char} {rest : List Char}
    (h : ∀ d ∈ ['d', 'n', '@', '+', '-', ' '], d ≠ c) : Skipped (String.ofList (c :: rest)) := by
  refine skipped_of_hunkLine (fun st => patchLine_of_head st (h 'd' (by decide)) (h 'n' (by decide))
    (h '@' (by decide))) fun hunk => ?_
  unfold hunkLine
  rw [stripPrefix_of_not (startsWith_of_head_ne (by decide : "+".toList = ['+']) (h '+' (by decide))),
    stripPrefix_of_not (startsWith_of_head_ne (by decide : "-".toList = ['-']) (h '-' (by decide))),
    stripPrefix_of_not (startsWith_of_head_ne (by decide : " ".toList = [' ']) (h ' ' (by decide)))]

/-- The names of the old contents. -/
theorem skipped_minus (label : List Char) :
    Skipped (String.ofList ("--- ".toList ++ label)) := by
  refine skipped_of_hunkLine (fun st => patchLine_of_head st (by decide) (by decide) (by decide))
    fun hunk => ?_
  have hminus : stripPrefix (String.ofList ("--- ".toList ++ label)) "-" =
      some (String.ofList ("-- ".toList ++ label)) := @stripPrefix_append "-" ("-- ".toList ++ label)
  have hthree : startsWith (String.ofList ("--- ".toList ++ label)) "---" = true := by
    rw [startsWith_ofList]
    rfl
  have hplus : startsWith (String.ofList ("--- ".toList ++ label)) "+" = false :=
    startsWith_of_head_ne (by decide : "+".toList = ['+']) (by decide)
  unfold hunkLine
  rw [stripPrefix_of_not hplus, hminus, hthree]
  rfl

/-- The names of the new contents. -/
theorem skipped_plus (label : List Char) :
    Skipped (String.ofList ("+++ ".toList ++ label)) := by
  refine skipped_of_hunkLine (fun st => patchLine_of_head st (by decide) (by decide) (by decide))
    fun hunk => ?_
  have hplus : stripPrefix (String.ofList ("+++ ".toList ++ label)) "+" =
      some (String.ofList ("++ ".toList ++ label)) := @stripPrefix_append "+" ("++ ".toList ++ label)
  have hthree : startsWith (String.ofList ("+++ ".toList ++ label)) "+++" = true := by
    rw [startsWith_ofList]
    rfl
  unfold hunkLine
  rw [hplus, hthree]
  rfl

/-- The lines on a change of the mode. -/
theorem skipped_modeLines (oldMode newMode : FileMode) :
    ∀ line ∈ modeLines oldMode newMode, Skipped line := by
  have hold : ∀ mode : FileMode, Skipped ("old mode " ++ mode.text) := by
    intro mode
    have hskip := @skipped_of_head 'o' ("ld mode ".toList ++ mode.text.toList) (by decide)
    have hline : String.ofList ('o' :: ("ld mode ".toList ++ mode.text.toList)) =
        "old mode " ++ mode.text := by
      cases mode <;> decide
    rwa [hline] at hskip
  have hnew : ∀ mode : FileMode, Skipped ("new mode " ++ mode.text) := by
    intro mode
    refine skipped_of_hunkLine (fun st => patchLine_inside st ?_ ?_ ?_ ?_) fun hunk => ?_
    · cases mode <;> decide
    · cases mode <;> decide
    · cases mode <;> decide
    · cases mode <;> decide
    · have hplus : startsWith ("new mode " ++ mode.text) "+" = false := by cases mode <;> decide
      have hminus : startsWith ("new mode " ++ mode.text) "-" = false := by cases mode <;> decide
      have hblank : startsWith ("new mode " ++ mode.text) " " = false := by cases mode <;> decide
      unfold hunkLine
      rw [stripPrefix_of_not hplus, stripPrefix_of_not hminus, stripPrefix_of_not hblank]
  intro line hline
  unfold modeLines at hline
  split_ifs at hline
  · cases hline
  · rcases List.mem_cons.mp hline with rfl | hline
    · exact hold oldMode
    · obtain rfl := List.mem_singleton.mp hline
      exact hnew newMode

theorem patchLine_newFile (st : DiffState) (mode : FileMode) :
    patchLine st ("new file mode " ++ mode.text) = st.setStatus .added := by
  have hdiff : startsWith ("new file mode " ++ mode.text) "diff --git " = false := by
    cases mode <;> decide
  have hnew : startsWith ("new file mode " ++ mode.text) "new file mode" = true := by
    cases mode <;> decide
  unfold patchLine
  rw [stripPrefix_of_not hdiff, hnew]
  rfl

theorem patchLine_deletedFile (st : DiffState) (mode : FileMode) :
    patchLine st ("deleted file mode " ++ mode.text) = st.setStatus .deleted := by
  have hdiff : startsWith ("deleted file mode " ++ mode.text) "diff --git " = false := by
    cases mode <;> decide
  have hnew : startsWith ("deleted file mode " ++ mode.text) "new file mode" = false := by
    cases mode <;> decide
  have hdeleted : startsWith ("deleted file mode " ++ mode.text) "deleted file mode" = true := by
    cases mode <;> decide
  unfold patchLine
  rw [stripPrefix_of_not hdiff, hnew, hdeleted]
  rfl

/-! ### Hunks -/

/-- What is read of a line: a carriage return at its end is lost, and so is a line that looks
like the name of the contents. -/
def HunkLine.read (l : HunkLine) : Option DiffLine :=
  let text := String.ofList (stripCr l.text.toList)
  if l.kind == .add && startsWith text "++" || l.kind == .del && startsWith text "--" then none
  else some ⟨l.kind, text⟩

/-- What is read of a hunk. -/
def GitHunk.read (h : GitHunk) : DiffHunk where
  oldStart := asU32 h.oldStart
  oldLines := asU32 h.oldLines
  newStart := asU32 h.newStart
  newLines := asU32 h.newLines
  lines := h.lines.filterMap HunkLine.read

theorem hunkLine_ctx (h : DiffHunk) (text : List Char) :
    hunkLine h (String.ofList (' ' :: text)) =
      { h with lines := h.lines ++ [⟨.ctx, String.ofList text⟩] } := by
  have hplus : startsWith (String.ofList (' ' :: text)) "+" = false :=
    startsWith_of_head_ne (by decide : "+".toList = ['+']) (by decide)
  have hminus : startsWith (String.ofList (' ' :: text)) "-" = false :=
    startsWith_of_head_ne (by decide : "-".toList = ['-']) (by decide)
  have hblank : stripPrefix (String.ofList (' ' :: text)) " " = some (String.ofList text) :=
    @stripPrefix_append " " text
  unfold hunkLine
  rw [stripPrefix_of_not hplus, stripPrefix_of_not hminus, hblank]

theorem hunkLine_add (h : DiffHunk) (text : List Char) :
    hunkLine h (String.ofList ('+' :: text)) =
      if startsWith (String.ofList text) "++" then h
      else { h with lines := h.lines ++ [⟨.add, String.ofList text⟩] } := by
  have hthree : startsWith (String.ofList ('+' :: text)) "+++" =
      startsWith (String.ofList text) "++" := by
    rw [startsWith_ofList, startsWith_ofList]
    rfl
  have hplus : stripPrefix (String.ofList ('+' :: text)) "+" = some (String.ofList text) :=
    @stripPrefix_append "+" text
  unfold hunkLine
  rw [hplus, hthree]

theorem hunkLine_del (h : DiffHunk) (text : List Char) :
    hunkLine h (String.ofList ('-' :: text)) =
      if startsWith (String.ofList text) "--" then h
      else { h with lines := h.lines ++ [⟨.del, String.ofList text⟩] } := by
  have hthree : startsWith (String.ofList ('-' :: text)) "---" =
      startsWith (String.ofList text) "--" := by
    rw [startsWith_ofList, startsWith_ofList]
    rfl
  have hplus : startsWith (String.ofList ('-' :: text)) "+" = false :=
    startsWith_of_head_ne (by decide : "+".toList = ['+']) (by decide)
  have hminus : stripPrefix (String.ofList ('-' :: text)) "-" = some (String.ofList text) :=
    @stripPrefix_append "-" text
  unfold hunkLine
  rw [stripPrefix_of_not hplus, hminus, hthree]

/-- A printed line, in an open hunk. -/
theorem hunkLine_read (h : DiffHunk) (l : HunkLine) :
    hunkLine h (String.ofList (l.kind.sign :: stripCr l.text.toList)) =
      { h with lines := h.lines ++ l.read.toList } := by
  obtain ⟨kind, text, noNewline, oneLine⟩ := l
  cases kind with
  | ctx => exact hunkLine_ctx h _
  | add =>
      refine (hunkLine_add h _).trans ?_
      cases hdropped : startsWith (String.ofList (stripCr text.toList)) "++" with
      | true => simp [HunkLine.read, hdropped]
      | false => simp [HunkLine.read, hdropped]
  | del =>
      refine (hunkLine_del h _).trans ?_
      cases hdropped : startsWith (String.ofList (stripCr text.toList)) "--" with
      | true => simp [HunkLine.read, hdropped]
      | false => simp [HunkLine.read, hdropped]

/-- The lines of the patch, from printed lines. -/
def runLines (st : DiffState) (ls : List (List Char)) : DiffState :=
  (ls.map fun l => String.ofList (stripCr l)).foldl patchLine st

theorem runLines_append (st : DiffState) (ls ls' : List (List Char)) :
    runLines st (ls ++ ls') = runLines (runLines st ls) ls' := by
  unfold runLines
  rw [List.map_append, List.foldl_append]

theorem runLines_cons (st : DiffState) (l : List Char) (ls : List (List Char)) :
    runLines st (l :: ls) = runLines (patchLine st (String.ofList (stripCr l))) ls := rfl

theorem runLines_skipped {st : DiffState} {ls : List (List Char)}
    (h : ∀ l ∈ ls, Skipped (String.ofList (stripCr l))) : runLines st ls = st := by
  induction ls with
  | nil => rfl
  | cons l ls ih =>
      rw [runLines_cons, h l List.mem_cons_self st]
      exact ih fun l' hl' => h l' (List.mem_cons_of_mem l hl')

/-- A printed line of a hunk. -/
theorem runLines_line (files : List FileDiff) (cur : Option Nat) (h : DiffHunk) (l : HunkLine) :
    runLines ⟨files, cur, some h⟩ l.print =
      ⟨files, cur, some { h with lines := h.lines ++ l.read.toList }⟩ := by
  have hsign : l.kind.sign ≠ '\r' ∧ 'd' ≠ l.kind.sign ∧ 'n' ≠ l.kind.sign ∧ '@' ≠ l.kind.sign := by
    cases l.kind <;> decide
  have hmarker : ∀ st, runLines st
      (if l.noNewline then ["\\ No newline at end of file".toList] else []) = st := by
    intro st
    refine runLines_skipped fun line hline => ?_
    split_ifs at hline
    · obtain rfl := List.mem_singleton.mp hline
      exact skipped_of_head (by decide : ∀ d ∈ ['d', 'n', '@', '+', '-', ' '], d ≠ '\\')
    · cases hline
  unfold HunkLine.print
  rw [runLines_cons, hmarker, stripCr_cons hsign.1,
    patchLine_of_head _ hsign.2.1 hsign.2.2.1 hsign.2.2.2, Option.map_some, hunkLine_read]

theorem runLines_lines (files : List FileDiff) (cur : Option Nat) (h : DiffHunk)
    (ls : List HunkLine) :
    runLines ⟨files, cur, some h⟩ (ls.flatMap HunkLine.print) =
      ⟨files, cur, some { h with lines := h.lines ++ ls.filterMap HunkLine.read }⟩ := by
  induction ls generalizing h with
  | nil => simp [runLines]
  | cons l ls ih =>
      rw [List.flatMap_cons, runLines_append, runLines_line, ih, List.append_assoc]
      cases hread : l.read with
      | none => simp [hread]
      | some line => simp [hread]

theorem range_head (start count : Nat) : ∃ c rest, rangeText start count = c :: rest ∧
    isAsciiDigit c = true := by
  unfold rangeText
  cases hdigits : (toString start).toList with
  | nil => exact absurd hdigits (digits_ne_nil start)
  | cons c rest =>
      exact ⟨c, _, rfl, isAsciiDigit_of_mem (n := start) (by rw [hdigits]; exact List.mem_cons_self)⟩

/-- The ranges of a header are read as they are printed. -/
theorem parseHunkRange_range (sign : Char) (hsign : sign = '-' ∨ sign = '+') (start count : Nat) :
    parseHunkRange (String.ofList (sign :: rangeText start count)) = (asU32 start, asU32 count) := by
  obtain ⟨c, rest, hrange, hc⟩ := range_head start count
  have hminus : (c == '-') = false := by
    rw [beq_eq_false_iff_ne]
    rintro rfl
    revert hc
    decide
  have hplus : (c == '+') = false := by
    rw [beq_eq_false_iff_ne]
    rintro rfl
    revert hc
    decide
  -- both signs are trimmed, and the digits behind them begin with neither
  have htrim : trimStartMatches (trimStartMatches (String.ofList (sign :: rangeText start count))
      '-') '+' = String.ofList (rangeText start count) := by
    unfold trimStartMatches
    rw [hrange]
    rcases hsign with rfl | rfl
    · simp [hminus, hplus]
    · simp [hplus]
  have hcomma : ',' ∉ (toString start).toList := by
    intro hmem
    have hdigit := isAsciiDigit_of_mem hmem
    revert hdigit
    decide
  have hsplit : (splitOnce (String.ofList (rangeText start count)) ',').getD
      (String.ofList (rangeText start count), "1") = (toString start, toString count) := by
    unfold rangeText
    split_ifs with hone
    · have hnone : splitOnce (String.ofList ((toString start).toList ++ [])) ',' = none := by
        unfold splitOnce
        rw [String.toList_ofList, List.append_nil, if_neg hcomma]
      rw [hnone, hone, List.append_nil, String.ofList_toList, Option.getD_none]
      rfl
    · have hsome : splitOnce (String.ofList ((toString start).toList ++ ',' ::
          (toString count).toList)) ',' = some (toString start, toString count) := by
        have htext : toString start ++ "," ++ toString count =
            String.ofList ((toString start).toList ++ ',' :: (toString count).toList) := by
          rw [← String.toList_inj]
          simp
        rw [← htext]
        exact splitOnce_append (toString count) (by decide : ",".toList = [',']) hcomma
      rw [hsome, Option.getD_some]
  unfold parseHunkRange
  dsimp only
  rw [htrim, hsplit]
  dsimp only
  rw [parseU32_toString, parseU32_toString]

theorem blank_not_mem_range (start count : Nat) : ' ' ∉ rangeText start count := by
  have hdigits : ∀ n : Nat, ' ' ∉ (toString n).toList := by
    intro n hmem
    have hdigit := isAsciiDigit_of_mem hmem
    revert hdigit
    decide
  intro hmem
  unfold rangeText at hmem
  rcases List.mem_append.mp hmem with hmem | hmem
  · exact hdigits start hmem
  · split_ifs at hmem
    · cases hmem
    · rcases List.mem_cons.mp hmem with hcomma | hmem
      · revert hcomma
        decide
      · exact hdigits count hmem

/-- The header of a hunk, read. -/
theorem openHunk_header (h : GitHunk) : ∃ rest,
    stripCr h.header = "@@ ".toList ++ rest ∧
      openHunk (String.ofList rest) =
        ⟨asU32 h.oldStart, asU32 h.oldLines, asU32 h.newStart, asU32 h.newLines, []⟩ := by
  let tail := "@@".toList ++ if h.heading = "" then [] else ' ' :: h.heading.toList
  have hold : ' ' ∉ '-' :: rangeText h.oldStart h.oldLines := by
    intro hmem
    rcases List.mem_cons.mp hmem with hsign | hmem
    · revert hsign
      decide
    · exact blank_not_mem_range _ _ hmem
  have hnew : ' ' ∉ '+' :: rangeText h.newStart h.newLines := by
    intro hmem
    rcases List.mem_cons.mp hmem with hsign | hmem
    · revert hsign
      decide
    · exact blank_not_mem_range _ _ hmem
  have hheader : h.header = "@@ ".toList ++ (('-' :: rangeText h.oldStart h.oldLines) ++
      ' ' :: (('+' :: rangeText h.newStart h.newLines) ++ ' ' :: tail)) := by
    unfold GitHunk.header
    simp [tail]
  have htail : tail ≠ [] := List.cons_ne_nil _ _
  refine ⟨('-' :: rangeText h.oldStart h.oldLines) ++
      ' ' :: (('+' :: rangeText h.newStart h.newLines) ++ ' ' :: stripCr tail), ?_, ?_⟩
  · rw [hheader, stripCr_append_of_ne_nil _ (by simp), stripCr_append_of_ne_nil _ (by simp),
      stripCr_cons (by decide), stripCr_append_of_ne_nil _ (by simp), stripCr_cons (by decide)]
  · have hparts : split (String.ofList (('-' :: rangeText h.oldStart h.oldLines) ++
        ' ' :: (('+' :: rangeText h.newStart h.newLines) ++ ' ' :: stripCr tail))) ' ' =
        String.ofList ('-' :: rangeText h.oldStart h.oldLines) ::
          String.ofList ('+' :: rangeText h.newStart h.newLines) ::
            (((stripCr tail).splitOn ' ').map String.ofList) := by
      unfold split
      rw [String.toList_ofList, List.splitOn_append_cons_self_of_not_mem hold,
        List.splitOn_append_cons_self_of_not_mem hnew]
      rfl
    unfold openHunk
    rw [hparts]
    dsimp only [List.head?_cons, Option.getD_some, List.getElem?_cons_succ, List.getElem?_cons_zero]
    rw [parseHunkRange_range '-' (Or.inl rfl), parseHunkRange_range '+' (Or.inr rfl)]

/-- A printed hunk: the one before it is closed, and it is open. -/
theorem runLines_hunk (st : DiffState) (h : GitHunk) :
    runLines st h.print = ⟨st.closeHunk, st.currentFile, some h.read⟩ := by
  obtain ⟨rest, hheader, hopen⟩ := openHunk_header h
  have hat : patchLine st (String.ofList ("@@ ".toList ++ rest)) =
      ⟨st.closeHunk, st.currentFile, some (openHunk (String.ofList rest))⟩ := by
    have hdiff : startsWith (String.ofList ("@@ ".toList ++ rest)) "diff --git " = false :=
      startsWith_of_head_ne (by decide : "diff --git ".toList = 'd' :: "iff --git ".toList) (by decide)
    have hnew : startsWith (String.ofList ("@@ ".toList ++ rest)) "new file mode" = false :=
      startsWith_of_head_ne (by decide : "new file mode".toList = 'n' :: "ew file mode".toList)
        (by decide)
    have hdeleted : startsWith (String.ofList ("@@ ".toList ++ rest)) "deleted file mode" = false :=
      startsWith_of_head_ne (by decide : "deleted file mode".toList = 'd' :: "eleted file mode".toList)
        (by decide)
    unfold patchLine
    rw [stripPrefix_of_not hdiff, hnew, hdeleted, stripPrefix_append]
    rfl
  unfold GitHunk.print
  rw [runLines_cons, hheader, hat, hopen, runLines_lines]
  rfl

end Reads
end Artifacts
