import Artifacts.Foundation.Buckets
import Artifacts.Reads.PatchLines

/-!
# The patch, section by section

Seen with its open hunk closed, the state after a section is the state before it with one
entry changed: the entry that the header is taken for, or else the one that was current
before.  An entry of the result is what the numstat says, with the hunks and the last status
of the sections that went to it.

* `applyTo` changes one entry, and `attach` is what a section brings to it.
* `attributed` pairs every section with the entry it goes to.
* `outcome` is the entry in the end, and `parseDiff_git` says that these are the result.

All this holds whatever the headers are taken for.
-/

namespace Artifacts
namespace Reads

open Rust
open Webhooks (splitOnceAt)

/-! ### Entries -/

/-- An entry changed, if there is one. -/
def applyTo (cur : Option Nat) (f : FileDiff → FileDiff) (files : List FileDiff) : List FileDiff :=
  match cur with
  | some ix => files.modify ix f
  | none => files

theorem applyTo_applyTo (cur : Option Nat) (f g : FileDiff → FileDiff) (files : List FileDiff) :
    applyTo cur g (applyTo cur f files) = applyTo cur (g ∘ f) files := by
  cases cur with
  | none => rfl
  | some ix => exact List.modify_modify_eq f g ix files

theorem applyTo_id {cur : Option Nat} {f : FileDiff → FileDiff} (h : ∀ e, f e = e)
    (files : List FileDiff) : applyTo cur f files = files := by
  obtain rfl : f = id := funext h
  cases cur with
  | none => rfl
  | some ix => exact List.modify_id ix files

/-- The paths stay. -/
theorem map_path_applyTo {cur : Option Nat} {f : FileDiff → FileDiff} (h : ∀ e, (f e).path = e.path)
    (files : List FileDiff) : (applyTo cur f files).map FileDiff.path = files.map FileDiff.path := by
  cases cur with
  | none => rfl
  | some ix =>
      apply List.ext_getElem?
      intro k
      simp only [applyTo, List.getElem?_map, List.getElem?_modify]
      cases files[k]? with
      | none => rfl
      | some e =>
          split_ifs
          · exact congrArg some (h e)
          · rfl

/-- Hunks at the end of an entry. -/
def addHunks (hunks : List DiffHunk) (f : FileDiff) : FileDiff := { f with hunks := f.hunks ++ hunks }

/-- A status that a section gives. -/
def setMark (mark : Option DiffStatus) (f : FileDiff) : FileDiff :=
  { f with status := mark.getD f.status }

theorem addHunks_nil (f : FileDiff) : addHunks [] f = f := by
  unfold addHunks
  rw [List.append_nil]

theorem addHunks_addHunks (hunks hunks' : List DiffHunk) :
    addHunks hunks' ∘ addHunks hunks = addHunks (hunks ++ hunks') := by
  funext f
  simp [addHunks]

theorem DiffState.closeHunk_eq (st : DiffState) :
    st.closeHunk = applyTo st.currentFile (addHunks st.currentHunk.toList) st.files := by
  obtain ⟨files, cur, hunk⟩ := st
  cases hunk with
  | none =>
      rw [Option.toList_none, applyTo_id addHunks_nil]
      cases cur <;> rfl
  | some h => cases cur <;> rfl

theorem DiffState.closeHunk_setStatus (st : DiffState) (status : DiffStatus) :
    (st.setStatus status).closeHunk = applyTo st.currentFile (setMark (some status)) st.closeHunk ∧
      (st.setStatus status).currentFile = st.currentFile := by
  obtain ⟨files, cur, hunk⟩ := st
  rw [DiffState.closeHunk_eq, DiffState.closeHunk_eq]
  cases cur with
  | none => exact ⟨rfl, rfl⟩
  | some ix =>
      refine ⟨?_, rfl⟩
      show applyTo (some ix) (addHunks hunk.toList) (applyTo (some ix) (setMark (some status)) files) =
        applyTo (some ix) (setMark (some status)) (applyTo (some ix) (addHunks hunk.toList) files)
      rw [applyTo_applyTo, applyTo_applyTo]
      rfl

theorem setMark_none (f : FileDiff) : setMark none f = f := rfl

/-! ### Characters -/

theorem printable_append {l l' : List Char} (h : ∀ c ∈ l, Printable c) (h' : ∀ c ∈ l', Printable c) :
    ∀ c ∈ l ++ l', Printable c := by
  intro c hc
  rcases List.mem_append.mp hc with hc | hc
  · exact h c hc
  · exact h' c hc

theorem digits_printable (n : Nat) : ∀ c ∈ (toString n).toList, Printable c := by
  intro c hc
  have hdigit := isAsciiDigit_of_mem hc
  have hrange : 48 ≤ c.toNat ∧ c.toNat ≤ 57 := by
    simpa [isAsciiDigit, Char.le_def, UInt32.le_iff_toNat_le] using hdigit
  unfold Printable
  omega

theorem oid_printable (oid : Oid) : ∀ c ∈ oid.text.toList, Printable c := by
  intro c hc
  have hrange := range_of_isOidChar (oid.isOidChar_of_mem hc)
  unfold Printable
  omega

theorem modeText_printable (mode : FileMode) : ∀ c ∈ mode.text.toList, Printable c := by
  cases mode <;> exact forall_mem_of_all (by decide)

/-- A text behind a word of the source. -/
theorem word_printable (word : String) {text : List Char}
    (hword : word.toList.all (fun c => decide (Printable c)) = true)
    (htext : ∀ c ∈ text, Printable c) : ∀ c ∈ word.toList ++ text, Printable c :=
  printable_append (forall_mem_of_all hword) htext

theorem headerRest_printable (f : FileChange) : ∀ c ∈ f.headerRest, Printable c := by
  have hnew : ∀ c ∈ ' ' :: quoteTwo "b/".toList f.path, Printable c :=
    word_printable " " (by decide) (quoteTwo_printable (forall_mem_of_all (by decide)) f.path)
  exact printable_append (quoteTwo_printable (forall_mem_of_all (by decide)) f.source) hnew

theorem indexLine_printable (f : FileChange) : ∀ l ∈ f.indexLine, ∀ c ∈ l, Printable c := by
  intro l hl
  unfold FileChange.indexLine at hl
  cases hobjects : f.objects with
  | none =>
      rw [hobjects] at hl
      cases hl
  | some objects =>
      obtain ⟨old, new⟩ := objects
      rw [hobjects] at hl
      obtain rfl := List.mem_singleton.mp hl
      have hmode : ∀ c ∈ (f.change.sameMode.map fun mode => ' ' :: mode.text.toList).getD [],
          Printable c := by
        cases f.change.sameMode with
        | none => exact fun _ => nofun
        | some mode => exact word_printable " " (by decide) (modeText_printable mode)
      refine word_printable "index " (by decide) (printable_append (printable_append (fun c hc => ?_)
        (forall_mem_of_all (by decide))) (printable_append (fun c hc => ?_) hmode))
      · exact oid_printable old c (List.mem_of_mem_take hc)
      · exact oid_printable new c (List.mem_of_mem_take hc)

theorem modeLines_printable (oldMode newMode : FileMode) :
    ∀ line ∈ modeLines oldMode newMode, ∀ c ∈ line.toList, Printable c := by
  intro line hline
  unfold modeLines at hline
  split_ifs at hline
  · cases hline
  · rcases List.mem_cons.mp hline with rfl | hline
    · rw [String.toList_append]
      exact word_printable "old mode " (by decide) (modeText_printable oldMode)
    · obtain rfl := List.mem_singleton.mp hline
      rw [String.toList_append]
      exact word_printable "new mode " (by decide) (modeText_printable newMode)

/-- The lines on a rename or a copy. -/
theorem similarity_printable (similarity : Nat) :
    ∀ c ∈ ("similarity index " ++ toString similarity ++ "%").toList, Printable c := by
  rw [String.toList_append, String.toList_append]
  exact printable_append (word_printable "similarity index " (by decide) (digits_printable similarity))
    (forall_mem_of_all (by decide))

theorem moved_printable (word word' : String)
    (hword : word.toList.all (fun c => decide (Printable c)) = true)
    (hword' : word'.toList.all (fun c => decide (Printable c)) = true) (similarity : Nat)
    (source path : FilePath) :
    ∀ l ∈ [("similarity index " ++ toString similarity ++ "%").toList,
        word.toList ++ quoteTwo [] source, word'.toList ++ quoteTwo [] path],
      ∀ c ∈ l, Printable c := by
  have hpath : ∀ p : FilePath, ∀ c ∈ quoteTwo [] p, Printable c := quoteTwo_printable (by simp)
  intro l hl
  simp only [List.mem_cons, List.not_mem_nil, or_false] at hl
  rcases hl with rfl | rfl | rfl
  · exact similarity_printable similarity
  · exact word_printable word hword (hpath source)
  · exact word_printable word' hword' (hpath path)

theorem extended_printable (f : FileChange) : ∀ l ∈ f.extended, ∀ c ∈ l, Printable c := by
  have hmodes : ∀ oldMode newMode, ∀ l ∈ (modeLines oldMode newMode).map String.toList,
      ∀ c ∈ l, Printable c := by
    intro oldMode newMode l hl
    obtain ⟨line, hline, rfl⟩ := List.mem_map.mp hl
    exact modeLines_printable oldMode newMode line hline
  intro l hl
  unfold FileChange.extended at hl
  cases hchange : f.change with
  | modified oldMode newMode _ =>
      rw [hchange] at hl
      exact hmodes oldMode newMode l hl
  | added mode =>
      rw [hchange] at hl
      obtain rfl := List.mem_singleton.mp hl
      rw [String.toList_append]
      exact word_printable "new file mode " (by decide) (modeText_printable mode)
  | deleted mode =>
      rw [hchange] at hl
      obtain rfl := List.mem_singleton.mp hl
      rw [String.toList_append]
      exact word_printable "deleted file mode " (by decide) (modeText_printable mode)
  | renamed source similarity oldMode newMode _ =>
      rw [hchange] at hl
      rcases List.mem_append.mp hl with hl | hl
      · exact hmodes oldMode newMode l hl
      · exact moved_printable "rename from " "rename to " (by decide) (by decide) similarity source
          f.path l hl
  | copied source similarity oldMode newMode _ =>
      rw [hchange] at hl
      rcases List.mem_append.mp hl with hl | hl
      · exact hmodes oldMode newMode l hl
      · exact moved_printable "copy from " "copy to " (by decide) (by decide) similarity source
          f.path l hl

theorem label_printable (f : FileChange) :
    (∀ c ∈ f.labels.1, Printable c) ∧ ∀ c ∈ f.labels.2, Printable c := by
  have hnull : ∀ c ∈ "/dev/null".toList, Printable c := forall_mem_of_all (by decide)
  have hold : ∀ p, ∀ c ∈ quoteTwo "a/".toList p, Printable c :=
    quoteTwo_printable (forall_mem_of_all (by decide))
  have hnew : ∀ p, ∀ c ∈ quoteTwo "b/".toList p, Printable c :=
    quoteTwo_printable (forall_mem_of_all (by decide))
  unfold FileChange.labels
  cases f.change with
  | added mode => exact ⟨hnull, hnew f.path⟩
  | deleted mode => exact ⟨hold f.path, hnull⟩
  | _ => exact ⟨hold f.source, hnew f.path⟩

theorem binary_printable (f : FileChange) :
    ∀ c ∈ "Binary files ".toList ++ (f.labels.1 ++ " and ".toList ++ (f.labels.2 ++
      " differ".toList)), Printable c := by
  obtain ⟨hold, hnew⟩ := label_printable f
  exact word_printable "Binary files " (by decide) (printable_append
    (printable_append hold (forall_mem_of_all (by decide)))
    (printable_append hnew (forall_mem_of_all (by decide))))

/-! ### The lines of a section -/

/-- A line of printable characters that begins with another letter. -/
theorem skipped_of_printable {c : Char} {rest : List Char}
    (h : ∀ d ∈ ['d', 'n', '@', '+', '-', ' '], d ≠ c) (hline : ∀ d ∈ c :: rest, Printable d) :
    Skipped (String.ofList (stripCr (c :: rest))) := by
  rw [stripCr_of_printable hline]
  exact skipped_of_head h

theorem skipped_similarity (n : Nat) :
    Skipped (String.ofList (stripCr ("similarity index " ++ toString n ++ "%").toList)) := by
  have hline : ("similarity index " ++ toString n ++ "%").toList =
      's' :: ("imilarity index ".toList ++ (toString n).toList ++ "%".toList) := by
    rw [String.toList_append, String.toList_append]
    rfl
  have hprint := similarity_printable n
  rw [hline] at hprint ⊢
  exact skipped_of_printable (by decide) hprint

theorem skipped_indexLine (f : FileChange) :
    ∀ l ∈ f.indexLine, Skipped (String.ofList (stripCr l)) := by
  intro l hl
  have hprint := indexLine_printable f l hl
  unfold FileChange.indexLine at hl
  cases hobjects : f.objects with
  | none =>
      rw [hobjects] at hl
      cases hl
  | some objects =>
      rw [hobjects] at hl
      obtain rfl := List.mem_singleton.mp hl
      exact skipped_of_printable (c := 'i') (by decide) hprint

/-- The lines on a rename or a copy are skipped. -/
theorem moved_skipped {c : Char} (h : ∀ d ∈ ['d', 'n', '@', '+', '-', ' '], d ≠ c)
    {similarity : Nat} {first second : List Char}
    (hprint : ∀ l ∈ [("similarity index " ++ toString similarity ++ "%").toList, c :: first,
      c :: second], ∀ d ∈ l, Printable d) :
    ∀ l ∈ [("similarity index " ++ toString similarity ++ "%").toList, c :: first, c :: second],
      Skipped (String.ofList (stripCr l)) := by
  intro l hl
  have hline := hprint l hl
  simp only [List.mem_cons, List.not_mem_nil, or_false] at hl
  rcases hl with rfl | rfl | rfl
  · exact skipped_similarity similarity
  · exact skipped_of_printable h hline
  · exact skipped_of_printable h hline

/-- The status that the lines behind a header give. -/
def FileChange.mark (f : FileChange) : Option DiffStatus :=
  match f.change with
  | .added _ => some .added
  | .deleted _ => some .deleted
  | _ => none

/-- The lines behind the header. -/
theorem runLines_extended (st : DiffState) (f : FileChange) :
    (runLines st f.extended).closeHunk = applyTo st.currentFile (setMark f.mark) st.closeHunk ∧
      (runLines st f.extended).currentFile = st.currentFile := by
  have hskip : ∀ ls : List (List Char), (∀ l ∈ ls, Skipped (String.ofList (stripCr l))) →
      (runLines st ls).closeHunk = applyTo st.currentFile (setMark none) st.closeHunk ∧
        (runLines st ls).currentFile = st.currentFile := by
    intro ls hls
    rw [runLines_skipped hls, applyTo_id setMark_none]
    exact ⟨rfl, rfl⟩
  have hmodes : ∀ oldMode newMode, ∀ l ∈ (modeLines oldMode newMode).map String.toList,
      Skipped (String.ofList (stripCr l)) := by
    intro oldMode newMode l hl
    obtain ⟨line, hline, rfl⟩ := List.mem_map.mp hl
    rw [stripCr_of_printable (modeLines_printable oldMode newMode line hline), String.ofList_toList]
    exact skipped_modeLines oldMode newMode line hline
  have hprint := extended_printable f
  unfold FileChange.extended at hprint ⊢
  unfold FileChange.mark
  cases hchange : f.change with
  | modified oldMode newMode _ => exact hskip _ (hmodes oldMode newMode)
  | added mode =>
      rw [hchange] at hprint
      dsimp only at hprint ⊢
      rw [runLines_cons, stripCr_of_printable (hprint _ List.mem_cons_self), String.ofList_toList,
        patchLine_newFile]
      exact st.closeHunk_setStatus .added
  | deleted mode =>
      rw [hchange] at hprint
      dsimp only at hprint ⊢
      rw [runLines_cons, stripCr_of_printable (hprint _ List.mem_cons_self), String.ofList_toList,
        patchLine_deletedFile]
      exact st.closeHunk_setStatus .deleted
  | renamed source similarity oldMode newMode _ =>
      refine hskip _ fun l hl => ?_
      rcases List.mem_append.mp hl with hl | hl
      · exact hmodes oldMode newMode l hl
      · exact moved_skipped (c := 'r') (by decide)
          (moved_printable "rename from " "rename to " (by decide) (by decide) similarity source
            f.path) l hl
  | copied source similarity oldMode newMode _ =>
      refine hskip _ fun l hl => ?_
      rcases List.mem_append.mp hl with hl | hl
      · exact hmodes oldMode newMode l hl
      · exact moved_skipped (c := 'c') (by decide)
          (moved_printable "copy from " "copy to " (by decide) (by decide) similarity source
            f.path) l hl

theorem runLines_hunks (st : DiffState) (hunks : List GitHunk) :
    (runLines st (hunks.flatMap GitHunk.print)).closeHunk =
        applyTo st.currentFile (addHunks (hunks.map GitHunk.read)) st.closeHunk ∧
      (runLines st (hunks.flatMap GitHunk.print)).currentFile = st.currentFile := by
  induction hunks generalizing st with
  | nil =>
      rw [List.map_nil, applyTo_id addHunks_nil]
      exact ⟨rfl, rfl⟩
  | cons h hunks ih =>
      rw [List.flatMap_cons, runLines_append, runLines_hunk]
      obtain ⟨hclose, hcur⟩ := ih ⟨st.closeHunk, st.currentFile, some h.read⟩
      refine ⟨?_, hcur⟩
      rw [hclose, DiffState.closeHunk_eq ⟨st.closeHunk, st.currentFile, some h.read⟩]
      show applyTo st.currentFile _ (applyTo st.currentFile (addHunks [h.read]) st.closeHunk) = _
      rw [applyTo_applyTo, addHunks_addHunks]
      rfl

/-- A tab at the end is no carriage return. -/
theorem stripCr_tabbed {word label : List Char} (h : ∀ c ∈ word ++ label, Printable c) :
    stripCr (word ++ tabbed label) = word ++ tabbed label := by
  unfold tabbed
  split_ifs
  · rw [← List.append_assoc, stripCr_append_of_ne_nil _ (List.cons_ne_nil _ _)]
    rfl
  · exact stripCr_of_printable h

/-- The lines on the contents: the hunks are read, all others skipped. -/
theorem runLines_contents (st : DiffState) (f : FileChange) :
    (runLines st f.contents).closeHunk =
        applyTo st.currentFile (addHunks (f.hunks.map GitHunk.read)) st.closeHunk ∧
      (runLines st f.contents).currentFile = st.currentFile := by
  obtain ⟨hold, hnew⟩ := label_printable f
  unfold FileChange.contents FileChange.hunks
  cases hbody : f.body with
  | binary =>
      have hline : Skipped (String.ofList (stripCr ("Binary files ".toList ++
          (f.labels.1 ++ " and ".toList ++ (f.labels.2 ++ " differ".toList))))) :=
        skipped_of_printable (c := 'B') (by decide) (binary_printable f)
      dsimp only
      rw [runLines_cons, hline st, List.map_nil, applyTo_id addHunks_nil]
      exact ⟨rfl, rfl⟩
  | text hunks =>
      cases hunks with
      | nil =>
          dsimp only
          rw [List.map_nil, applyTo_id addHunks_nil]
          exact ⟨rfl, rfl⟩
      | cons h hunks =>
          have hminus : Skipped (String.ofList (stripCr ("--- ".toList ++ tabbed f.labels.1))) := by
            rw [stripCr_tabbed (word_printable "--- " (by decide) hold)]
            exact skipped_minus _
          have hplus : Skipped (String.ofList (stripCr ("+++ ".toList ++ tabbed f.labels.2))) := by
            rw [stripCr_tabbed (word_printable "+++ " (by decide) hnew)]
            exact skipped_plus _
          dsimp only
          rw [runLines_cons, hminus st, runLines_cons, hplus st]
          exact runLines_hunks st (h :: hunks)

/-! ### Headers -/

/-- The entry that is current behind a header: the one that it is taken for, or else the one
that was current before. -/
def FileChange.owner (paths : List String) (cur : Option Nat) (f : FileChange) : Option Nat :=
  (headerEntry paths (String.ofList f.headerRest)).or cur

theorem DiffState.map_path_closeHunk (st : DiffState) :
    st.closeHunk.map FileDiff.path = st.files.map FileDiff.path := by
  rw [st.closeHunk_eq, map_path_applyTo]
  exact fun _ => rfl

theorem patchLine_header (st : DiffState) (f : FileChange) :
    (patchLine st (String.ofList ("diff --git ".toList ++ f.headerRest))).closeHunk = st.closeHunk ∧
      (patchLine st (String.ofList ("diff --git ".toList ++ f.headerRest))).currentFile =
        f.owner (st.closeHunk.map FileDiff.path) st.currentFile := by
  unfold FileChange.owner patchLine
  rw [stripPrefix_append, st.map_path_closeHunk]
  dsimp only
  cases headerEntry (st.files.map FileDiff.path) (String.ofList f.headerRest) with
  | none => exact ⟨rfl, rfl⟩
  | some ix =>
      refine ⟨?_, rfl⟩
      rw [DiffState.closeHunk_eq ⟨st.closeHunk, some ix, none⟩]
      exact applyTo_id addHunks_nil st.closeHunk

/-- What a section does to the entry that it goes to. -/
def FileChange.attach (f : FileChange) (e : FileDiff) : FileDiff :=
  addHunks (f.hunks.map GitHunk.read) (setMark f.mark e)

theorem runLines_section (st : DiffState) (f : FileChange) :
    (runLines st f.section).closeHunk =
        applyTo (f.owner (st.closeHunk.map FileDiff.path) st.currentFile) f.attach st.closeHunk ∧
      (runLines st f.section).currentFile =
        f.owner (st.closeHunk.map FileDiff.path) st.currentFile := by
  have hheader : ∀ c ∈ "diff --git ".toList ++ f.headerRest, Printable c :=
    word_printable "diff --git " (by decide) (headerRest_printable f)
  obtain ⟨hclose, hcur⟩ := patchLine_header st f
  unfold FileChange.section
  rw [runLines_cons, stripCr_of_printable hheader, runLines_append, runLines_append,
    runLines_skipped (skipped_indexLine f)]
  obtain ⟨hclose', hcur'⟩ := runLines_extended
    (patchLine st (String.ofList ("diff --git ".toList ++ f.headerRest))) f
  obtain ⟨hclose'', hcur''⟩ := runLines_contents (runLines
    (patchLine st (String.ofList ("diff --git ".toList ++ f.headerRest))) f.extended) f
  constructor
  · rw [hclose'', hclose', hcur', applyTo_applyTo, hclose, hcur]
    rfl
  · rw [hcur'', hcur', hcur]

/-- Each section with the entry that it goes to. -/
def attributed (paths : List String) : Option Nat → List FileChange → List (Option Nat × FileChange)
  | _, [] => []
  | cur, f :: fs => (f.owner paths cur, f) :: attributed paths (f.owner paths cur) fs

/-- The sections leave the entries with what each of them does to its own. -/
theorem runLines_sections (st : DiffState) (fs : List FileChange) :
    (runLines st (fs.flatMap FileChange.section)).closeHunk =
      (attributed (st.closeHunk.map FileDiff.path) st.currentFile fs).foldl
        (fun files s => applyTo s.1 s.2.attach files) st.closeHunk := by
  induction fs generalizing st with
  | nil => rfl
  | cons f fs ih =>
      obtain ⟨hclose, hcur⟩ := runLines_section st f
      have hpaths : (runLines st f.section).closeHunk.map FileDiff.path =
          st.closeHunk.map FileDiff.path := by
        rw [hclose, map_path_applyTo]
        exact fun _ => rfl
      rw [List.flatMap_cons, runLines_append, ih, hpaths, hcur, hclose]
      rfl

/-- The sections that go to an entry. -/
def sectionsOf (paths : List String) (fs : List FileChange) (k : Nat) : List FileChange :=
  bucket (attributed paths none fs) k

theorem getElem?_applyTo (cur : Option Nat) (f : FileDiff → FileDiff) (files : List FileDiff)
    (k : Nat) :
    (applyTo cur f files)[k]? = if cur = some k then files[k]?.map f else files[k]? := by
  cases cur with
  | none => rfl
  | some ix =>
      show (files.modify ix f)[k]? = _
      rw [List.getElem?_modify]
      by_cases hix : ix = k
      · rw [if_pos (congrArg some hix)]
        cases files[k]? <;> simp [hix]
      · rw [if_neg (fun h => hix (Option.some.inj h))]
        cases files[k]? <;> simp [hix]

/-- Seen from one entry, only its own sections count. -/
theorem getElem?_foldl_applyTo (ss : List (Option Nat × FileChange)) (files : List FileDiff)
    (k : Nat) :
    (ss.foldl (fun files s => applyTo s.1 s.2.attach files) files)[k]? =
      files[k]?.map fun e => (bucket ss k).foldl (fun e f => f.attach e) e := by
  induction ss generalizing files with
  | nil =>
      show files[k]? = files[k]?.map fun e => e
      rw [Option.map_id']
  | cons s ss ih =>
      rw [List.foldl_cons, ih, getElem?_applyTo]
      by_cases hs : s.1 = some k
      · rw [if_pos hs, bucket_cons_of_eq ss hs, Option.map_map]
        rfl
      · rw [if_neg hs, bucket_cons_of_ne ss hs]

/-- The last status that sections give. -/
def lastMark (fs : List FileChange) : Option DiffStatus := (fs.filterMap FileChange.mark).getLast?

/-- All that sections do to their entry. -/
theorem foldl_attach (fs : List FileChange) (e : FileDiff) :
    fs.foldl (fun e f => f.attach e) e =
      addHunks (fs.flatMap fun f => f.hunks.map GitHunk.read) (setMark (lastMark fs) e) := by
  induction fs generalizing e with
  | nil => exact (addHunks_nil e).symm
  | cons f fs ih =>
      have hmark : (lastMark (f :: fs)).getD e.status = (lastMark fs).getD (f.mark.getD e.status) := by
        unfold lastMark
        cases hf : f.mark with
        | none => rw [List.filterMap_cons_none hf, Option.getD_none]
        | some status =>
            rw [List.filterMap_cons_some hf, List.getLast?_cons, Option.getD_some]
            cases (fs.filterMap FileChange.mark).getLast? <;> rfl
      rw [List.foldl_cons, ih, List.flatMap_cons]
      unfold addHunks setMark FileChange.attach
      rw [hmark]
      simp [addHunks, setMark]

/-! ### The numstat -/

theorem statName_printable (p : FilePair) : ∀ c ∈ p.statName, Printable c := by
  have hplain : ∀ path, ∀ c ∈ quoteTwo [] path, Printable c := quoteTwo_printable (by simp)
  cases p with
  | single f =>
      show ∀ c ∈ f.statName, Printable c
      unfold FileChange.statName
      cases f.change with
      | renamed source => exact pprintRename_printable source f.path
      | copied source => exact pprintRename_printable source f.path
      | _ => exact hplain f.path
  | retyped t => exact hplain t.path

theorem figures_printable (p : FilePair) :
    (∀ c ∈ p.figures.1, Printable c) ∧ ∀ c ∈ p.figures.2, Printable c := by
  have hdash : ∀ c ∈ ['-'], Printable c := forall_mem_of_all (by decide)
  unfold FilePair.figures
  cases p.stat with
  | some stat => exact ⟨digits_printable stat.1, digits_printable stat.2⟩
  | none => exact ⟨hdash, hdash⟩

/-- The entry that the numstat makes of a file. -/
def FilePair.entry (p : FilePair) : FileDiff :=
  let name := String.ofList p.statName
  let renamed := splitOnceAt " => ".toList p.statName
  { path := entryPath name
    status := if renamed.isSome then .renamed else .modified
    oldPath := renamed.map fun names => String.ofList names.1
    additions := asU32 p.additions
    deletions := asU32 p.deletions
    hunks := [] }

/-- The figures are read as numbers; those of a binary file are zero. -/
theorem parseU32_figures (p : FilePair) :
    (parseU32 (String.ofList p.figures.1)).getD 0 = asU32 p.additions ∧
      (parseU32 (String.ofList p.figures.2)).getD 0 = asU32 p.deletions := by
  unfold FilePair.figures FilePair.additions FilePair.deletions
  cases p.stat with
  | some stat =>
      dsimp only [Option.getD_some]
      rw [String.ofList_toList, String.ofList_toList, parseU32_toString, parseU32_toString]
      exact ⟨rfl, rfl⟩
  | none => exact ⟨by decide, by decide⟩

theorem numstatEntry_statLine (p : FilePair) :
    numstatEntry (String.ofList p.statLine) = some p.entry := by
  have htab : ∀ {l : List Char}, (∀ c ∈ l, Printable c) → '\t' ∉ l := by
    intro l hl hmem
    have hrange := (hl '\t' hmem).1
    revert hrange
    decide
  obtain ⟨hadditions, hdeletions⟩ := parseU32_figures p
  have hfields : split (String.ofList p.statLine) '\t' =
      [String.ofList p.figures.1, String.ofList p.figures.2, String.ofList p.statName] := by
    unfold split FilePair.statLine
    rw [String.toList_ofList,
      List.splitOn_append_cons_self_of_not_mem (htab (figures_printable p).1),
      List.splitOn_append_cons_self_of_not_mem (htab (figures_printable p).2),
      List.splitOn_eq_singleton (htab (statName_printable p))]
    rfl
  unfold numstatEntry FilePair.entry
  rw [hfields]
  dsimp only
  rw [hadditions, hdeletions, @String.toList_ofList p.statName]

/-- A character that ends no line. -/
theorem statLine_plain (p : FilePair) : ∀ c ∈ p.statLine, c ≠ '\n' ∧ c ≠ '\r' := by
  have hplain : ∀ {c}, Printable c → c ≠ '\n' ∧ c ≠ '\r' := by
    intro c hc
    constructor
    · rintro rfl
      revert hc
      decide
    · rintro rfl
      revert hc
      decide
  intro c hc
  unfold FilePair.statLine at hc
  simp only [List.mem_append, List.mem_cons] at hc
  rcases hc with hc | rfl | hc | rfl | hc
  · exact hplain ((figures_printable p).1 c hc)
  · decide
  · exact hplain ((figures_printable p).2 c hc)
  · decide
  · exact hplain (statName_printable p c hc)

theorem lines_gitNumstat (ps : List FilePair) :
    (lines (gitNumstat ps)).filterMap numstatEntry = ps.map FilePair.entry := by
  have hnewline : ∀ l ∈ ps.map FilePair.statLine, '\n' ∉ l := by
    intro l hl hmem
    obtain ⟨p, -, rfl⟩ := List.mem_map.mp hl
    exact (statLine_plain p _ hmem).1 rfl
  have hentry : ∀ p : FilePair,
      numstatEntry (String.ofList (stripCr p.statLine)) = some p.entry := by
    intro p
    have hcr : stripCr p.statLine = p.statLine :=
      if_neg fun hlast => (statLine_plain p _ (List.mem_of_getLast? hlast)).2 rfl
    rw [hcr, numstatEntry_statLine]
  unfold gitNumstat
  rw [lines_unlines hnewline, List.map_map, List.filterMap_map]
  show ps.filterMap (fun p => numstatEntry (String.ofList (stripCr p.statLine))) = _
  rw [List.filterMap_congr fun p _ => hentry p, List.filterMap_eq_map']

/-! ### The whole -/

theorem newline_not_mem {l : List Char} (h : ∀ c ∈ l, Printable c) : '\n' ∉ l := by
  intro hmem
  have hrange := (h '\n' hmem).1
  revert hrange
  decide

theorem newline_not_mem_tabbed {word label : List Char} (h : ∀ c ∈ word ++ label, Printable c) :
    '\n' ∉ word ++ tabbed label := by
  unfold tabbed
  split_ifs
  · rw [← List.append_assoc, List.mem_append, not_or]
    exact ⟨newline_not_mem h, by decide⟩
  · exact newline_not_mem h

theorem newline_not_mem_print (h : GitHunk) : ∀ l ∈ h.print, '\n' ∉ l := by
  intro l hl
  rcases List.mem_cons.mp hl with rfl | hl
  · have hrange : ∀ start count, ∀ c ∈ rangeText start count, Printable c := by
      intro start count
      refine printable_append (digits_printable start) ?_
      split_ifs
      · exact fun _ => nofun
      · exact word_printable "," (by decide) (digits_printable count)
    unfold GitHunk.header
    simp only [List.mem_append, not_or]
    refine ⟨by decide, ⟨newline_not_mem (hrange _ _), by decide⟩,
      ⟨newline_not_mem (hrange _ _), by decide⟩, ?_⟩
    split_ifs
    · exact List.not_mem_nil
    · rw [List.mem_cons, not_or]
      exact ⟨by decide, h.oneLine⟩
  · obtain ⟨line, -, hl⟩ := List.mem_flatMap.mp hl
    unfold HunkLine.print at hl
    rcases List.mem_cons.mp hl with rfl | hl
    · rw [List.mem_cons, not_or]
      refine ⟨?_, line.oneLine⟩
      cases line.kind <;> decide
    · split_ifs at hl
      · obtain rfl := List.mem_singleton.mp hl
        decide
      · cases hl

theorem newline_not_mem_section (f : FileChange) : ∀ l ∈ f.section, '\n' ∉ l := by
  obtain ⟨hold, hnew⟩ := label_printable f
  intro l hl
  unfold FileChange.section at hl
  simp only [List.mem_cons, List.mem_append] at hl
  rcases hl with rfl | (hl | hl) | hl
  · exact newline_not_mem (word_printable "diff --git " (by decide) (headerRest_printable f))
  · exact newline_not_mem (extended_printable f l hl)
  · exact newline_not_mem (indexLine_printable f l hl)
  · unfold FileChange.contents at hl
    cases hbody : f.body with
    | binary =>
        rw [hbody] at hl
        obtain rfl := List.mem_singleton.mp hl
        exact newline_not_mem (binary_printable f)
    | text hunks =>
        rw [hbody] at hl
        cases hunks with
        | nil => cases hl
        | cons h hunks =>
            dsimp only at hl
            rcases List.mem_cons.mp hl with rfl | hl
            · exact newline_not_mem_tabbed (word_printable "--- " (by decide) hold)
            rcases List.mem_cons.mp hl with rfl | hl
            · exact newline_not_mem_tabbed (word_printable "+++ " (by decide) hnew)
            obtain ⟨hunk, -, hl⟩ := List.mem_flatMap.mp hl
            exact newline_not_mem_print hunk l hl

/-- The paths of the entries. -/
def entryPaths (ps : List FilePair) : List String := ps.map fun p => p.entry.path

/-- The entry of a file behind the sections that go to it. -/
def FilePair.outcome (p : FilePair) (ss : List FileChange) : FileDiff :=
  addHunks (ss.flatMap fun g => g.hunks.map GitHunk.read) (setMark (lastMark ss) p.entry)

/-- The sections that go to the entry of the `k`-th file. -/
def goTo (ps : List FilePair) (k : Nat) : List FileChange :=
  sectionsOf (entryPaths ps) (sections ps) k

/-- What the reader makes of git's output, entry by entry. -/
theorem parseDiff_git (ps : List FilePair) :
    parseDiff (gitNumstat ps) (gitPatch ps) = ps.mapIdx fun k p => p.outcome (goTo ps k) := by
  have hnewline : ∀ l ∈ (sections ps).flatMap FileChange.section, '\n' ∉ l := by
    intro l hl
    obtain ⟨f, -, hl⟩ := List.mem_flatMap.mp hl
    exact newline_not_mem_section f l hl
  have hrun := runLines_sections ⟨ps.map FilePair.entry, none, none⟩ (sections ps)
  have hpaths : (ps.map FilePair.entry).map FileDiff.path = entryPaths ps := List.map_map
  apply List.ext_getElem?
  intro k
  unfold parseDiff gitPatch
  rw [lines_gitNumstat, lines_unlines hnewline]
  show (runLines ⟨ps.map FilePair.entry, none, none⟩ _).closeHunk[k]? = _
  rw [hrun, getElem?_foldl_applyTo, List.getElem?_mapIdx]
  show ((ps.map FilePair.entry)[k]?.map fun e =>
    (bucket (attributed ((ps.map FilePair.entry).map FileDiff.path) none (sections ps)) k).foldl
      (fun e f => f.attach e) e) = _
  rw [hpaths, List.getElem?_map, Option.map_map]
  refine congrFun (congrArg Option.map (funext fun p => ?_)) _
  exact foldl_attach (goTo ps k) p.entry

/-- A relation to such a list holds entry by entry. -/
theorem forall₂_mapIdx {α β : Type} {R : α → β → Prop} {l : List α} {g : Nat → α → β} :
    List.Forall₂ R l (l.mapIdx g) ↔ ∀ k x, l[k]? = some x → R x (g k x) := by
  rw [List.forall₂_iff_get]
  constructor
  · rintro ⟨-, h⟩ k x hx
    obtain ⟨hk, rfl⟩ := List.getElem?_eq_some_iff.mp hx
    have hentry := h k hk (by rwa [List.length_mapIdx])
    rwa [List.get_eq_getElem, List.get_eq_getElem, List.getElem_mapIdx] at hentry
  · intro h
    refine ⟨List.length_mapIdx.symm, fun k hk hk' => ?_⟩
    rw [List.get_eq_getElem, List.get_eq_getElem, List.getElem_mapIdx]
    exact h k _ (List.getElem?_eq_getElem hk)

/-- All sections, in order. -/
theorem map_snd_attributed (paths : List String) (cur : Option Nat) (fs : List FileChange) :
    (attributed paths cur fs).map Prod.snd = fs := by
  induction fs generalizing cur with
  | nil => rfl
  | cons f fs ih => exact congrArg (f :: ·) (ih (f.owner paths cur))

theorem mem_of_mem_sectionsOf {paths : List String} {fs : List FileChange} {k : Nat}
    {f : FileChange} (h : f ∈ sectionsOf paths fs k) : f ∈ fs := by
  rw [← map_snd_attributed paths none fs]
  exact List.mem_map_of_mem (mem_bucket.mp h)

end Reads
end Artifacts
