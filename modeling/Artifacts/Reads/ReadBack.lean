import Artifacts.Reads.Sections

/-!
# What the reader keeps of a diff

The reader gives back the lines of every file exactly where no line looks like the name of
the contents or ends with a carriage return, the numbers fit and are those of the lines, and
the sections that go to an entry carry the hunks of its file.  That these conditions are needed
is an argument by weight: reading a hunk makes it no heavier, and no section counts twice.

* `LinesFit` is the condition on lines and numbers, `SectionsFit` the one on sections.
* `linesFit_of_readBack` is the half by weight, `readBack_of_fit` the other.

The order of files and of hunks is kept in either direction.
-/

namespace Artifacts
namespace Reads

open Rust

/-! ### Lines as they are -/

/-- The line itself. -/
def HunkLine.exact (l : HunkLine) : DiffLine := ⟨l.kind, l.text⟩

def GitHunk.content (h : GitHunk) : List DiffLine := h.lines.map HunkLine.exact

def countKind (kind : DiffLineKind) (ls : List DiffLine) : Nat := ls.countP fun l => l.kind == kind

/-- The entry of a file, with its lines hunk by hunk; the numbers of a hunk and of the entry
are those of the lines in it. -/
structure HasLines (p : FilePair) (e : FileDiff) : Prop where
  lines : e.hunks.map DiffHunk.lines = p.hunks.map GitHunk.content
  oldLines : ∀ h ∈ e.hunks, h.oldLines = countKind .ctx h.lines + countKind .del h.lines
  newLines : ∀ h ∈ e.hunks, h.newLines = countKind .ctx h.lines + countKind .add h.lines
  additions : e.additions = (e.hunks.map fun h => countKind .add h.lines).sum
  deletions : e.deletions = (e.hunks.map fun h => countKind .del h.lines).sum

/-- One entry per file, each with the lines of its file and the numbers that follow from them, in
the order of the files. -/
def ReadBack (ps : List FilePair) (entries : List FileDiff) : Prop :=
  List.Forall₂ HasLines ps entries

/-- A line that is read as it is. The first two parts are about lines that look like the names of
the files in front of a hunk, the last about line ends that `str::lines` takes off. -/
structure HunkLine.Kept (l : HunkLine) : Prop where
  plus : l.kind = .add → ¬ "++".toList <+: l.text.toList
  minus : l.kind = .del → ¬ "--".toList <+: l.text.toList
  noCr : l.text.toList.getLast? ≠ some '\r'

/-- Lines and numbers that are read as they are. The figures are those of the lines, unless a file
changes its type and both contents share lines, or one of them is binary. It does not speak of the
paths. -/
structure LinesFit (ps : List FilePair) : Prop where
  lines : ∀ p ∈ ps, ∀ h ∈ p.hunks, ∀ l ∈ h.lines, l.Kept
  counts : ∀ p ∈ ps, ∀ h ∈ p.hunks, h.oldLines < 2 ^ 32 ∧ h.newLines < 2 ^ 32
  additions : ∀ p ∈ ps, p.additions = p.lineCount .add ∧ p.additions < 2 ^ 32
  deletions : ∀ p ∈ ps, p.deletions = p.lineCount .del ∧ p.deletions < 2 ^ 32

/-- The sections that go to the entry of a file have the lines of the file. -/
def SectionsFit (ps : List FilePair) : Prop :=
  ∀ k p, ps[k]? = some p →
    (goTo ps k).flatMap (fun g => g.hunks.map GitHunk.content) = p.hunks.map GitHunk.content

/-! ### Counting -/

theorem asU32_eq_iff {n : Nat} : asU32 n = n ↔ n < 2 ^ 32 := by
  unfold asU32
  split_ifs with h
  · exact iff_of_true rfl h
  · constructor
    · intro hzero
      omega
    · exact fun hlt => absurd hlt h

theorem countKind_content (kind : DiffLineKind) (h : GitHunk) :
    countKind kind h.content = h.lines.countP fun l => l.kind == kind := by
  unfold countKind GitHunk.content
  rw [List.countP_map]
  rfl

theorem count_not_add (ls : List HunkLine) : (ls.countP fun l => l.kind != .add) =
    (ls.countP fun l => l.kind == .ctx) + ls.countP fun l => l.kind == .del := by
  induction ls with
  | nil => rfl
  | cons l ls ih =>
      simp only [List.countP_cons, ih]
      cases l.kind <;> simp <;> omega

theorem count_not_del (ls : List HunkLine) : (ls.countP fun l => l.kind != .del) =
    (ls.countP fun l => l.kind == .ctx) + ls.countP fun l => l.kind == .add := by
  induction ls with
  | nil => rfl
  | cons l ls ih =>
      simp only [List.countP_cons, ih]
      cases l.kind <;> simp <;> omega

theorem oldLines_content (h : GitHunk) :
    h.oldLines = countKind .ctx h.content + countKind .del h.content := by
  rw [countKind_content, countKind_content]
  exact count_not_add h.lines

theorem newLines_content (h : GitHunk) :
    h.newLines = countKind .ctx h.content + countKind .add h.content := by
  rw [countKind_content, countKind_content]
  exact count_not_del h.lines

theorem lineCount_content (p : FilePair) (kind : DiffLineKind) :
    p.lineCount kind = ((p.hunks.map GitHunk.content).map (countKind kind)).sum := by
  unfold FilePair.lineCount
  rw [List.map_map]
  exact congrArg List.sum (List.map_congr_left fun h _ => (countKind_content kind h).symm)

theorem lineCount_body (f : FileChange) (kind : DiffLineKind) :
    f.body.lineCount kind = (f.hunks.map fun h => h.lines.countP fun l => l.kind == kind).sum := by
  unfold Body.lineCount FileChange.hunks
  cases f.body with
  | text hunks => rfl
  | binary => rfl

theorem lineCount_sections (p : FilePair) (kind : DiffLineKind) :
    p.lineCount kind = (p.sections.map fun f => f.body.lineCount kind).sum := by
  unfold FilePair.lineCount FilePair.hunks
  induction p.sections with
  | nil => rfl
  | cons f fs ih =>
      rw [List.flatMap_cons, List.map_append, List.sum_append, ih, List.map_cons, List.sum_cons,
        lineCount_body]

/-- No figure counts more than the lines. -/
theorem figures_le (p : FilePair) :
    p.additions ≤ p.lineCount .add ∧ p.deletions ≤ p.lineCount .del := by
  rw [lineCount_sections, lineCount_sections]
  unfold FilePair.additions FilePair.deletions FilePair.stat
  cases p with
  | single f =>
      simp only [FilePair.sections, List.map_cons, List.map_nil, List.sum_cons, List.sum_nil]
      cases f.body with
      | text hunks => exact ⟨Nat.le_refl _, Nat.le_refl _⟩
      | binary => exact ⟨Nat.zero_le _, Nat.zero_le _⟩
  | retyped t =>
      obtain ⟨hadded, hdeleted⟩ := t.fewer
      simp only [FilePair.sections, List.map_cons, List.map_nil, List.sum_cons, List.sum_nil]
      split_ifs
      · exact ⟨Nat.zero_le _, Nat.zero_le _⟩
      · simp only [Option.getD_some]
        omega

/-- A figure that is read as the number of lines is that number, and fits. -/
theorem eq_of_asU32 {n count : Nat} (hle : n ≤ count) (h : asU32 n = count) :
    n = count ∧ n < 2 ^ 32 := by
  unfold asU32 at h
  split_ifs at h with hlt
  · exact ⟨h, hlt⟩
  · omega

/-! ### Weights -/

def lineWeight (l : DiffLine) : Nat := 1 + l.text.toList.length

/-- A hunk weighs something even without lines. -/
def linesWeight (ls : List DiffLine) : Nat := 1 + (ls.map lineWeight).sum

theorem startsWith_iff {s pat : String} : startsWith s pat = true ↔ pat.toList <+: s.toList :=
  List.isPrefixOf_iff_prefix

theorem HunkLine.Kept.read {l : HunkLine} (h : l.Kept) : l.read = some l.exact := by
  have htext : String.ofList (stripCr l.text.toList) = l.text := by
    rw [stripCr, if_neg h.noCr, String.ofList_toList]
  have hkeep : ¬ (l.kind == .add && startsWith l.text "++" ||
      l.kind == .del && startsWith l.text "--") = true := by
    rw [Bool.or_eq_true, Bool.and_eq_true, Bool.and_eq_true, beq_iff_eq, beq_iff_eq,
      startsWith_iff, startsWith_iff]
    rintro (⟨hkind, hpre⟩ | ⟨hkind, hpre⟩)
    · exact h.plus hkind hpre
    · exact h.minus hkind hpre
  unfold HunkLine.read
  dsimp only
  rw [htext, if_neg hkeep]
  rfl

/-- A line loses weight unless it is kept. -/
theorem HunkLine.read_weight (l : HunkLine) :
    (l.read.map lineWeight).getD 0 ≤ lineWeight l.exact ∧
      ((l.read.map lineWeight).getD 0 = lineWeight l.exact → l.Kept) := by
  unfold HunkLine.read
  dsimp only
  split_ifs with hdropped
  · constructor
    · exact Nat.zero_le _
    · intro heq
      have hpos : 0 < lineWeight l.exact := Nat.add_pos_left Nat.one_pos _
      exact absurd heq (Nat.ne_of_lt hpos)
  · show lineWeight ⟨l.kind, String.ofList (stripCr l.text.toList)⟩ ≤ _ ∧ _
    by_cases hcr : l.text.toList.getLast? = some '\r'
    · have hne : l.text.toList ≠ [] := by
        intro hnil
        rw [hnil] at hcr
        cases hcr
      have hlt : lineWeight ⟨l.kind, String.ofList (stripCr l.text.toList)⟩ < lineWeight l.exact := by
        have hpos := List.length_pos_iff.mpr hne
        show 1 + (String.ofList (stripCr l.text.toList)).toList.length < 1 + l.text.toList.length
        rw [String.toList_ofList, stripCr, if_pos hcr, List.length_dropLast]
        omega
      exact ⟨Nat.le_of_lt hlt, fun heq => absurd heq (Nat.ne_of_lt hlt)⟩
    · have htext : String.ofList (stripCr l.text.toList) = l.text := by
        rw [stripCr, if_neg hcr, String.ofList_toList]
      rw [htext] at hdropped ⊢
      refine ⟨le_refl _, fun _ => ⟨?_, ?_, hcr⟩⟩
      · intro hkind hpre
        refine hdropped ?_
        rw [hkind, startsWith_iff.mpr hpre]
        rfl
      · intro hkind hpre
        refine hdropped ?_
        rw [hkind, startsWith_iff.mpr hpre]
        rfl

theorem sum_filterMap {α : Type} (g : α → Option DiffLine) (ls : List α) :
    ((ls.filterMap g).map lineWeight).sum = (ls.map fun l => ((g l).map lineWeight).getD 0).sum := by
  induction ls with
  | nil => rfl
  | cons l ls ih =>
      rw [List.map_cons, List.sum_cons, ← ih]
      cases hg : g l with
      | none => rw [List.filterMap_cons_none hg, Option.map_none, Option.getD_none, Nat.zero_add]
      | some line => rw [List.filterMap_cons_some hg, List.map_cons, List.sum_cons]; rfl

/-- A hunk loses weight unless its lines are kept. -/
theorem GitHunk.read_weight (h : GitHunk) :
    linesWeight h.read.lines ≤ linesWeight h.content ∧
      (linesWeight h.read.lines = linesWeight h.content → ∀ l ∈ h.lines, l.Kept) := by
  have hread : linesWeight h.read.lines =
      1 + (h.lines.map fun l => (l.read.map lineWeight).getD 0).sum :=
    congrArg (1 + ·) (sum_filterMap HunkLine.read h.lines)
  have hexact : linesWeight h.content = 1 + (h.lines.map fun l => lineWeight l.exact).sum := by
    unfold linesWeight GitHunk.content
    rw [List.map_map]
    rfl
  rw [hread, hexact]
  constructor
  · exact Nat.add_le_add_left (List.sum_le_sum fun l _ => l.read_weight.1) 1
  · intro heq l hl
    refine l.read_weight.2 (eq_of_sum_le (fun l _ => l.read_weight.1) ?_ l hl)
    omega

/-- The weight of a file as it is read. -/
def readWeight (f : FileChange) : Nat := (f.hunks.map fun h => linesWeight h.read.lines).sum

def exactWeight (f : FileChange) : Nat := (f.hunks.map fun h => linesWeight h.content).sum

theorem readWeight_le (f : FileChange) : readWeight f ≤ exactWeight f :=
  List.sum_le_sum fun h _ => h.read_weight.1

theorem kept_of_readWeight {f : FileChange} (h : readWeight f = exactWeight f) :
    ∀ hunk ∈ f.hunks, ∀ l ∈ hunk.lines, l.Kept := by
  intro hunk hhunk
  refine hunk.read_weight.2 (eq_of_sum_le (fun hunk _ => hunk.read_weight.1) ?_ hunk hhunk)
  exact Nat.le_of_eq h.symm

/-! ### Nothing is lost -/

/-- What is under an entry. -/
theorem outcome_lines (p : FilePair) (ss : List FileChange) :
    (p.outcome ss).hunks.map DiffHunk.lines =
      ss.flatMap fun g => g.hunks.map fun h => h.read.lines := by
  show ([] ++ ss.flatMap fun g : FileChange => g.hunks.map GitHunk.read).map DiffHunk.lines = _
  rw [List.nil_append, List.map_flatMap]
  simp only [List.map_map]
  rfl

theorem mem_outcome_hunks {p : FilePair} {ss : List FileChange} {h : DiffHunk} :
    h ∈ (p.outcome ss).hunks ↔ ∃ g ∈ ss, ∃ hunk ∈ g.hunks, hunk.read = h := by
  show h ∈ [] ++ ss.flatMap (fun g : FileChange => g.hunks.map GitHunk.read) ↔ _
  simp

theorem sum_flatMap_lines (ss : List FileChange) :
    ((ss.flatMap fun g => g.hunks.map fun h => h.read.lines).map linesWeight).sum =
      (ss.map readWeight).sum := by
  induction ss with
  | nil => rfl
  | cons g ss ih =>
      rw [List.flatMap_cons, List.map_append, List.sum_append, ih, List.map_cons, List.sum_cons,
        List.map_map]
      rfl

theorem sum_flatMap_content (ss : List FileChange) :
    (((ss.flatMap FileChange.hunks).map GitHunk.content).map linesWeight).sum =
      (ss.map exactWeight).sum := by
  induction ss with
  | nil => rfl
  | cons g ss ih =>
      rw [List.flatMap_cons, List.map_append, List.map_append, List.sum_append, ih, List.map_cons,
        List.sum_cons, List.map_map]
      rfl

/-- The weight of all sections, file by file. -/
theorem sum_sections (ps : List FilePair) :
    ((sections ps).map exactWeight).sum =
      (ps.map fun p => (p.sections.map exactWeight).sum).sum := by
  unfold sections
  induction ps with
  | nil => rfl
  | cons p ps ih => rw [List.flatMap_cons, List.map_append, List.sum_append, ih, List.map_cons,
      List.sum_cons]

/-- Every section keeps its weight, in the entries of the files. -/
theorem keptWeight_of_readBack {ps : List FilePair}
    (h : ReadBack ps (parseDiff (gitNumstat ps) (gitPatch ps))) :
    ∀ s ∈ attributed (entryPaths ps) none (sections ps),
      keptWeight ps.length readWeight s = exactWeight s.2 := by
  rw [parseDiff_git] at h
  have hentries := forall₂_mapIdx.mp h
  have hbucket : ∀ i : Fin ps.length, ((goTo ps i.1).map readWeight).sum =
      (ps[i.1].sections.map exactWeight).sum := by
    intro i
    have hlines := (hentries i.1 ps[i.1] (List.getElem?_eq_getElem i.2)).lines
    rw [outcome_lines] at hlines
    rw [← sum_flatMap_lines, hlines]
    exact sum_flatMap_content _
  have htotal : ((attributed (entryPaths ps) none (sections ps)).map
      (keptWeight ps.length readWeight)).sum =
        ((attributed (entryPaths ps) none (sections ps)).map fun s => exactWeight s.2).sum := by
    calc ((attributed (entryPaths ps) none (sections ps)).map (keptWeight ps.length readWeight)).sum
        = ∑ i : Fin ps.length, ((goTo ps i.1).map readWeight).sum :=
          (sum_buckets ps.length readWeight _).symm
      _ = ∑ i : Fin ps.length, (ps[i.1].sections.map exactWeight).sum :=
          Finset.sum_congr rfl fun i _ => hbucket i
      _ = (ps.map fun p => (p.sections.map exactWeight).sum).sum :=
          Fin.sum_univ_fun_getElem ps fun p => (p.sections.map exactWeight).sum
      _ = ((sections ps).map exactWeight).sum := (sum_sections ps).symm
      _ = (((attributed (entryPaths ps) none (sections ps)).map Prod.snd).map exactWeight).sum := by
          rw [map_snd_attributed]
      _ = ((attributed (entryPaths ps) none (sections ps)).map fun s => exactWeight s.2).sum := by
          rw [List.map_map]
          rfl
  exact eq_of_sum_le (fun s _ => (keptWeight_le _ _ s).trans (readWeight_le s.2))
    (Nat.le_of_eq htotal.symm)

/-- A section, with the entry it goes to. -/
theorem exists_owner {ps : List FilePair} {f : FileChange} (hf : f ∈ sections ps) :
    ∃ owner, (owner, f) ∈ attributed (entryPaths ps) none (sections ps) := by
  rw [← map_snd_attributed (entryPaths ps) none (sections ps)] at hf
  obtain ⟨⟨owner, g⟩, hs, rfl⟩ := List.mem_map.mp hf
  exact ⟨owner, hs⟩

theorem kept_of_readBack {ps : List FilePair}
    (h : ReadBack ps (parseDiff (gitNumstat ps) (gitPatch ps))) {f : FileChange}
    (hf : f ∈ sections ps) : ∀ hunk ∈ f.hunks, ∀ l ∈ hunk.lines, l.Kept := by
  obtain ⟨owner, hs⟩ := exists_owner hf
  have hweight : keptWeight ps.length readWeight (owner, f) = exactWeight f :=
    keptWeight_of_readBack h _ hs
  exact kept_of_readWeight (Nat.le_antisymm (readWeight_le f)
    (hweight ▸ keptWeight_le ps.length readWeight (owner, f)))

/-- A section with hunks goes to the entry of some file. -/
theorem owner_of_readBack {ps : List FilePair}
    (h : ReadBack ps (parseDiff (gitNumstat ps) (gitPatch ps))) {f : FileChange}
    (hf : f ∈ sections ps) {hunk : GitHunk} (hhunk : hunk ∈ f.hunks) :
    ∃ i : Fin ps.length, f ∈ goTo ps i.1 := by
  obtain ⟨owner, hs⟩ := exists_owner hf
  have hweight : keptWeight ps.length readWeight (owner, f) = exactWeight f :=
    keptWeight_of_readBack h _ hs
  have hpos : 0 < exactWeight f :=
    lt_of_lt_of_le (Nat.add_pos_left Nat.one_pos _)
      (List.single_le_sum (fun _ _ => Nat.zero_le _) _ (List.mem_map_of_mem hhunk))
  by_contra hnone
  have hzero : keptWeight ps.length readWeight (owner, f) = 0 := by
    refine if_neg ?_
    rintro ⟨i, howner⟩
    refine hnone ⟨i, mem_bucket.mpr ?_⟩
    rw [← howner]
    exact hs
  omega

/-! ### The condition -/

theorem GitHunk.read_lines {h : GitHunk} (hkept : ∀ l ∈ h.lines, l.Kept) :
    h.read.lines = h.content := by
  show h.lines.filterMap HunkLine.read = h.lines.map HunkLine.exact
  rw [List.filterMap_congr fun l hl => (hkept l hl).read, List.filterMap_eq_map']

/-- The file of a section. -/
theorem mem_sections {ps : List FilePair} {f : FileChange} :
    f ∈ sections ps ↔ ∃ p ∈ ps, f ∈ p.sections :=
  List.mem_flatMap

theorem mem_hunks {p : FilePair} {h : GitHunk} : h ∈ p.hunks ↔ ∃ f ∈ p.sections, h ∈ f.hunks :=
  List.mem_flatMap

theorem mem_hunks_of_goTo {ps : List FilePair} {k : Nat} {g : FileChange} (hg : g ∈ goTo ps k)
    {h : GitHunk} (hh : h ∈ g.hunks) : ∃ p ∈ ps, h ∈ p.hunks := by
  obtain ⟨p, hp, hgp⟩ := mem_sections.mp (mem_of_mem_sectionsOf hg)
  exact ⟨p, hp, mem_hunks.mpr ⟨g, hgp, hh⟩⟩

/-- The lines that go to an entry, if all are kept. -/
theorem outcome_content {ps : List FilePair}
    (hkept : ∀ p ∈ ps, ∀ h ∈ p.hunks, ∀ l ∈ h.lines, l.Kept) (p : FilePair) (k : Nat) :
    (p.outcome (goTo ps k)).hunks.map DiffHunk.lines =
      (goTo ps k).flatMap fun g => g.hunks.map GitHunk.content := by
  rw [outcome_lines]
  refine List.flatMap_congr fun g hg => List.map_congr_left fun h hh => ?_
  obtain ⟨q, hq, hhq⟩ := mem_hunks_of_goTo hg hh
  exact GitHunk.read_lines (hkept q hq h hhq)

/-- The lines of one kind under an entry. -/
theorem sum_countKind (kind : DiffLineKind) {p : FilePair} {e : FileDiff}
    (h : e.hunks.map DiffHunk.lines = p.hunks.map GitHunk.content) :
    (e.hunks.map fun h => countKind kind h.lines).sum = p.lineCount kind := by
  rw [lineCount_content, ← h, List.map_map]
  rfl

theorem linesFit_of_readBack {ps : List FilePair}
    (h : ReadBack ps (parseDiff (gitNumstat ps) (gitPatch ps))) : LinesFit ps := by
  have hkept : ∀ p ∈ ps, ∀ h ∈ p.hunks, ∀ l ∈ h.lines, l.Kept := by
    intro p hp hunk hhunk
    obtain ⟨f, hf, hhunk⟩ := mem_hunks.mp hhunk
    exact kept_of_readBack h (mem_sections.mpr ⟨p, hp, hf⟩) hunk hhunk
  have howner := fun {f} (hf : f ∈ sections ps) {hunk} (hhunk : hunk ∈ f.hunks) =>
    owner_of_readBack h hf hhunk
  rw [parseDiff_git] at h
  have hentries := forall₂_mapIdx.mp h
  constructor
  · exact hkept
  · intro p hp hunk hhunk
    obtain ⟨f, hf, hhunkf⟩ := mem_hunks.mp hhunk
    obtain ⟨i, hi⟩ := howner (mem_sections.mpr ⟨p, hp, hf⟩) hhunkf
    have hentry := hentries i.1 ps[i.1] (List.getElem?_eq_getElem i.2)
    have hmem : hunk.read ∈ (ps[i.1].outcome (goTo ps i.1)).hunks :=
      mem_outcome_hunks.mpr ⟨f, hi, hunk, hhunkf, rfl⟩
    have hold := hentry.oldLines _ hmem
    have hnew := hentry.newLines _ hmem
    rw [GitHunk.read_lines (hkept p hp hunk hhunk), ← oldLines_content] at hold
    rw [GitHunk.read_lines (hkept p hp hunk hhunk), ← newLines_content] at hnew
    exact ⟨asU32_eq_iff.mp hold, asU32_eq_iff.mp hnew⟩
  · intro p hp
    obtain ⟨k, hk⟩ := List.mem_iff_getElem?.mp hp
    have hentry := hentries k p hk
    exact eq_of_asU32 (figures_le p).1 (hentry.additions.trans (sum_countKind .add hentry.lines))
  · intro p hp
    obtain ⟨k, hk⟩ := List.mem_iff_getElem?.mp hp
    have hentry := hentries k p hk
    exact eq_of_asU32 (figures_le p).2 (hentry.deletions.trans (sum_countKind .del hentry.lines))

theorem readBack_of_fit {ps : List FilePair} (h : LinesFit ps) (hsections : SectionsFit ps) :
    ReadBack ps (parseDiff (gitNumstat ps) (gitPatch ps)) := by
  rw [parseDiff_git]
  refine forall₂_mapIdx.mpr fun k p hk => ?_
  have hp : p ∈ ps := List.mem_of_getElem? hk
  have hlines : (p.outcome (goTo ps k)).hunks.map DiffHunk.lines = p.hunks.map GitHunk.content :=
    (outcome_content h.lines p k).trans (hsections k p hk)
  constructor
  · exact hlines
  · intro hunk hhunk
    obtain ⟨g, hg, printed, hprinted, rfl⟩ := mem_outcome_hunks.mp hhunk
    obtain ⟨q, hq, hprinted⟩ := mem_hunks_of_goTo hg hprinted
    rw [GitHunk.read_lines (h.lines q hq printed hprinted), ← oldLines_content]
    exact asU32_eq_iff.mpr (h.counts q hq printed hprinted).1
  · intro hunk hhunk
    obtain ⟨g, hg, printed, hprinted, rfl⟩ := mem_outcome_hunks.mp hhunk
    obtain ⟨q, hq, hprinted⟩ := mem_hunks_of_goTo hg hprinted
    rw [GitHunk.read_lines (h.lines q hq printed hprinted), ← newLines_content]
    exact asU32_eq_iff.mpr (h.counts q hq printed hprinted).2
  · rw [sum_countKind .add hlines, ← (h.additions p hp).1]
    exact asU32_eq_iff.mpr (h.additions p hp).2
  · rw [sum_countKind .del hlines, ← (h.deletions p hp).1]
    exact asU32_eq_iff.mpr (h.deletions p hp).2

/-- A line of a program, added to `main.c`. -/
def increment : HunkLine := ⟨.add, "++i;", false, by decide⟩

def incremented : FilePair := .single {
  path := ⟨[109, 97, 105, 110, 46, 99], by decide⟩
  change := .modified .regular .regular rfl
  objects := none
  body := .text [⟨1, 1, "", noHeading, [⟨.ctx, "i = 0;", false, by decide⟩, increment]⟩] }

/-- The added line is printed `+++i;` and taken for a name. -/
theorem incremented_not_readBack :
    ¬ ReadBack [incremented] (parseDiff (gitNumstat [incremented]) (gitPatch [incremented])) := by
  intro h
  have hkept : increment.Kept := kept_of_readBack h List.mem_cons_self _ List.mem_cons_self increment
    (List.mem_cons_of_mem _ List.mem_cons_self)
  exact hkept.plus rfl (by decide)

end Reads
end Artifacts
