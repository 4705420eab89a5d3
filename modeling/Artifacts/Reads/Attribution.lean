import Artifacts.Reads.PlainPaths

/-!
# Where the sections go

An entry shows its own section exactly where the sections that go to it bring nothing that
this section does not have.  A header that names no entry leaves the entry before it current:
the hunks and the status behind it go to the file before.  Files whose paths git prints alike
are safe from that, unless their type changes.

`OwnSections` is about hunks and status.  Texts and numbers of the lines are the subject of
`ReadBack`.  That files with quoted or folded paths can go wrong shows in an example, but not
every such list does, so only the type change is proved to be needed.
-/

namespace Artifacts
namespace Reads

open Rust

/-- The entry of a file: the hunks are hunks of its sections, and these say whether the file
is new or deleted. -/
structure OwnSection (p : FilePair) (e : FileDiff) : Prop where
  hunks : ∀ h ∈ e.hunks, ∃ own ∈ p.hunks, own.read = h
  added : ∀ f ∈ p.sections, (e.status = .added ↔ f.mark = some .added)
  deleted : ∀ f ∈ p.sections, (e.status = .deleted ↔ f.mark = some .deleted)

def OwnSections (ps : List FilePair) (entries : List FileDiff) : Prop :=
  List.Forall₂ OwnSection ps entries

/-- No file becomes another type of file. -/
def OneType (ps : List FilePair) : Prop := ∀ t : TypeChange, .retyped t ∉ ps

/-- The files of which no section brings anything to another one: a section has only hunks
that the file it goes to has too, and the last of the sections to say that the file is new or
deleted says what its own section does. -/
structure Unmixed (ps : List FilePair) : Prop where
  hunks : ∀ k p, ps[k]? = some p → ∀ g ∈ goTo ps k, ∀ h ∈ g.hunks,
    ∃ own ∈ p.hunks, own.read = h.read
  marks : ∀ k p, ps[k]? = some p → ∀ f ∈ p.sections, lastMark (goTo ps k) = f.mark

/-! ### The status of an entry -/

theorem FileChange.mark_cases (f : FileChange) :
    f.mark = none ∨ f.mark = some .added ∨ f.mark = some .deleted := by
  unfold FileChange.mark
  cases f.change with
  | added mode => exact Or.inr (Or.inl rfl)
  | deleted mode => exact Or.inr (Or.inr rfl)
  | _ => exact Or.inl rfl

theorem lastMark_cases (fs : List FileChange) :
    lastMark fs = none ∨ lastMark fs = some .added ∨ lastMark fs = some .deleted := by
  cases hlast : lastMark fs with
  | none => exact Or.inl rfl
  | some status =>
      obtain ⟨f, -, hf⟩ := List.mem_filterMap.mp (List.mem_of_getLast? hlast)
      have hcases := f.mark_cases
      rw [hf] at hcases
      exact hcases

/-- The numstat alone makes no file new or deleted. -/
theorem outcome_status_iff (p : FilePair) (ss : List FileChange) {status : DiffStatus}
    (hstatus : status = .added ∨ status = .deleted) :
    (p.outcome ss).status = status ↔ lastMark ss = some status := by
  have hentry : p.entry.status ≠ status := by
    have hplain : p.entry.status = .renamed ∨ p.entry.status = .modified := by
      unfold FilePair.entry
      dsimp only
      split_ifs
      · exact Or.inl rfl
      · exact Or.inr rfl
    rcases hstatus with rfl | rfl
    · rcases hplain with hplain | hplain <;> simp [hplain]
    · rcases hplain with hplain | hplain <;> simp [hplain]
  show (lastMark ss).getD p.entry.status = status ↔ _
  cases lastMark ss with
  | none => exact iff_of_false hentry nofun
  | some mark => exact Option.some_inj.symm

/-! ### The condition -/

theorem unmixed_of_ownSections {ps : List FilePair}
    (h : OwnSections ps (parseDiff (gitNumstat ps) (gitPatch ps))) : Unmixed ps := by
  rw [parseDiff_git] at h
  have hentries := forall₂_mapIdx.mp h
  constructor
  · intro k p hk g hg hunk hhunk
    exact (hentries k p hk).hunks _ (mem_outcome_hunks.mpr ⟨g, hg, hunk, hhunk, rfl⟩)
  · intro k p hk f hf
    have hadded := (hentries k p hk).added f hf
    have hdeleted := (hentries k p hk).deleted f hf
    rw [outcome_status_iff p _ (Or.inl rfl)] at hadded
    rw [outcome_status_iff p _ (Or.inr rfl)] at hdeleted
    rcases lastMark_cases (goTo ps k) with hlast | hlast | hlast
    · rw [hlast] at hadded hdeleted ⊢
      rcases f.mark_cases with hmark | hmark | hmark
      · exact hmark.symm
      · exact absurd (hadded.mpr hmark) nofun
      · exact absurd (hdeleted.mpr hmark) nofun
    · rw [hlast, hadded.mp hlast]
    · rw [hlast, hdeleted.mp hlast]

theorem ownSections_of_unmixed {ps : List FilePair} (h : Unmixed ps) :
    OwnSections ps (parseDiff (gitNumstat ps) (gitPatch ps)) := by
  rw [parseDiff_git]
  refine forall₂_mapIdx.mpr fun k p hk => ⟨fun hunk hhunk => ?_, fun f hf => ?_, fun f hf => ?_⟩
  · obtain ⟨g, hg, printed, hprinted, rfl⟩ := mem_outcome_hunks.mp hhunk
    obtain ⟨own, hown, hread⟩ := h.hunks k p hk g hg printed hprinted
    exact ⟨own, hown, hread⟩
  · rw [outcome_status_iff p _ (Or.inl rfl), h.marks k p hk f hf]
  · rw [outcome_status_iff p _ (Or.inr rfl), h.marks k p hk f hf]

/-- Where every section goes to its own file, nothing is mixed. -/
theorem unmixed_of_plain {ps : List FilePair} (hplain : PlainPaths ps) (htype : OneType ps) :
    Unmixed ps := by
  constructor
  · intro k p hk g hg h hh
    rw [hplain.goTo_eq hk] at hg
    exact ⟨h, mem_hunks.mpr ⟨g, hg, hh⟩, rfl⟩
  · intro k p hk f hf
    rw [hplain.goTo_eq hk]
    cases p with
    | retyped t => exact absurd (List.mem_of_getElem? hk) (htype t)
    | single g =>
        obtain rfl := List.mem_singleton.mp hf
        show lastMark [f] = f.mark
        unfold lastMark
        cases hmark : f.mark with
        | none => rw [List.filterMap_cons_none hmark]; rfl
        | some status => rw [List.filterMap_cons_some hmark]; rfl

/-- A file of another type is both deleted and new. -/
theorem oneType_of_unmixed {ps : List FilePair} (h : Unmixed ps) : OneType ps := by
  intro t ht
  obtain ⟨k, hk⟩ := List.mem_iff_getElem?.mp ht
  have hdeleted := h.marks k _ hk _ List.mem_cons_self
  have hadded := h.marks k _ hk _ (List.mem_cons_of_mem _ List.mem_cons_self)
  rw [hdeleted] at hadded
  cases hadded

/-- **Sections stay with their files.**  For every list of files whose paths git prints alike
and of which none changes its type, every hunk and status is that of the file's own section.
For every list of files at all, a change of the type rules that out. -/
theorem parseDiff_ownSections (ps : List FilePair) :
    (PlainPaths ps → OneType ps → OwnSections ps (parseDiff (gitNumstat ps) (gitPatch ps))) ∧
      (OwnSections ps (parseDiff (gitNumstat ps) (gitPatch ps)) → OneType ps) :=
  ⟨fun hplain htype => ownSections_of_unmixed (unmixed_of_plain hplain htype),
    fun h => oneType_of_unmixed (unmixed_of_ownSections h)⟩

/-- A file with a blank in its path, and one that is renamed. -/
theorem parseDiff_ownSections_spacedAndRenamed : OwnSections spacedAndRenamed
    (parseDiff (gitNumstat spacedAndRenamed) (gitPatch spacedAndRenamed)) := by
  refine (parseDiff_ownSections spacedAndRenamed).1 spacedAndRenamed_plain fun t ht => ?_
  simp [spacedAndRenamed] at ht

/-! ### A path that is quoted -/

/-- `a.txt`, changed. -/
def changedFile : FilePair := .single {
  path := ⟨[97, 46, 116, 120, 116], by decide⟩
  change := .modified .executable .executable rfl
  objects := none
  body := .text [⟨4, 4, "", noHeading, [⟨.del, "old", false, by decide⟩]⟩] }

/-- `é.txt`, new; git prints the name in quotes. -/
def quotedFile : FilePair := .single {
  path := ⟨[195, 169, 46, 116, 120, 116], by decide⟩
  change := .added .regular
  objects := none
  body := .text [⟨0, 1, "", noHeading, [⟨.add, "new", false, by decide⟩]⟩] }

/-- The new file is attributed to the changed one, which becomes new. -/
theorem quotedFile_mixed : ¬ OwnSections [changedFile, quotedFile]
    (parseDiff (gitNumstat [changedFile, quotedFile]) (gitPatch [changedFile, quotedFile])) := by
  intro h
  have hmark := (unmixed_of_ownSections h).marks 0 changedFile rfl _ List.mem_cons_self
  have hadded : lastMark (goTo [changedFile, quotedFile] 0) = some .added := by
    decide +kernel
  rw [hadded] at hmark
  cases hmark

end Reads
end Artifacts
