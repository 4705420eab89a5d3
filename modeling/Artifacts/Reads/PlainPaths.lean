import Artifacts.Reads.ReadBack

/-!
# Paths that are printed alike

Where the header of every section ends with the name that the numstat has for the file, every
section goes to the entry of its own file.  Files are like that if git has no reason to quote
their path, a rename is not folded, and no name holds an arrow or a second side.

`FilePair.Plain` is a condition on the bytes of the paths, and `PlainPaths` adds that no path
occurs twice.  Behind it the two prints need not be looked at any more: `goTo_eq` says where
each section goes.
-/

namespace Artifacts
namespace Reads

open Rust
open Webhooks (splitOnceAt splitOnceAt_eq_some)

/-- The name in the header: what stands behind the first ` b/`. -/
def FileChange.headerName (f : FileChange) : Option String :=
  (splitOnceAt " b/".toList f.headerRest).map fun sides => String.ofList sides.2

/-- The path before a rename or a copy. -/
def FilePair.source : FilePair → FilePath
  | .single f => f.source
  | .retyped t => t.path

/-- A file whose name is the same wherever git prints it: in the header of its section, in the
numstat, and as a path. The parts speak of the bytes of the two paths only. -/
structure FilePair.Plain (p : FilePair) : Prop where
  /-- git does not quote the path. -/
  unquoted : p.path.needsQuotes = false
  /-- The old side of the header holds no beginning of a new side. -/
  noSide : ¬ " b/".toList <:+: quoteTwo "a/".toList p.source
  /-- The numstat has the path, without an arrow in it, or both names of a rename or a copy in
  full, with no earlier arrow. -/
  name : p.statName = p.path.quoted ∧ ¬ " => ".toList <:+: p.path.quoted ∨
    p.statName = quoteTwo [] p.source ++ " => ".toList ++ p.path.quoted ∧
      ¬ " => ".toList <:+: quoteTwo [] p.source ++ [' ']

/-- Plain files, each at a path of its own. Spaces are allowed in a path, and so are renames that
git does not fold. -/
structure PlainPaths (ps : List FilePair) : Prop where
  plain : ∀ p ∈ ps, p.Plain
  distinct : (ps.map FilePair.path).Nodup

theorem headerEntry_headerRest (paths : List String) (f : FileChange) :
    headerEntry paths (String.ofList f.headerRest) =
      f.headerName.bind fun name => paths.findIdx? fun path => path == name := by
  unfold headerEntry FileChange.headerName
  rw [@String.toList_ofList f.headerRest]
  cases splitOnceAt " b/".toList f.headerRest with
  | none => rfl
  | some sides => rfl

/-- Of different names, each is found where it stands. -/
theorem findIdx?_of_nodup {names : List String} (h : names.Nodup) {k : Nat} {name : String}
    (hk : names[k]? = some name) : (names.findIdx? fun path => path == name) = some k := by
  obtain ⟨hlt, rfl⟩ := List.getElem?_eq_some_iff.mp hk
  rw [List.findIdx?_eq_some_iff_getElem]
  refine ⟨hlt, beq_self_eq_true _, fun j hj hfound => ?_⟩
  have hsame : names[j] = names[k] := beq_iff_eq.mp hfound
  exact absurd (h.getElem_inj_iff.mp hsame) (Nat.ne_of_lt hj)

/-- Sections whose headers name an entry go there. -/
theorem attributed_of_headers {paths : List String} (cur : Option Nat) {fs : List FileChange}
    (h : ∀ f ∈ fs, (headerEntry paths (String.ofList f.headerRest)).isSome = true) :
    attributed paths cur fs =
      fs.map fun f => (headerEntry paths (String.ofList f.headerRest), f) := by
  induction fs generalizing cur with
  | nil => rfl
  | cons f fs ih =>
      have howner : f.owner paths cur = headerEntry paths (String.ofList f.headerRest) := by
        obtain ⟨ix, hix⟩ := Option.isSome_iff_exists.mp (h f List.mem_cons_self)
        unfold FileChange.owner
        rw [hix]
        rfl
      rw [attributed, howner, List.map_cons, ih _ fun g hg => h g (List.mem_cons_of_mem f hg)]

theorem bucket_map {α : Type} (owner : α → Option Nat) (items : List α) (k : Nat) :
    bucket (items.map fun x => (owner x, x)) k = items.filter fun x => owner x == some k := by
  unfold bucket
  rw [List.filter_map, List.map_map]
  exact List.map_id _

/-- Of sections that are numbered like their files, a number selects those of one file. -/
theorem filter_sections {owner : FileChange → Option Nat} {ps : List FilePair} {n : Nat}
    (h : ∀ j p, ps[j]? = some p → ∀ g ∈ p.sections, owner g = some (n + j)) (k : Nat) :
    ((sections ps).filter fun g => owner g == some (n + k)) =
      (ps[k]?.map FilePair.sections).getD [] := by
  induction ps generalizing n k with
  | nil => rfl
  | cons p ps ih =>
      have hrest : ∀ j q, ps[j]? = some q → ∀ g ∈ q.sections, owner g = some (n + 1 + j) := by
        intro j q hj g hg
        rw [h (j + 1) q hj g hg, Nat.add_assoc, Nat.add_comm 1 j]
      have hfirst := h 0 p rfl
      unfold sections at ih ⊢
      rw [List.flatMap_cons, List.filter_append]
      cases k with
      | zero =>
          have hall : (p.sections.filter fun g => owner g == some (n + 0)) = p.sections :=
            List.filter_eq_self.mpr fun g hg => beq_iff_eq.mpr (hfirst g hg)
          have hnone : ((ps.flatMap FilePair.sections).filter fun g => owner g == some (n + 0)) =
              [] := by
            refine List.filter_eq_nil_iff.mpr fun g hg => ?_
            obtain ⟨q, hq, hgq⟩ := List.mem_flatMap.mp hg
            obtain ⟨j, hj⟩ := List.mem_iff_getElem?.mp hq
            rw [hrest j q hj g hgq, beq_iff_eq, Option.some.injEq]
            omega
          rw [hall, hnone, List.append_nil]
          rfl
      | succ k =>
          have hnone : (p.sections.filter fun g => owner g == some (n + (k + 1))) = [] := by
            refine List.filter_eq_nil_iff.mpr fun g hg => ?_
            rw [hfirst g hg, beq_iff_eq, Option.some.injEq]
            omega
          have hindex : n + (k + 1) = n + 1 + k := by omega
          rw [hnone, List.nil_append, hindex, ih hrest k, List.getElem?_cons_succ]

/-- Sections whose headers name their own files. -/
theorem goTo_of_headerName {ps : List FilePair}
    (hname : ∀ p ∈ ps, ∀ g ∈ p.sections, g.headerName = some p.entry.path)
    (hnodup : (entryPaths ps).Nodup) {k : Nat} {p : FilePair} (hk : ps[k]? = some p) :
    goTo ps k = p.sections := by
  have hheaders : ∀ j p, ps[j]? = some p → ∀ g ∈ p.sections,
      headerEntry (entryPaths ps) (String.ofList g.headerRest) = some (0 + j) := by
    intro j p hj g hg
    have hpath : (entryPaths ps)[j]? = some p.entry.path := by
      unfold entryPaths
      rw [List.getElem?_map, hj]
      rfl
    rw [headerEntry_headerRest, hname p (List.mem_of_getElem? hj) g hg, Nat.zero_add]
    exact findIdx?_of_nodup hnodup hpath
  have hsome : ∀ g ∈ sections ps,
      (headerEntry (entryPaths ps) (String.ofList g.headerRest)).isSome = true := by
    intro g hg
    obtain ⟨q, hq, hgq⟩ := mem_sections.mp hg
    obtain ⟨j, hj⟩ := List.mem_iff_getElem?.mp hq
    rw [hheaders j q hj g hgq]
    rfl
  have hfilter := filter_sections hheaders k
  rw [hk, Nat.zero_add] at hfilter
  unfold goTo sectionsOf
  rw [attributed_of_headers none hsome, bucket_map]
  exact hfilter

/-! ### Plain files -/

theorem quoteTwo_of_unquoted {p : FilePath} (h : p.needsQuotes = false) (pre : List Char) :
    quoteTwo pre p = pre ++ p.quoted := by
  unfold quoteTwo
  rw [h]
  rfl

theorem splitOnceAt_eq_none {pat text : List Char} (h : ¬ pat <:+: text) :
    splitOnceAt pat text = none := by
  cases hcut : splitOnceAt pat text with
  | none => rfl
  | some sides =>
      obtain ⟨before, after⟩ := sides
      exact absurd ⟨before, after, (splitOnceAt_eq_some hcut).symm⟩ h

/-- The side of the new name begins where it first can. -/
theorem splitOnceAt_side {before : List Char} (h : ¬ " b/".toList <:+: before) (after : List Char) :
    splitOnceAt " b/".toList (before ++ " b/".toList ++ after) = some (before, after) := by
  have hpat : " b/".toList = [' ', 'b', '/'] := by decide
  rw [hpat] at h ⊢
  induction before with
  | nil =>
      show splitOnceAt _ (' ' :: 'b' :: '/' :: after) = _
      unfold splitOnceAt
      rfl
  | cons c rest ih =>
      have hlater : ([' ', 'b', '/'] : List Char).isPrefixOf
          (c :: (rest ++ [' ', 'b', '/'] ++ after)) = false := by
        rw [Bool.eq_false_iff]
        intro hpre
        rw [List.isPrefixOf_iff_prefix] at hpre
        -- an earlier side cannot reach into the one that is meant
        cases rest with
        | nil => simp at hpre
        | cons b rest =>
            cases rest with
            | nil => simp at hpre
            | cons s rest =>
                simp only [List.cons_append, List.cons_prefix_cons] at hpre
                obtain ⟨rfl, rfl, rfl, -⟩ := hpre
                exact h ⟨[], rest, rfl⟩
      have hrest := ih fun hinside => h (hinside.trans (List.suffix_cons c rest).isInfix)
      show splitOnceAt _ (c :: (rest ++ [' ', 'b', '/'] ++ after)) = _
      unfold splitOnceAt
      rw [hlater, if_neg Bool.false_ne_true, hrest]
      rfl

/-- So does an arrow that no earlier one reaches into. -/
theorem splitOnceAt_arrow {before : List Char} (h : ¬ " => ".toList <:+: before ++ [' '])
    (after : List Char) :
    splitOnceAt " => ".toList (before ++ " => ".toList ++ after) = some (before, after) := by
  have hpat : " => ".toList = [' ', '=', '>', ' '] := by decide
  rw [hpat] at h ⊢
  induction before with
  | nil =>
      show splitOnceAt _ (' ' :: '=' :: '>' :: ' ' :: after) = _
      unfold splitOnceAt
      rfl
  | cons c rest ih =>
      have hlater : ([' ', '=', '>', ' '] : List Char).isPrefixOf
          (c :: (rest ++ [' ', '=', '>', ' '] ++ after)) = false := by
        rw [Bool.eq_false_iff]
        intro hpre
        rw [List.isPrefixOf_iff_prefix] at hpre
        cases rest with
        | nil => simp at hpre
        | cons a rest =>
            cases rest with
            | nil => simp at hpre
            | cons b rest =>
                cases rest with
                | nil =>
                    simp only [List.cons_append, List.cons_prefix_cons] at hpre
                    obtain ⟨rfl, rfl, rfl, -⟩ := hpre
                    exact h ⟨[], [], rfl⟩
                | cons d rest =>
                    simp only [List.cons_append, List.cons_prefix_cons] at hpre
                    obtain ⟨rfl, rfl, rfl, rfl, -⟩ := hpre
                    exact h ⟨[], rest ++ [' '], rfl⟩
      have hrest := ih fun hinside => h (hinside.trans (List.suffix_cons c _).isInfix)
      show splitOnceAt _ (c :: (rest ++ [' ', '=', '>', ' '] ++ after)) = _
      unfold splitOnceAt
      rw [hlater, if_neg Bool.false_ne_true, hrest]
      rfl

/-- The names of a section are those of the file. -/
theorem source_of_mem_sections {p : FilePair} {g : FileChange} (hg : g ∈ p.sections) :
    g.source = p.source ∧ g.path = p.path := by
  cases p with
  | single f =>
      obtain rfl := List.mem_singleton.mp hg
      exact ⟨rfl, rfl⟩
  | retyped t =>
      rcases List.mem_cons.mp hg with rfl | hg
      · exact ⟨rfl, rfl⟩
      · obtain rfl := List.mem_singleton.mp hg
        exact ⟨rfl, rfl⟩

theorem FilePair.Plain.entryPath_eq {p : FilePair} (h : p.Plain) :
    p.entry.path = String.ofList p.path.quoted := by
  show entryPath (String.ofList p.statName) = _
  unfold entryPath
  rcases h.name with ⟨hname, hnone⟩ | ⟨hname, hnone⟩
  · rw [hname, @String.toList_ofList p.path.quoted, splitOnceAt_eq_none hnone]
  · rw [hname, @String.toList_ofList (quoteTwo [] p.source ++ " => ".toList ++ p.path.quoted),
      splitOnceAt_arrow hnone]

theorem FilePair.Plain.headerName {p : FilePair} (h : p.Plain) {g : FileChange}
    (hg : g ∈ p.sections) : g.headerName = some p.entry.path := by
  obtain ⟨hsource, hpath⟩ := source_of_mem_sections hg
  have hrest : g.headerRest = quoteTwo "a/".toList p.source ++ " b/".toList ++ p.path.quoted := by
    unfold FileChange.headerRest
    rw [hsource, hpath, quoteTwo_of_unquoted h.unquoted, List.append_assoc]
    rfl
  unfold FileChange.headerName
  rw [hrest, splitOnceAt_side h.noSide, h.entryPath_eq]
  rfl

/-- A path that is not quoted is its bytes. -/
theorem quoted_of_unquoted {p : FilePath} (h : p.needsQuotes = false) :
    p.quoted = p.bytes.map fun b => Char.ofNat b.toNat := by
  unfold FilePath.quoted
  rw [List.map_eq_flatMap]
  refine List.flatMap_congr fun b hb => ?_
  have hplain : mustQuote b = false := Bool.eq_false_iff.mpr (List.any_eq_false.mp h b hb)
  unfold quoteByte
  rw [hplain, if_neg Bool.false_ne_true]

theorem quoted_inj {p q : FilePath} (hp : p.needsQuotes = false) (hq : q.needsQuotes = false)
    (h : p.quoted = q.quoted) : p = q := by
  have hbyte : Function.Injective fun b : UInt8 => Char.ofNat b.toNat := by
    intro a b hab
    have hnat := congrArg Char.toNat hab
    have hsmall : ∀ c : UInt8, (Char.ofNat c.toNat).toNat = c.toNat := by
      intro c
      have hlt := c.toNat_lt
      have hvalid : c.toNat.isValidChar := Or.inl (by omega)
      rw [Char.ofNat, dif_pos hvalid]
      rfl
    dsimp only at hnat
    rw [hsmall, hsmall] at hnat
    exact UInt8.toNat_inj.mp hnat
  rw [quoted_of_unquoted hp, quoted_of_unquoted hq] at h
  obtain ⟨bytes, hvalid⟩ := p
  obtain ⟨bytes', hvalid'⟩ := q
  obtain rfl : bytes = bytes' := List.map_injective_iff.mpr hbyte h
  rfl

/-- Plain files have entries of different paths. -/
theorem PlainPaths.nodup {ps : List FilePair} (h : PlainPaths ps) : (entryPaths ps).Nodup := by
  have hdistinct := h.distinct
  unfold entryPaths
  rw [List.nodup_iff_pairwise_ne, List.pairwise_map] at hdistinct ⊢
  refine hdistinct.imp_of_mem ?_
  intro p q hp hq hne hsame
  have hp := h.plain p hp
  have hq := h.plain q hq
  rw [hp.entryPath_eq, hq.entryPath_eq] at hsame
  exact hne (quoted_inj hp.unquoted hq.unquoted (String.ofList_injective hsame))

/-- Every section of plain files goes to the entry of its file. -/
theorem PlainPaths.goTo_eq {ps : List FilePair} (h : PlainPaths ps) {k : Nat} {p : FilePair}
    (hk : ps[k]? = some p) : goTo ps k = p.sections :=
  goTo_of_headerName (fun q hq _ hg => (h.plain q hq).headerName hg) h.nodup hk

/-- **Lines are read back.**  For every list of files whose paths git prints alike, every line
comes back with its kind and text and the numbers add up if no line looks like something else
and the numbers fit.  For every list of files at all, lines and numbers must be like that. -/
theorem parseDiff_readBack (ps : List FilePair) :
    (PlainPaths ps → LinesFit ps → ReadBack ps (parseDiff (gitNumstat ps) (gitPatch ps))) ∧
      (ReadBack ps (parseDiff (gitNumstat ps) (gitPatch ps)) → LinesFit ps) := by
  refine ⟨fun hplain hfit => readBack_of_fit hfit fun k p hk => ?_, linesFit_of_readBack⟩
  rw [hplain.goTo_eq hk]
  unfold FilePair.hunks
  rw [List.map_flatMap]

/-- A permission that is set makes no other type of file. -/
theorem permission_set : FileMode.regular.fileType = FileMode.executable.fileType := rfl

/-- A changed file with a blank in its path, and one that is renamed from `é.txt`, whose old
name git quotes. -/
def spacedAndRenamed : List FilePair :=
  [.single {
    path := ⟨asBytes "my notes.txt", by decide +kernel⟩
    change := .modified .regular .executable permission_set
    objects := none
    body := .text [⟨1, 1, "", noHeading,
      [⟨.ctx, "a", false, by decide⟩, ⟨.add, "b", false, by decide⟩]⟩] },
  .single {
    path := ⟨asBytes "e.txt", by decide +kernel⟩
    change := .renamed ⟨asBytes "é.txt", by decide +kernel⟩ 90 .regular .executable permission_set
    objects := none
    body := .text [⟨3, 3, "", noHeading, [⟨.del, "c", false, by decide⟩]⟩] }]

theorem spacedAndRenamed_plain : PlainPaths spacedAndRenamed where
  plain := by
    intro p hp
    simp only [spacedAndRenamed, List.mem_cons, List.not_mem_nil, or_false] at hp
    rcases hp with rfl | rfl
    · exact ⟨by decide +kernel, by decide +kernel, Or.inl (by decide +kernel)⟩
    · exact ⟨by decide +kernel, by decide +kernel, Or.inr (by decide +kernel)⟩
  distinct := by decide +kernel

theorem spacedAndRenamed_fit : LinesFit spacedAndRenamed where
  lines := by
    have htexts : ∀ p ∈ spacedAndRenamed, ∀ h ∈ p.hunks, ∀ l ∈ h.lines,
        ¬ "++".toList <+: l.text.toList ∧ ¬ "--".toList <+: l.text.toList ∧
          l.text.toList.getLast? ≠ some '\r' := by
      decide +kernel
    intro p hp h hh l hl
    obtain ⟨hplus, hminus, hcr⟩ := htexts p hp h hh l hl
    exact ⟨fun _ => hplus, fun _ => hminus, hcr⟩
  counts := by decide +kernel
  additions := by decide +kernel
  deletions := by decide +kernel

/-- The lines of both come back. -/
theorem parseDiff_readBack_spacedAndRenamed : ReadBack spacedAndRenamed
    (parseDiff (gitNumstat spacedAndRenamed) (gitPatch spacedAndRenamed)) :=
  (parseDiff_readBack spacedAndRenamed).1 spacedAndRenamed_plain spacedAndRenamed_fit

end Reads
end Artifacts
