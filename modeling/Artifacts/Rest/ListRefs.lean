import Artifacts.Refs.HeadAgrees
import Artifacts.Rust.Lossy
import Mathlib.Data.List.Pairwise

/-!
# The refs of the detail endpoint

`list_refs` of the REST side reads the same files as `enumerate_refs` and checks neither
names nor objects: what a file or a line says is listed as it stands, under the lossy text
of its path.

`PlainRefs` is written without a look at either reader: no symbolic ref, no file with an ill
name or a name that is no text, no line with a bad oid, no two lines that give a name different
objects.  `LossyLine` is the one case that the converse leaves open.
-/

namespace Artifacts
namespace Rest

open Refs Rust

/-- `rest::RefEntry`. -/
structure RefRow where
  name : String
  sha : String
  deriving DecidableEq

/-- The text of a loose file, if it can be read and is not blank. -/
def shownText (contents : Option (List UInt8)) : Option String :=
  match readContents contents with
  | .error _ => none
  | .ok content =>
      let sha := trim content
      if sha.isEmpty then none else some sha

/-- `walk_refs`: directories are entered where they are listed. -/
def walkRefs (pre : String) : Dir → List RefRow
  | .empty => []
  | .file name contents rest =>
      ((shownText contents).map fun sha => ⟨pre ++ "/" ++ fromUtf8Lossy name.bytes, sha⟩).toList ++
        walkRefs pre rest
  | .dir name entries rest =>
      walkRefs (pre ++ "/" ++ fromUtf8Lossy name.bytes) entries ++ walkRefs pre rest

/-- The two fields of a line of `packed-refs` that is no comment and no peel line. -/
def packedFields (line : String) : Option (String × String) :=
  if line.isEmpty || startsWith line "#" || startsWith line "^" then none
  else splitOnce line ' '

/-- One line of `packed-refs`: the first row of a name stays. -/
def pushPacked (out : List RefRow) (line : String) : List RefRow :=
  match packedFields line with
  | none => out
  | some (sha, name) => if out.any (fun r => r.name == name) then out else out ++ [⟨name, sha⟩]

/-- Rows in the order of their names. -/
def sortRows (rows : List RefRow) : List RefRow :=
  rows.insertionSort fun a b => a.name ≤ b.name

/-- `list_refs`: the files below `refs`, and behind them the lines of `packed-refs` whose name no
file has taken. Neither names nor ids are checked. -/
def listRefs (files : RefFiles) : Except String (List RefRow) :=
  let out := walkRefs "refs" files.tree
  match files.packed with
  | none => .ok (sortRows out)
  | some _ =>
      match files.gitDir.readToString "packed-refs" with
      | .error cause => .error cause
      | .ok content => .ok (sortRows ((lines content).foldl pushPacked out))

/-- `list_refs` and `enumerate_refs` return the same names and objects, in the same order. What tags
peel to is only in the second. -/
def ListsSame (printable : Char → Bool) (files : RefFiles) : Prop :=
  listRefs files = .ok ((enumerateRefs printable files.gitDir).map fun e =>
    ⟨e.name.text, e.oid.text⟩)

/-- The lossy text of a path. -/
def lossyName (path : Path) : String :=
  path.foldl (fun pre name => pre ++ "/" ++ fromUtf8Lossy name.bytes) "refs"

/-- What the first line of a name says. -/
def firstSha (name : String) (ls : List String) : Option String :=
  ls.findSome? fun line =>
    (packedFields line).bind fun fields => if fields.2 = name then some fields.1 else none

/-- The walk and the lines give the name this object: the last file that takes it, or else
the last line. -/
def Given (files : RefFiles) (name sha : String) : Prop :=
  ∃ n : RefName, ∃ oid : Oid, name = n.text ∧ sha = oid.text ∧
    (lastLoose n.text files.tree.walk = some oid ∨
      lastLoose n.text files.tree.walk = none ∧
        ∃ peeled, packedWith directPeel n.text files.packedLines = some (oid, peeled))

/-- The last line `<oid> <name>` of a name has this object. -/
def LastLine (name sha : String) (ls : List String) : Prop :=
  ∃ before behind, ls = before ++ (sha ++ " " ++ name) :: behind ∧
    ∀ line ∈ behind, ∀ other, validOid other = true → line ≠ other ++ " " ++ name

/-- Files and lines that say nothing but refs: a condition on the paths and texts below
`refs/` and on the lines of `packed-refs`, whatever the two readers make of them. -/
structure PlainRefs (files : RefFiles) : Prop where
  /-- The paths of the files that are not blank are UTF-8. -/
  utf8 : ∀ f ∈ files.tree.files, (shownText f.2).isSome = true → IsUtf8 f.1
  /-- Such a file has a valid name, and its text is an object: no symbolic ref, no lock file. -/
  loose : ∀ f ∈ files.tree.files, ∀ sha, shownText f.2 = some sha →
    validRefName (refName f.1) = true ∧ validOid sha = true
  /-- A first line `<a> <b>` that no such file has the name of gives an object to a valid
  name, and the last line of the name gives it the same one. -/
  packed : ∀ name sha, firstSha name files.packedLines = some sha →
    (∀ f ∈ files.tree.files, refName f.1 = name → shownText f.2 = none) →
    validRefName name = true ∧ validOid sha = true ∧ LastLine name sha files.packedLines

/-- `packed-refs` has a line for the lossy text of a path that is not UTF-8. The two readers can
then agree by accident, for one of them lists the file under that text. -/
def LossyLine (files : RefFiles) : Prop :=
  ∃ f ∈ files.tree.files, (shownText f.2).isSome = true ∧ ¬ IsUtf8 f.1 ∧
    (firstSha (lossyName f.1) files.packedLines).isSome = true

/-! ### Sorting -/

theorem mem_sortRows {rows : List RefRow} {r : RefRow} : r ∈ sortRows rows ↔ r ∈ rows :=
  (List.perm_insertionSort _ rows).mem_iff

theorem sortRows_pairwise {rows : List RefRow} (h : (rows.map RefRow.name).Nodup) :
    (sortRows rows).Pairwise fun a b => a.name < b.name := by
  have hsorted : (sortRows rows).Pairwise fun a b => a.name ≤ b.name := by
    have : Std.Total fun a b : RefRow => a.name ≤ b.name := ⟨fun a b => le_total a.name b.name⟩
    have : IsTrans RefRow fun a b => a.name ≤ b.name := ⟨fun _ _ _ => le_trans⟩
    exact List.pairwise_insertionSort _ rows
  have hperm : ((sortRows rows).map RefRow.name).Nodup :=
    ((List.perm_insertionSort _ rows).map RefRow.name).nodup_iff.mpr h
  rw [List.nodup_iff_pairwise_ne, List.pairwise_map] at hperm
  apply (hsorted.and hperm).imp
  intro a b hab
  exact lt_of_le_of_ne hab.1 hab.2

/-- Rows sort to a strictly sorted list exactly when they are its rows, once each. -/
theorem sortRows_eq_iff {rows sorted : List RefRow}
    (h : sorted.Pairwise fun a b => a.name < b.name) :
    sortRows rows = sorted ↔ (rows.map RefRow.name).Nodup ∧ ∀ r, r ∈ rows ↔ r ∈ sorted := by
  have hnodup : (sorted.map RefRow.name).Nodup := by
    rw [List.nodup_iff_pairwise_ne, List.pairwise_map]
    exact h.imp fun hab => ne_of_lt hab
  constructor
  · rintro rfl
    exact ⟨((List.perm_insertionSort _ rows).map RefRow.name).nodup_iff.mp hnodup,
      fun r => mem_sortRows.symm⟩
  · rintro ⟨hrows, hmem⟩
    have hperm : (sortRows rows).Perm sorted := by
      refine (List.perm_insertionSort _ rows).trans ?_
      rw [List.perm_ext_iff_of_nodup hrows.of_map hnodup.of_map]
      exact hmem
    apply hperm.eq_of_pairwise _ (sortRows_pairwise hrows) h
    intro a b _ _ hab hba
    exact absurd hba (lt_asymm hab)

/-! ### The rows before sorting -/

theorem walkRefs_eq (d : Dir) (path : Path) :
    walkRefs (lossyName path) d =
      d.files.filterMap fun f => (shownText f.2).map fun sha => ⟨lossyName (path ++ f.1), sha⟩ := by
  have hsnoc : ∀ name, lossyName (path ++ [name]) =
      lossyName path ++ "/" ++ fromUtf8Lossy name.bytes := by
    intro name
    simp [lossyName]
  induction d generalizing path with
  | empty => rfl
  | file name contents rest ih =>
      rw [walkRefs, Dir.files, List.filterMap_cons, ih path hsnoc, hsnoc]
      cases shownText contents with
      | none => rfl
      | some sha => rfl
  | dir name entries rest ihe ih =>
      have hentries := ihe (path ++ [name]) (by intro other; simp [lossyName])
      rw [walkRefs, Dir.files, List.filterMap_append, ih path hsnoc, ← hsnoc, hentries,
        List.filterMap_map]
      simp

theorem mem_walkRefs {d : Dir} {r : RefRow} :
    r ∈ walkRefs "refs" d ↔ ∃ f ∈ d.files, lossyName f.1 = r.name ∧ shownText f.2 = some r.sha := by
  have hrows := walkRefs_eq d []
  rw [show lossyName [] = "refs" from rfl] at hrows
  rw [hrows, List.mem_filterMap]
  constructor
  · rintro ⟨f, hf, hrow⟩
    obtain ⟨sha, hsha, rfl⟩ := Option.map_eq_some_iff.mp hrow
    exact ⟨f, hf, rfl, hsha⟩
  · rintro ⟨f, hf, hname, hsha⟩
    refine ⟨f, hf, ?_⟩
    rw [hsha, List.nil_append, hname]
    rfl

/-- Is there a row of this name? -/
def Named (rows : List RefRow) (name : String) : Prop := ∃ r ∈ rows, r.name = name

theorem any_name_iff {rows : List RefRow} {name : String} :
    rows.any (fun r => r.name == name) = true ↔ Named rows name := by
  unfold Named
  simp [List.any_eq_true]

theorem firstSha_cons {name line : String} {ls : List String} :
    firstSha name (line :: ls) =
      ((packedFields line).bind fun fields =>
        if fields.2 = name then some fields.1 else none).or (firstSha name ls) := by
  unfold firstSha
  rw [List.findSome?_cons]
  cases (packedFields line).bind fun fields => if fields.2 = name then some fields.1 else none with
  | none => rfl
  | some sha => rfl

theorem named_append {out : List RefRow} {row : RefRow} {name : String} :
    Named (out ++ [row]) name ↔ Named out name ∨ row.name = name := by
  simp [Named, or_and_right, exists_or]

/-- The lines add a row for each new name, from the first line that has it. -/
theorem mem_foldl_pushPacked (ls : List String) (out : List RefRow) (r : RefRow) :
    r ∈ ls.foldl pushPacked out ↔
      r ∈ out ∨ ¬ Named out r.name ∧ firstSha r.name ls = some r.sha := by
  induction ls generalizing out with
  | nil => simp [firstSha]
  | cons line rest ih =>
      rw [List.foldl_cons, ih, firstSha_cons]
      cases hfields : packedFields line with
      | none =>
          have hskip : pushPacked out line = out := by simp [pushPacked, hfields]
          rw [hskip]
          rfl
      | some fields =>
          obtain ⟨sha, name⟩ := fields
          rw [Option.bind_some]
          by_cases hnamed : Named out name
          · have hskip : pushPacked out line = out := by
              simp [pushPacked, hfields, any_name_iff.mpr hnamed]
            rw [hskip]
            refine or_congr_right (and_congr_right fun hnew => ?_)
            have hother : ¬ name = r.name := fun h => hnew (h ▸ hnamed)
            rw [if_neg hother, Option.none_or]
          · have hpush : pushPacked out line = out ++ [⟨name, sha⟩] := by
              simp [pushPacked, hfields, Bool.eq_false_iff.mpr (any_name_iff.not.mpr hnamed)]
            rw [hpush, named_append, List.mem_append, List.mem_singleton]
            by_cases hname : name = r.name
            · subst hname
              simp only [or_true, not_true_eq_false, false_and, or_false, if_true,
                Option.some_or, Option.some.injEq]
              refine or_congr_right ⟨?_, ?_⟩
              · intro hr
                exact ⟨hnamed, by rw [hr]⟩
              · rintro ⟨-, rfl⟩
                rfl
            · have hne : r ≠ ⟨name, sha⟩ := by
                rintro rfl
                exact hname rfl
              rw [if_neg hname, Option.none_or]
              simp [hne, hname]

theorem nodup_foldl_pushPacked (ls : List String) (out : List RefRow) :
    ((ls.foldl pushPacked out).map RefRow.name).Nodup ↔ (out.map RefRow.name).Nodup := by
  induction ls generalizing out with
  | nil => rfl
  | cons line rest ih =>
      rw [List.foldl_cons, ih]
      unfold pushPacked
      split
      · rfl
      · rename_i sha name hfields
        split_ifs with hany
        · rfl
        · have hnew : name ∉ out.map RefRow.name := by
            rw [any_name_iff] at hany
            intro hmem
            obtain ⟨r, hr, hname⟩ := List.mem_map.mp hmem
            exact hany ⟨r, hr, hname⟩
          rw [List.map_append, List.map_singleton, List.nodup_append]
          constructor
          · exact fun h => h.1
          · intro h
            refine ⟨h, List.nodup_singleton _, ?_⟩
            intro a ha b hb
            obtain rfl := List.mem_singleton.mp hb
            rintro rfl
            exact hnew ha

/-! ### The two listings -/

/-- The rows that `list_refs` sorts. -/
def rowsOf (files : RefFiles) : List RefRow :=
  files.packedLines.foldl pushPacked (walkRefs "refs" files.tree)

theorem listRefs_eq (files : RefFiles) : listRefs files = .ok (sortRows (rowsOf files)) := by
  have hread : files.gitDir.readToString "packed-refs" =
      readContents (files.packed.map asBytes) := rfl
  unfold listRefs rowsOf RefFiles.packedLines
  rw [hread]
  cases files.packed with
  | none => rfl
  | some text =>
      rw [Option.map_some, readContents_asBytes]
      rfl

theorem named_walkRefs {files : RefFiles} {name : String} :
    Named (walkRefs "refs" files.tree) name ↔
      ∃ f ∈ files.tree.files, lossyName f.1 = name ∧ (shownText f.2).isSome = true := by
  unfold Named
  constructor
  · rintro ⟨r, hr, rfl⟩
    obtain ⟨f, hf, hname, hsha⟩ := mem_walkRefs.mp hr
    exact ⟨f, hf, hname, by rw [hsha]; rfl⟩
  · rintro ⟨f, hf, hname, hsome⟩
    obtain ⟨sha, hsha⟩ := Option.isSome_iff_exists.mp hsome
    exact ⟨⟨name, sha⟩, mem_walkRefs.mpr ⟨f, hf, hname, hsha⟩, rfl⟩

/-- What `enumerate_refs` lists, as rows. -/
theorem mem_listed_iff (printable : Char → Bool) (files : RefFiles) (r : RefRow) :
    r ∈ ((enumerateRefs printable files.gitDir).map fun e => (⟨e.name.text, e.oid.text⟩ : RefRow)) ↔
      Given files r.name r.sha := by
  rw [List.mem_map]
  unfold Given
  constructor
  · rintro ⟨e, he, rfl⟩
    refine ⟨e.name, e.oid, rfl, rfl, ?_⟩
    rcases (mem_enumerateRefs printable files e).mp he with ⟨hloose, -⟩ | ⟨hno, hpacked⟩
    · exact Or.inl hloose
    · exact Or.inr ⟨hno, packedWith_oid hpacked⟩
  · rintro ⟨n, oid, hname, hsha, hloose | ⟨hno, peeled, hpacked⟩⟩
    · exact ⟨⟨n, oid, none⟩, (mem_enumerateRefs printable files _).mpr (Or.inl ⟨hloose, rfl⟩),
        by rw [← hname, ← hsha]⟩
    · obtain ⟨peeled', hpacked⟩ := @packedWith_oid _ lastPeel _ _ _ _ hpacked
      exact ⟨⟨n, oid, peeled'⟩, (mem_enumerateRefs printable files _).mpr (Or.inr ⟨hno, hpacked⟩),
        by rw [← hname, ← hsha]⟩

theorem Given.unique {files : RefFiles} {name sha sha' : String} (h : Given files name sha)
    (h' : Given files name sha') : sha = sha' := by
  obtain ⟨n, oid, rfl, rfl, hvalue⟩ := h
  obtain ⟨n', oid', hname, rfl, hvalue'⟩ := h'
  rw [← hname] at hvalue'
  rcases hvalue with hloose | ⟨hno, peeled, hpacked⟩
  · rcases hvalue' with hloose' | ⟨hno', -⟩
    · rw [Option.some.inj (hloose.symm.trans hloose')]
    · rw [hloose] at hno'
      cases hno'
  · rcases hvalue' with hloose' | ⟨-, peeled', hpacked'⟩
    · rw [hloose'] at hno
      cases hno
    · rw [(Prod.mk.inj (Option.some.inj (hpacked.symm.trans hpacked'))).1]

theorem packedFields_of_refLine {line : String} {name : RefName} {oid : Oid}
    (h : refLine line = some (name, oid)) : packedFields line = some (oid.text, name.text) := by
  obtain ⟨hsome, hhash, hcaret, hsplit⟩ := reads_of_refLine h
  unfold packedFields
  rw [hsome, hhash, hcaret, hsplit]
  rfl

/-- A name that `packed-refs` gives an object stands on a line. -/
theorem firstSha_of_packedWith {peel : List String → Option Oid} {n : String} {ls : List String}
    {oid : Oid} {peeled : Option Oid} (h : packedWith peel n ls = some (oid, peeled)) :
    (firstSha n ls).isSome = true := by
  obtain ⟨before, line, behind, name, rfl, hline, hname, -⟩ := packedWith_eq_some h
  unfold firstSha
  rw [List.findSome?_isSome_iff]
  refine ⟨line, by simp, ?_⟩
  rw [packedFields_of_refLine hline, Option.bind_some, if_pos hname]
  rfl

theorem mem_rowsOf {files : RefFiles} {r : RefRow} :
    r ∈ rowsOf files ↔ r ∈ walkRefs "refs" files.tree ∨
      ¬ Named (walkRefs "refs" files.tree) r.name ∧
        firstSha r.name files.packedLines = some r.sha :=
  mem_foldl_pushPacked _ _ r

/-- A name on a line has a row. -/
theorem named_of_firstSha {files : RefFiles} {name : String}
    (h : (firstSha name files.packedLines).isSome = true) : Named (rowsOf files) name := by
  by_cases hnamed : Named (walkRefs "refs" files.tree) name
  · obtain ⟨r, hr, hname⟩ := hnamed
    exact ⟨r, mem_rowsOf.mpr (Or.inl hr), hname⟩
  · obtain ⟨sha, hsha⟩ := Option.isSome_iff_exists.mp h
    exact ⟨⟨name, sha⟩, mem_rowsOf.mpr (Or.inr ⟨hnamed, hsha⟩), rfl⟩

/-- The two lists are one exactly when no name is doubled and the rows are those given. -/
theorem listsSame_iff_rows (printable : Char → Bool) (files : RefFiles) :
    ListsSame printable files ↔
      ((walkRefs "refs" files.tree).map RefRow.name).Nodup ∧
        ∀ r, r ∈ rowsOf files ↔ Given files r.name r.sha := by
  have hsorted : ((enumerateRefs printable files.gitDir).map fun e =>
      (⟨e.name.text, e.oid.text⟩ : RefRow)).Pairwise fun a b => a.name < b.name :=
    List.pairwise_map.mpr (enumerateRefs_sorted printable _)
  unfold ListsSame
  rw [listRefs_eq, Except.ok.injEq, sortRows_eq_iff hsorted]
  simp only [mem_listed_iff]
  exact and_congr_left fun _ => nodup_foldl_pushPacked _ _

/-! ### The two names of a path -/

theorem lossyName_of_utf8 {path : Path} (h : IsUtf8 path) : lossyName path = refName path := by
  have hcomponent : ∀ name ∈ path, asBytes (fromUtf8Lossy name.bytes) = name.bytes := by
    intro name hname
    obtain ⟨s, hs⟩ := h name hname
    rw [← asBytes_of_fromUtf8 hs, fromUtf8Lossy_asBytes]
  have hfold : ∀ pre : String, asBytes (path.foldl
      (fun pre name => pre ++ "/" ++ fromUtf8Lossy name.bytes) pre) =
        [47].intercalate (asBytes pre :: path.map FileName.bytes) := by
    clear h
    induction path with
    | nil => simp
    | cons name path ih =>
        intro pre
        have hslash : asBytes "/" = [47] := by decide
        rw [List.foldl_cons, ih fun n hn => hcomponent n (List.mem_cons_of_mem name hn),
          asBytes_append, asBytes_append, hcomponent name List.mem_cons_self, hslash]
        cases path with
        | nil => simp
        | cons name' path => simp
  rw [← asBytes_inj, asBytes_refName h, lossyName, hfold]
  rfl

/-- How many slashes a text has. -/
def slashes (s : String) : Nat := s.toList.count '/'

theorem slashes_append (s t : String) : slashes (s ++ t) = slashes s + slashes t := by
  simp [slashes]

theorem slash_not_mem_lossy (name : FileName) : slashes (fromUtf8Lossy name.bytes) = 0 := by
  refine List.count_eq_zero.mpr fun hmem => ?_
  exact name.valid.2.2.2.1 (mem_of_mem_fromUtf8Lossy (by decide) hmem)

/-- The lossy name keeps all components of a path. -/
theorem slashes_lossyName (path : Path) : slashes (lossyName path) = path.length := by
  have hfold : ∀ pre : String, slashes (path.foldl
      (fun pre name => pre ++ "/" ++ fromUtf8Lossy name.bytes) pre) =
        slashes pre + path.length := by
    induction path with
    | nil => exact fun pre => rfl
    | cons name path ih =>
        intro pre
        have hslash : slashes "/" = 1 := by decide
        rw [List.foldl_cons, ih, slashes_append, slashes_append, slash_not_mem_lossy, hslash,
          List.length_cons]
        omega
  have hrefs : slashes "refs" = 0 := by decide
  rw [lossyName, hfold, hrefs, Nat.zero_add]

/-- The name of `enumerate_refs` keeps those that are UTF-8. -/
theorem slashes_refName (path : Path) :
    slashes (refName path) = (path.filterMap fun name => fromUtf8 name.bytes).length := by
  have hwords : ∀ words : List String, (∀ word ∈ words, slashes word = 0) → ∀ first : String,
      slashes ("/".intercalate (first :: words)) = slashes first + words.length := by
    intro words hnone
    induction words with
    | nil => simp [slashes]
    | cons word words ih =>
        intro first
        have hslash : slashes "/" = 1 := by decide
        rw [String.intercalate_cons_cons, slashes_append, slashes_append,
          ih (fun w hw => hnone w (List.mem_cons_of_mem word hw)),
          hnone word List.mem_cons_self, hslash, List.length_cons]
        omega
  have hrefs : slashes "refs" = 0 := by decide
  rw [refName, hwords _ _ "refs", hrefs, Nat.zero_add]
  intro word hword
  obtain ⟨name, -, hname⟩ := List.mem_filterMap.mp hword
  refine List.count_eq_zero.mpr fun hmem => ?_
  have hbyte := (mem_asBytes_ascii (by decide)).mpr hmem
  rw [asBytes_of_fromUtf8 hname] at hbyte
  exact name.valid.2.2.2.1 hbyte

/-- A path that loses a component is longer than any path whose lossy name is what is left. -/
theorem length_lt_of_lossyName {path path' : Path} (h : ¬ IsUtf8 path')
    (hname : refName path' = lossyName path) : path.length < path'.length := by
  rw [← slashes_lossyName path, ← hname, slashes_refName]
  refine lt_of_le_of_ne (List.length_filterMap_le _ _) fun hall => h ?_
  intro name hmem
  have hsome := List.filterMap_length_eq_length.mp hall name hmem
  exact Option.isSome_iff_exists.mp hsome

/-! ### The two lists -/

theorem shownText_of_looseOid {contents : Option (List UInt8)} {oid : Oid}
    (h : looseOid contents = some oid) : shownText contents = some oid.text := by
  unfold looseOid at h
  unfold shownText
  cases hread : readContents contents with
  | error cause =>
      rw [hread] at h
      cases h
  | ok text =>
      rw [hread] at h
      have htext : trim text = oid.text := oidOf_eq_some.mp h
      have hsome : ¬ oid.text.isEmpty = true := by
        intro hempty
        have hvalid := oid.valid
        rw [String.isEmpty_iff.mp hempty] at hvalid
        exact absurd hvalid (by decide)
      dsimp only
      rw [htext, if_neg hsome]

theorem looseOid_of_shownText {contents : Option (List UInt8)} {sha : String}
    (h : shownText contents = some sha) (hvalid : validOid sha = true) :
    looseOid contents = some ⟨sha, hvalid⟩ := by
  unfold shownText at h
  unfold looseOid
  cases hread : readContents contents with
  | error cause =>
      rw [hread] at h
      cases h
  | ok text =>
      rw [hread] at h
      dsimp only at h
      split_ifs at h
      exact oidOf_eq_some.mpr (Option.some.inj h)

theorem PlainRefs.lossyName_eq {files : RefFiles} (h : PlainRefs files) {f : LooseFile}
    (hf : f ∈ files.tree.files) {sha : String} (hsha : shownText f.2 = some sha) :
    lossyName f.1 = refName f.1 :=
  lossyName_of_utf8 (h.utf8 f hf (by rw [hsha]; rfl))

/-- Two shown files of one name are one file. -/
theorem PlainRefs.same_file {files : RefFiles} (h : PlainRefs files) {f g : LooseFile}
    (hf : f ∈ files.tree.files) (hg : g ∈ files.tree.files) {sha sha' : String}
    (hsha : shownText f.2 = some sha) (hsha' : shownText g.2 = some sha')
    (hname : refName f.1 = refName g.1) : f = g := by
  refine List.inj_on_of_nodup_map (Dir.files_distinct files.distinct) hf hg (fullPath_inj ?_)
  rw [← asBytes_refName (h.utf8 f hf (by rw [hsha]; rfl)),
    ← asBytes_refName (h.utf8 g hg (by rw [hsha']; rfl)), hname]

theorem PlainRefs.once {files : RefFiles} (h : PlainRefs files) :
    ((walkRefs "refs" files.tree).map RefRow.name).Nodup := by
  have hrows := walkRefs_eq files.tree []
  rw [show lossyName [] = "refs" from rfl] at hrows
  rw [hrows, List.nodup_iff_pairwise_ne, List.pairwise_map, List.pairwise_filterMap]
  have hdistinct := Dir.files_distinct files.distinct
  rw [List.nodup_iff_pairwise_ne, List.pairwise_map] at hdistinct
  refine hdistinct.imp_of_mem ?_
  intro f g hf hg hne row hrow row' hrow' hname
  obtain ⟨sha, hsha, rfl⟩ := Option.map_eq_some_iff.mp hrow
  obtain ⟨sha', hsha', rfl⟩ := Option.map_eq_some_iff.mp hrow'
  rw [List.nil_append, List.nil_append, h.lossyName_eq hf hsha, h.lossyName_eq hg hsha'] at hname
  exact hne (congrArg Prod.fst (h.same_file hf hg hsha hsha' hname))

/-- A row of `list_refs` is one of `enumerate_refs`. -/
theorem PlainRefs.given {files : RefFiles} (h : PlainRefs files) {r : RefRow}
    (hr : r ∈ rowsOf files) : Given files r.name r.sha := by
  rcases mem_rowsOf.mp hr with hloose | ⟨hnew, hline⟩
  · obtain ⟨f, hf, hname, hsha⟩ := mem_walkRefs.mp hloose
    obtain ⟨hvalid, hoid⟩ := h.loose f hf r.sha hsha
    rw [h.lossyName_eq hf hsha] at hname
    refine ⟨⟨refName f.1, hvalid⟩, ⟨r.sha, hoid⟩, hname.symm, rfl, Or.inl ?_⟩
    have hmem := files.tree.walk_perm.mem_iff.mpr hf
    cases hlast : lastLoose (refName f.1) files.tree.walk with
    | none =>
        have hnone := lastLoose_eq_none.mp hlast f hmem rfl
        rw [looseOid_of_shownText hsha hoid] at hnone
        cases hnone
    | some oid =>
        -- the last file that takes the name is this one
        obtain ⟨before, g, behind, hwalk, hsame, hlooseOid, -⟩ := lastLoose_eq_some.mp hlast
        have hg : g ∈ files.tree.files := by
          rw [← files.tree.walk_perm.mem_iff, hwalk]
          simp
        obtain rfl := h.same_file hg hf (shownText_of_looseOid hlooseOid) hsha hsame
        rw [← hlooseOid, looseOid_of_shownText hsha hoid]
  · have hno : ∀ f ∈ files.tree.files, refName f.1 = r.name → shownText f.2 = none := by
      intro f hf hname
      cases hsha : shownText f.2 with
      | none => rfl
      | some sha =>
          refine absurd (named_walkRefs.mpr ⟨f, hf, ?_, by rw [hsha]; rfl⟩) hnew
          rw [h.lossyName_eq hf hsha, hname]
    obtain ⟨hvalid, hoid, before, behind, hlines, hlast⟩ := h.packed r.name r.sha hline hno
    refine ⟨⟨r.name, hvalid⟩, ⟨r.sha, hoid⟩, rfl, rfl, Or.inr ⟨?_, directPeel behind, ?_⟩⟩
    · refine lastLoose_eq_none.mpr fun f hf hname => ?_
      cases hlooseOid : looseOid f.2 with
      | none => rfl
      | some oid =>
          have hnone := hno f (files.tree.walk_perm.mem_iff.mp hf) hname
          rw [shownText_of_looseOid hlooseOid] at hnone
          cases hnone
    · rw [hlines]
      refine packedWith_cut before (refLine_eq_some.mpr rfl) rfl ?_
      refine packedWith_eq_none.mpr fun line hmem name oid hrefLine hname => ?_
      refine hlast line hmem oid.text oid.valid ?_
      rw [refLine_eq_some.mp hrefLine, hname]

/-- A name that `enumerate_refs` lists has a row. -/
theorem PlainRefs.named {files : RefFiles} (h : PlainRefs files) {name sha : String}
    (hgiven : Given files name sha) : Named (rowsOf files) name := by
  obtain ⟨n, oid, rfl, rfl, hloose | ⟨-, peeled, hpacked⟩⟩ := hgiven
  · obtain ⟨before, f, behind, hwalk, hname, hoid, -⟩ := lastLoose_eq_some.mp hloose
    have hf : f ∈ files.tree.files := by
      rw [← files.tree.walk_perm.mem_iff, hwalk]
      simp
    have hsha := shownText_of_looseOid hoid
    obtain ⟨r, hr, hrow⟩ := named_walkRefs.mpr ⟨f, hf, h.lossyName_eq hf hsha, by rw [hsha]; rfl⟩
    exact ⟨r, mem_rowsOf.mpr (Or.inl hr), hrow.trans hname⟩
  · exact named_of_firstSha (firstSha_of_packedWith hpacked)

theorem PlainRefs.listsSame {files : RefFiles} (h : PlainRefs files) (printable : Char → Bool) :
    ListsSame printable files := by
  refine (listsSame_iff_rows printable files).mpr ⟨h.once, fun r => ⟨h.given, fun hgiven => ?_⟩⟩
  obtain ⟨⟨name', sha'⟩, hr', hname⟩ := h.named hgiven
  have hsha := (h.given hr').unique (hname ▸ hgiven)
  obtain ⟨name, sha⟩ := r
  obtain rfl : name' = name := hname
  obtain rfl : sha' = sha := hsha
  exact hr'

/-! ### Lists that are one -/

section Same

variable {files : RefFiles} (honce : ((walkRefs "refs" files.tree).map RefRow.name).Nodup)
  (hrows : ∀ r, r ∈ rowsOf files ↔ Given files r.name r.sha)

include hrows in
theorem given_of_shown {f : LooseFile} (hf : f ∈ files.tree.files) {sha : String}
    (hsha : shownText f.2 = some sha) : Given files (lossyName f.1) sha :=
  (hrows ⟨lossyName f.1, sha⟩).mp (mem_rowsOf.mpr (Or.inl (mem_walkRefs.mpr ⟨f, hf, rfl, hsha⟩)))

include honce in
theorem shown_inj {f g : LooseFile} (hf : f ∈ files.tree.files) (hg : g ∈ files.tree.files)
    {sha sha' : String} (hsha : shownText f.2 = some sha) (hsha' : shownText g.2 = some sha')
    (hname : lossyName f.1 = lossyName g.1) : f.1 = g.1 := by
  by_contra hne
  have hrows := walkRefs_eq files.tree []
  rw [show lossyName [] = "refs" from rfl] at hrows
  rw [hrows, List.nodup_iff_pairwise_ne, List.pairwise_map, List.pairwise_filterMap] at honce
  have hsymm : Std.Symm fun f g : LooseFile =>
      ∀ r, Option.map (fun sha => (⟨lossyName ([] ++ f.1), sha⟩ : RefRow)) (shownText f.2) = some r →
        ∀ r', Option.map (fun sha => (⟨lossyName ([] ++ g.1), sha⟩ : RefRow)) (shownText g.2) =
          some r' → r.name ≠ r'.name :=
    ⟨fun f g h r hr r' hr' => (h r' hr' r hr).symm⟩
  have hboth := honce.forall hf hg (fun heq => hne (congrArg Prod.fst heq))
  refine hboth ⟨_, sha⟩ (by rw [hsha]; rfl) ⟨_, sha'⟩ (by rw [hsha']; rfl) ?_
  exact hname

include honce hrows

/-- A shown file whose path is not UTF-8 is given by one with a longer path. -/
theorem longer_of_not_utf8 (hlines : ¬ LossyLine files) {f : LooseFile}
    (hf : f ∈ files.tree.files) (hshown : (shownText f.2).isSome = true) (hutf8 : ¬ IsUtf8 f.1) :
    ∃ g ∈ files.tree.files, (shownText g.2).isSome = true ∧ ¬ IsUtf8 g.1 ∧
      f.1.length < g.1.length := by
  obtain ⟨sha, hsha⟩ := Option.isSome_iff_exists.mp hshown
  obtain ⟨n, oid, hname, -, hloose | ⟨-, peeled, hpacked⟩⟩ := given_of_shown hrows hf hsha
  · obtain ⟨before, g, behind, hwalk, hsame, hoid, -⟩ := lastLoose_eq_some.mp hloose
    have hg : g ∈ files.tree.files := by
      rw [← files.tree.walk_perm.mem_iff, hwalk]
      simp
    have hsha' := shownText_of_looseOid hoid
    have hname' : refName g.1 = lossyName f.1 := by rw [hsame, hname]
    have hutf8' : ¬ IsUtf8 g.1 := by
      intro hgood
      have hpath := shown_inj honce hf hg hsha hsha' (by rw [lossyName_of_utf8 hgood, hname'])
      exact hutf8 (hpath ▸ hgood)
    exact ⟨g, hg, by rw [hsha']; rfl, hutf8', length_lt_of_lossyName hutf8' hname'⟩
  · refine absurd ⟨f, hf, hshown, hutf8, ?_⟩ hlines
    rw [hname]
    exact firstSha_of_packedWith hpacked

/-- So all of them are UTF-8: there is no longest path that is not. -/
theorem utf8_of_shown (hlines : ¬ LossyLine files) {f : LooseFile} (hf : f ∈ files.tree.files)
    (hshown : (shownText f.2).isSome = true) : IsUtf8 f.1 := by
  obtain ⟨bound, hbound⟩ : ∃ bound, ∀ g ∈ files.tree.files, g.1.length ≤ bound := by
    have hsome : files.tree.files.map (fun g => g.1.length) ≠ [] :=
      List.ne_nil_of_mem (List.mem_map.mpr ⟨f, hf, rfl⟩)
    exact ⟨_, fun g hg => (List.max_le_iff hsome).mp le_rfl _ (List.mem_map.mpr ⟨g, hg, rfl⟩)⟩
  by_contra hutf8
  have hnone : ∀ k, ∀ g ∈ files.tree.files, (shownText g.2).isSome = true → ¬ IsUtf8 g.1 →
      bound < g.1.length + k → False := by
    intro k
    induction k with
    | zero =>
        intro g hg _ _ hlength
        exact absurd (hbound g hg) (by omega)
    | succ k ih =>
        intro g hg hshown hutf8 hlength
        obtain ⟨g', hg', hshown', hutf8', hlonger⟩ :=
          longer_of_not_utf8 honce hrows hlines hg hshown hutf8
        exact ih g' hg' hshown' hutf8' (by omega)
  exact hnone (bound + 1) f hf hshown hutf8 (by omega)

theorem plain_of_rows (hlines : ¬ LossyLine files) : PlainRefs files where
  utf8 := fun f hf hshown => utf8_of_shown honce hrows hlines hf hshown
  loose := by
    intro f hf sha hsha
    have hutf8 := utf8_of_shown honce hrows hlines hf (by rw [hsha]; rfl)
    obtain ⟨n, oid, hname, rfl, -⟩ := given_of_shown hrows hf hsha
    rw [← lossyName_of_utf8 hutf8, hname]
    exact ⟨n.valid, oid.valid⟩
  packed := by
    intro name sha hline hno
    have hnew : ¬ Named (walkRefs "refs" files.tree) name := by
      intro hnamed
      obtain ⟨f, hf, hname, hshown⟩ := named_walkRefs.mp hnamed
      rw [lossyName_of_utf8 (utf8_of_shown honce hrows hlines hf hshown)] at hname
      rw [hno f hf hname] at hshown
      cases hshown
    obtain ⟨n, oid, rfl, rfl, hloose | ⟨-, peeled, hpacked⟩⟩ :=
      (hrows ⟨name, sha⟩).mp (mem_rowsOf.mpr (Or.inr ⟨hnew, hline⟩))
    · obtain ⟨before, f, behind, hwalk, hname, hoid, -⟩ := lastLoose_eq_some.mp hloose
      have hf : f ∈ files.tree.files := by
        rw [← files.tree.walk_perm.mem_iff, hwalk]
        simp
      have hnone := hno f hf hname
      rw [shownText_of_looseOid hoid] at hnone
      cases hnone
    · obtain ⟨before, line, behind, n', hlines, hrefLine, hname, hlast, -⟩ :=
        packedWith_eq_some hpacked
      refine ⟨n.valid, oid.valid, before, behind, ?_, ?_⟩
      · rw [hlines, refLine_eq_some.mp hrefLine, hname]
      · rintro other hmem sha hvalid rfl
        exact packedWith_eq_none.mp hlast _ hmem n ⟨sha, hvalid⟩ (refLine_eq_some.mpr rfl) rfl

end Same

/-- **One list of refs.** `list_refs` and `enumerate_refs` return the same names and objects
for every state in which files and lines say nothing but refs.  Conversely, for every state
in which `packed-refs` has no line for the lossy text of a path that is not UTF-8, they
return the same list only if files and lines say nothing but refs. -/
theorem listsSame_plain (printable : Char → Bool) (files : RefFiles) :
    (PlainRefs files → ListsSame printable files) ∧
      (ListsSame printable files → PlainRefs files ∨ LossyLine files) := by
  refine ⟨fun h => h.listsSame printable, fun hsame => ?_⟩
  obtain ⟨honce, hrows⟩ := (listsSame_iff_rows printable files).mp hsame
  by_cases hlines : LossyLine files
  · exact Or.inr hlines
  · exact Or.inl (plain_of_rows honce hrows hlines)

/-- A branch in a loose file, and a tag in `packed-refs` under its header. -/
def branchAndTag : RefFiles where
  head := none
  packed := some
    "# pack-refs with: peeled\n00112233445566778899aabbccddeeff00112233 refs/tags/v1\n"
  tree := .dir ⟨asBytes "heads", by decide +kernel⟩
    (.file ⟨asBytes "main", by decide +kernel⟩
      (some (asBytes "ffeeddccbbaa99887766554433221100ffeeddcc\n")) .empty) .empty
  distinct := by decide +kernel

theorem branchAndTag_plain : PlainRefs branchAndTag := by
  have hfiles : ∀ f ∈ branchAndTag.tree.files, IsUtf8 f.1 ∧ refName f.1 = "refs/heads/main" ∧
      shownText f.2 = some "ffeeddccbbaa99887766554433221100ffeeddcc" := by
    intro f hf
    obtain rfl := List.mem_singleton.mp hf
    refine ⟨?_, by decide +kernel, by decide +kernel⟩
    intro name hname
    simp only [List.mem_cons, List.not_mem_nil, or_false] at hname
    rcases hname with rfl | rfl
    · exact ⟨_, fromUtf8_asBytes "heads"⟩
    · exact ⟨_, fromUtf8_asBytes "main"⟩
  have hlines : branchAndTag.packedLines = ["# pack-refs with: peeled",
      "00112233445566778899aabbccddeeff00112233 refs/tags/v1"] := by
    decide +kernel
  refine ⟨fun f hf _ => (hfiles f hf).1, ?_, ?_⟩
  · intro f hf sha hsha
    obtain ⟨-, hname, hshown⟩ := hfiles f hf
    obtain rfl := Option.some.inj (hshown.symm.trans hsha)
    rw [hname]
    exact ⟨by decide +kernel, by decide +kernel⟩
  · intro name sha hline _
    have hcomment : packedFields "# pack-refs with: peeled" = none := by decide +kernel
    have htag : packedFields "00112233445566778899aabbccddeeff00112233 refs/tags/v1" =
        some ("00112233445566778899aabbccddeeff00112233", "refs/tags/v1") := by decide +kernel
    rw [hlines, firstSha_cons, firstSha_cons, hcomment, htag, Option.bind_none, Option.none_or,
      Option.bind_some] at hline
    split_ifs at hline with hname
    · obtain rfl : "refs/tags/v1" = name := hname
      obtain rfl : "00112233445566778899aabbccddeeff00112233" = sha := Option.some.inj hline
      rw [hlines]
      exact ⟨by decide +kernel, by decide +kernel, ["# pack-refs with: peeled"], [], rfl, nofun⟩
    · cases hline

/-- Both readers list the branch and the tag. -/
theorem listsSame_plain_branchAndTag : ListsSame (fun _ => false) branchAndTag :=
  (listsSame_plain (fun _ => false) branchAndTag).1 branchAndTag_plain

/-- A symbolic ref below `refs/`. -/
def symbolicRemote : RefFiles where
  head := none
  packed := none
  tree := .dir ⟨asBytes "remotes", by decide +kernel⟩
    (.dir ⟨asBytes "origin", by decide +kernel⟩
      (.file ⟨asBytes "HEAD", by decide +kernel⟩
        (some (asBytes "ref: refs/remotes/origin/main\n")) .empty) .empty) .empty
  distinct := by decide +kernel

/-- `list_refs` lists it, with its text for an object. -/
theorem symbolicRemote_listed : ¬ ListsSame (fun _ => false) symbolicRemote := by
  intro hsame
  unfold ListsSame at hsame
  rw [listRefs_eq] at hsame
  have hrow : (⟨"refs/remotes/origin/HEAD", "ref: refs/remotes/origin/main"⟩ : RefRow) ∈
      rowsOf symbolicRemote := by
    decide +kernel
  rw [← mem_sortRows, Except.ok.inj hsame] at hrow
  obtain ⟨e, -, he⟩ := List.mem_map.mp hrow
  have hsha : e.oid.text = "ref: refs/remotes/origin/main" := congrArg RefRow.sha he
  have hvalid := e.oid.valid
  rw [hsha] at hvalid
  revert hvalid
  decide

end Rest
end Artifacts
