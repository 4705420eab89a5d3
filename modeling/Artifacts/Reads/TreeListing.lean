import Artifacts.Foundation.Sorting
import Artifacts.Ids
import Artifacts.Rust.Lossy
import Artifacts.Rust.Numbers
import Artifacts.Rust.Words
import Mathlib.Data.Prod.Lex
import Mathlib.Data.String.Basic

/-!
# The tree of a commit

`getTree` lists the leaves that `git ls-tree -r -l -z` prints and adds the directories above
them, each once.  Paths are compared as texts, by their characters, which orders them as
their bytes do.  A path that is not UTF-8 fails the whole request.

`LeafTree` is what makes a list of leaves a tree: no path twice, and none below another.
`Lists` does not fix the order beyond what a reader of the tree needs, directories first.
-/

namespace Artifacts
namespace Reads

open Foundation Rust

inductive TreeEntryKind where
  | file
  | dir
  | submodule
  deriving DecidableEq, Repr

structure TreeEntry where
  path : String
  kind : TreeEntryKind
  size : Option Nat
  deriving DecidableEq, Repr

/-! ### Reading -/

/-- `BTreeSet::insert`, into the members in ascending order. -/
def insertDir (dirs : List String) (dir : String) : List String :=
  if dirs.contains dir then dirs else dirs.orderedInsert (· ≤ ·) dir

/-- One step down from the directory `accum`. -/
def descend (state : String × List String) (part : String) : String × List String :=
  let accum := (if state.1.isEmpty then state.1 else state.1 ++ "/") ++ part
  (accum, insertDir state.2 accum)

/-- The directories above a path. -/
def insertParents (dirs : List String) (path : String) : List String :=
  ((split path '/').dropLast.foldl descend ("", dirs)).2

/-- The kind of an entry, by the type that git prints. -/
def kindOf (ty : String) : Option TreeEntryKind :=
  if ty = "blob" then some .file
  else if ty = "tree" then some .dir
  else if ty = "commit" then some .submodule
  else none

structure TreeScan where
  entries : List TreeEntry
  dirs : List String

section Reading

-- the `Display` of a `Utf8Error`
variable (utf8Error : List UInt8 → String)

/-- One record of the listing. -/
def scanRecord (scan : TreeScan) (record : List UInt8) : Result TreeScan :=
  if record.isEmpty then .ok scan
  else
    match fromUtf8 record with
    | none => .error (.other ("ls-tree utf8: " ++ utf8Error record))
    | some line =>
        match splitOnce line '\t' with
        | none => .ok scan
        | some (fields, path) =>
            match splitWhitespace fields with
            | _ :: ty :: _ :: size :: _ =>
                let dirs := if ty = "blob" ∨ ty = "commit" then insertParents scan.dirs path
                  else scan.dirs
                match kindOf ty with
                | none => .ok { scan with dirs := dirs }
                | some kind =>
                    .ok ⟨scan.entries ++ [⟨path, kind, parseUnsigned 64 size⟩], dirs⟩
            | _ => .ok scan

/-- The loop over the records. -/
def scanRecords : List (List UInt8) → TreeScan → Result TreeScan
  | [], scan => .ok scan
  | record :: records, scan =>
      match scanRecord utf8Error scan record with
      | .error e => .error e
      | .ok scan => scanRecords records scan

/-- `entries.insert(0, ..)` of a directory that is not listed. -/
def prependDir (entries : List TreeEntry) (dir : String) : List TreeEntry :=
  if entries.any fun e => e.path == dir then entries else ⟨dir, .dir, none⟩ :: entries

/-- Directories first, then by path. -/
def TreeEntry.key (entry : TreeEntry) : Bool ×ₗ String :=
  toLex (entry.kind != .dir, entry.path)

def sortEntries (entries : List TreeEntry) : List TreeEntry :=
  entries.insertionSort fun a b => a.key ≤ b.key

/-- What `get_tree` makes of `git ls-tree`: exit code, stdout and stderr, or the error of
its spawn. -/
def getTree (start : String) :
    Result (Int × List UInt8 × List UInt8) → Result (List TreeEntry)
  | .error e => .error e
  | .ok (rc, stdout, stderr) =>
      if rc ≠ 0 then
        let err := fromUtf8Lossy stderr
        if contains err "not a valid object name" || contains err "Not a valid object name" then
          .error (.badRequest ("unknown ref: " ++ start))
        else
          .error (.other ("ls-tree failed: " ++ err))
      else
        match scanRecords utf8Error (stdout.splitOn 0) ⟨[], []⟩ with
        | .error e => .error e
        | .ok scan => .ok (sortEntries (scan.dirs.foldl prependDir scan.entries))

end Reading

/-! ### What git prints -/

inductive LeafKind where
  | blob (size : UInt64)
  | commit
  deriving DecidableEq, Repr

def LeafKind.type : LeafKind → String
  | .blob _ => "blob"
  | .commit => "commit"

/-- The column of the size. -/
def LeafKind.column : LeafKind → String
  | .blob size => toString size.toNat
  | .commit => "-"

/-- What is listed by `ls-tree -r`: its path is made of names. -/
structure Leaf where
  mode : String
  octal : mode ≠ "" ∧ ∀ c ∈ mode.toList, isAsciiDigit c = true
  kind : LeafKind
  oid : Oid
  path : List UInt8
  nulFree : (0 : UInt8) ∉ path
  names : [] ∉ path.splitOn 47

/-- The columns before the path; the size is aligned to the right. -/
def Leaf.columns (leaf : Leaf) : String :=
  leaf.mode ++ " " ++ leaf.kind.type ++ " " ++ leaf.oid.text ++ " " ++
    String.ofList (List.replicate (7 - leaf.kind.column.length) ' ') ++ leaf.kind.column

def Leaf.record (leaf : Leaf) : List UInt8 :=
  asBytes leaf.columns ++ 9 :: leaf.path

/-- The leaves of a git tree: no path twice, and none is a directory of another. -/
structure LeafTree where
  leaves : List Leaf
  distinct : (leaves.map Leaf.path).Nodup
  apart : ∀ a ∈ leaves, ∀ b ∈ leaves, ¬ a.path ++ [47] <+: b.path

/-- `ls-tree -r -l -z`. -/
def LeafTree.stdout (tree : LeafTree) : List UInt8 :=
  tree.leaves.flatMap fun leaf => leaf.record ++ [0]

/-! ### What is listed -/

/-- A path is below a directory. -/
def Below (dir path : String) : Prop := dir.toList ++ ['/'] <+: path.toList

/-- The entry of a leaf, if its path is a text. -/
def Leaf.entry (leaf : Leaf) : Option TreeEntry :=
  (fromUtf8 leaf.path).map fun path =>
    match leaf.kind with
    | .blob size => ⟨path, .file, some size.toNat⟩
    | .commit => ⟨path, .submodule, none⟩

/-- A directory above some leaf. -/
def LeafTree.HasDir (tree : LeafTree) (dir : String) : Prop :=
  ∃ leaf ∈ tree.leaves, ∃ path, fromUtf8 leaf.path = some path ∧ Below dir path

/-- Each leaf and each directory above one, once, and a directory before what is below it. -/
structure Lists (tree : LeafTree) (entries : List TreeEntry) : Prop where
  once : (entries.map TreeEntry.path).Nodup
  members : ∀ e, e ∈ entries ↔ (∃ leaf ∈ tree.leaves, leaf.entry = some e) ∨
    ∃ dir, tree.HasDir dir ∧ e = ⟨dir, .dir, none⟩
  dirsFirst : entries.Pairwise fun earlier later =>
    ¬ (later.kind = .dir ∧ Below later.path earlier.path)

/-! ### Directories above a path -/

theorem mem_insertDir {dirs : List String} {dir d : String} :
    d ∈ insertDir dirs dir ↔ d = dir ∨ d ∈ dirs := by
  unfold insertDir
  split_ifs with h
  · have hmem : dir ∈ dirs := by simpa using h
    constructor
    · exact Or.inr
    · rintro (rfl | hd)
      · exact hmem
      · exact hd
  · exact List.mem_orderedInsert _

theorem nodup_insertDir {dirs : List String} (h : dirs.Nodup) (dir : String) :
    (insertDir dirs dir).Nodup := by
  unfold insertDir
  split_ifs with hmem
  · exact h
  · rw [(List.perm_orderedInsert _ dir dirs).nodup_iff, List.nodup_cons]
    exact ⟨by simpa using hmem, h⟩

/-- Names joined by slashes are no empty path. -/
theorem intercalate_ne_nil {parts : List (List Char)} (hparts : [] ∉ parts) (hne : parts ≠ []) :
    ['/'].intercalate parts ≠ [] := by
  cases parts with
  | nil => exact absurd rfl hne
  | cons part parts =>
      simp only [List.mem_cons, not_or] at hparts
      cases parts with
      | nil => simpa using Ne.symm hparts.1
      | cons part' parts => simp [List.intercalate_cons_cons]

/-- One step down from names that were joined. -/
theorem descend_join {parts : List (List Char)} (hparts : [] ∉ parts) (part : List Char)
    (dirs : List String) :
    descend (String.ofList (['/'].intercalate parts), dirs) (String.ofList part) =
      (String.ofList (['/'].intercalate (parts ++ [part])),
        insertDir dirs (String.ofList (['/'].intercalate (parts ++ [part])))) := by
  have hjoin : (if (String.ofList (['/'].intercalate parts)).isEmpty then
        String.ofList (['/'].intercalate parts)
      else String.ofList (['/'].intercalate parts) ++ "/") ++ String.ofList part =
      String.ofList (['/'].intercalate (parts ++ [part])) := by
    rw [← String.toList_inj]
    by_cases hnil : parts = []
    · subst hnil
      simp
    · have hempty : (String.ofList (['/'].intercalate parts)).isEmpty = false := by
        rw [Bool.eq_false_iff, ne_eq, String.isEmpty_iff, ← String.toList_eq_nil_iff,
          String.toList_ofList]
        exact intercalate_ne_nil hparts hnil
      rw [hempty, if_neg Bool.false_ne_true, intercalate_append hnil (by simp)]
      simp
  rw [descend, hjoin]

/-- The walk down some names: where it ends, and the directories it came by. -/
theorem foldl_descend (dirs : List String) {parts : List (List Char)} (hparts : [] ∉ parts) :
    ∃ dirs', (parts.map String.ofList).foldl descend ("", dirs) =
        (String.ofList (['/'].intercalate parts), dirs') ∧
      (dirs.Nodup → dirs'.Nodup) ∧
      ∀ d, d ∈ dirs' ↔ d ∈ dirs ∨
        ∃ j, 0 < j ∧ j ≤ parts.length ∧ d = String.ofList (['/'].intercalate (parts.take j)) := by
  induction parts using List.reverseRecOn with
  | nil =>
      refine ⟨dirs, rfl, id, ?_⟩
      intro d
      constructor
      · exact Or.inl
      · rintro (hd | ⟨j, hpos, hle, -⟩)
        · exact hd
        · rw [List.length_nil] at hle
          omega
  | append_singleton parts part ih =>
      simp only [List.mem_append, not_or] at hparts
      obtain ⟨dirs', hfold, hnodup, hmem⟩ := ih hparts.1
      refine ⟨insertDir dirs' (String.ofList (['/'].intercalate (parts ++ [part]))), ?_, ?_, ?_⟩
      · rw [List.map_append, List.foldl_append, hfold]
        exact descend_join hparts.1 part dirs'
      · intro h
        exact nodup_insertDir (hnodup h) _
      · intro d
        rw [mem_insertDir, hmem]
        constructor
        · rintro (rfl | hd | ⟨j, hpos, hle, rfl⟩)
          · refine Or.inr ⟨parts.length + 1, by omega, by simp, ?_⟩
            rw [List.take_of_length_le (by simp)]
          · exact Or.inl hd
          · refine Or.inr ⟨j, hpos, ?_, ?_⟩
            · rw [List.length_append]
              omega
            · rw [List.take_append_of_le_length hle]
        · rintro (hd | ⟨j, hpos, hle, rfl⟩)
          · exact Or.inr (Or.inl hd)
          · rw [List.length_append, List.length_singleton] at hle
            by_cases hlast : j ≤ parts.length
            · rw [List.take_append_of_le_length hlast]
              exact Or.inr (Or.inr ⟨j, hpos, hlast, rfl⟩)
            · rw [List.take_of_length_le (by simp; omega)]
              exact Or.inl rfl

/-- The directories above a path are its beginnings before a slash. -/
theorem below_iff (dir path : String) :
    Below dir path ↔ ∃ j, 0 < j ∧ j ≤ (path.toList.splitOn '/').dropLast.length ∧
      dir = String.ofList (['/'].intercalate ((path.toList.splitOn '/').dropLast.take j)) := by
  constructor
  · rintro ⟨rest, hrest⟩
    have hcut : path.toList.splitOn '/' = dir.toList.splitOn '/' ++ rest.splitOn '/' := by
      rw [← hrest, List.append_assoc, List.singleton_append, List.splitOn_append_cons_self]
    have hrestNe := List.splitOn_ne_nil '/' rest
    have hpos : 0 < (dir.toList.splitOn '/').length :=
      List.length_pos_iff.mpr (List.splitOn_ne_nil '/' _)
    refine ⟨(dir.toList.splitOn '/').length, hpos, ?_, ?_⟩
    · rw [hcut, List.dropLast_append_of_ne_nil hrestNe, List.length_append]
      omega
    · rw [hcut, List.dropLast_append_of_ne_nil hrestNe, List.take_left, List.intercalate_splitOn,
        String.ofList_toList]
  · rintro ⟨j, hpos, hle, rfl⟩
    have hlength : j < (path.toList.splitOn '/').length := by
      rw [List.length_dropLast] at hle
      omega
    have htake : (path.toList.splitOn '/').dropLast.take j = (path.toList.splitOn '/').take j := by
      rw [List.dropLast_eq_take, List.take_take, Nat.min_eq_left (by omega)]
    have hpath : ['/'].intercalate (path.toList.splitOn '/') = path.toList :=
      List.intercalate_splitOn '/'
    rw [← List.take_append_drop j (path.toList.splitOn '/'),
      intercalate_append (by simp; omega) (by simp; omega)] at hpath
    rw [Below, String.toList_ofList, htake]
    refine ⟨['/'].intercalate ((path.toList.splitOn '/').drop j), ?_⟩
    rw [List.append_assoc, List.singleton_append]
    exact hpath

/-- **What the walk above a leaf adds**: the directories the path is below. -/
theorem insertParents_spec (dirs : List String) {path : String}
    (hnames : [] ∉ path.toList.splitOn '/') :
    (dirs.Nodup → (insertParents dirs path).Nodup) ∧
      ∀ d, d ∈ insertParents dirs path ↔ d ∈ dirs ∨ Below d path := by
  have hdrop : [] ∉ (path.toList.splitOn '/').dropLast := by
    intro hmem
    exact hnames (List.mem_of_mem_dropLast hmem)
  obtain ⟨dirs', hfold, hnodup, hmem⟩ := foldl_descend dirs hdrop
  have hparents : insertParents dirs path = dirs' := by
    rw [insertParents, split, ← List.map_dropLast, hfold]
  rw [hparents]
  refine ⟨hnodup, ?_⟩
  intro d
  rw [hmem, below_iff]

/-! ### One record -/

theorem wordsOf_column {column : List Char} (n : Nat) (hne : column ≠ [])
    (hcolumn : ∀ c ∈ column, isWhitespace c = false) :
    wordsOf (List.replicate n ' ' ++ column) = [column] := by
  induction n with
  | zero => exact wordsOf_word hne hcolumn
  | succ n ih =>
      rw [List.replicate_succ, List.cons_append, wordsOf_cons (by decide), ih]

/-- A column that is printed for a leaf is one word. -/
theorem LeafKind.column_word (kind : LeafKind) :
    kind.column.toList ≠ [] ∧ ∀ c ∈ kind.column.toList, isWhitespace c = false ∧ c ≠ '\x00' := by
  cases kind with
  | blob size =>
      refine ⟨digits_ne_nil _, ?_⟩
      intro c hc
      refine ⟨isWhitespace_of_isAsciiDigit (isAsciiDigit_of_mem hc), ?_⟩
      rintro rfl
      exact not_mem_digits (by decide) _ hc
  | commit => exact ⟨by decide, by decide⟩

theorem LeafKind.type_word (kind : LeafKind) :
    kind.type.toList ≠ [] ∧ ∀ c ∈ kind.type.toList, isWhitespace c = false ∧ c ≠ '\x00' := by
  cases kind with
  | blob size =>
      change "blob".toList ≠ [] ∧ ∀ c ∈ "blob".toList, isWhitespace c = false ∧ c ≠ '\x00'
      decide
  | commit => exact ⟨by decide, by decide⟩

theorem oid_word (oid : Oid) :
    oid.text.toList ≠ [] ∧ ∀ c ∈ oid.text.toList, isWhitespace c = false ∧ c ≠ '\x00' := by
  refine ⟨oid.toList_ne_nil, fun c hc => ⟨oid.isWhitespace_of_mem hc, ?_⟩⟩
  rintro rfl
  exact oid.not_mem_text (by decide) hc

theorem Leaf.mode_word (leaf : Leaf) :
    leaf.mode.toList ≠ [] ∧ ∀ c ∈ leaf.mode.toList, isWhitespace c = false ∧ c ≠ '\x00' := by
  constructor
  · intro hnil
    exact leaf.octal.1 (String.toList_eq_nil_iff.mp hnil)
  · intro c hc
    have hdigit := leaf.octal.2 c hc
    refine ⟨isWhitespace_of_isAsciiDigit hdigit, ?_⟩
    rintro rfl
    exact absurd hdigit (by decide)

theorem Leaf.columns_toList (leaf : Leaf) :
    leaf.columns.toList = leaf.mode.toList ++ ' ' :: (leaf.kind.type.toList ++ ' ' ::
      (leaf.oid.text.toList ++ ' ' ::
        (List.replicate (7 - leaf.kind.column.length) ' ' ++ leaf.kind.column.toList))) := by
  simp [Leaf.columns]

/-- The four columns are read back. -/
theorem Leaf.splitWhitespace_columns (leaf : Leaf) :
    splitWhitespace leaf.columns =
      [leaf.mode, leaf.kind.type, leaf.oid.text, leaf.kind.column] := by
  have hmode := leaf.mode_word
  have htype := leaf.kind.type_word
  have hoid := oid_word leaf.oid
  have hcolumn := leaf.kind.column_word
  rw [splitWhitespace, leaf.columns_toList,
    wordsOf_append hmode.1 (fun c hc => (hmode.2 c hc).1) (by decide),
    wordsOf_append htype.1 (fun c hc => (htype.2 c hc).1) (by decide),
    wordsOf_append hoid.1 (fun c hc => (hoid.2 c hc).1) (by decide),
    wordsOf_column _ hcolumn.1 (fun c hc => (hcolumn.2 c hc).1)]
  simp

/-- The columns have blanks, and no other white space. -/
theorem Leaf.mem_columns (leaf : Leaf) {c : Char} (h : c ∈ leaf.columns.toList) :
    c = ' ' ∨ (isWhitespace c = false ∧ c ≠ '\x00') := by
  rw [leaf.columns_toList] at h
  simp only [List.mem_append, List.mem_cons, List.mem_replicate] at h
  rcases h with h | rfl | h | rfl | h | rfl | h | h
  · exact Or.inr (leaf.mode_word.2 c h)
  · exact Or.inl rfl
  · exact Or.inr (leaf.kind.type_word.2 c h)
  · exact Or.inl rfl
  · exact Or.inr ((oid_word leaf.oid).2 c h)
  · exact Or.inl rfl
  · exact Or.inl h.2
  · exact Or.inr (leaf.kind.column_word.2 c h)

theorem Leaf.zero_not_mem_record (leaf : Leaf) : (0 : UInt8) ∉ leaf.record := by
  intro hzero
  rcases List.mem_append.mp hzero with hcolumns | hrest
  · have hchar : '\x00' ∈ leaf.columns.toList :=
      (mem_asBytes_ascii (a := '\x00') (by decide)).mp hcolumns
    rcases leaf.mem_columns hchar with hblank | ⟨-, hne⟩
    · exact absurd hblank (by decide)
    · exact hne rfl
  · rcases List.mem_cons.mp hrest with htab | hpath
    · cases htab
    · exact leaf.nulFree hpath

/-- The kind that is read for a leaf. -/
def LeafKind.entryKind : LeafKind → TreeEntryKind
  | .blob _ => .file
  | .commit => .submodule

theorem LeafKind.kindOf_type (kind : LeafKind) :
    kindOf kind.type = some kind.entryKind ∧ (kind.type = "blob" ∨ kind.type = "commit") := by
  cases kind with
  | blob size => exact ⟨rfl, Or.inl rfl⟩
  | commit => exact ⟨by decide, Or.inr rfl⟩

/-- **One leaf**: its entry, and the directories above it. -/
theorem scanRecord_leaf (utf8Error : List UInt8 → String) (leaf : Leaf) (scan : TreeScan) {path : String}
    (hpath : fromUtf8 leaf.path = some path) :
    scanRecord utf8Error scan leaf.record =
      .ok ⟨scan.entries ++ leaf.entry.toList, insertParents scan.dirs path⟩ := by
  have hrecord : leaf.record = asBytes (leaf.columns ++ "\t" ++ path) := by
    rw [Leaf.record, asBytes_append, asBytes_append, asBytes_of_fromUtf8 hpath, List.append_assoc]
    rfl
  have hne : leaf.record.isEmpty = false := by
    simp [Leaf.record]
  have htab : '\t' ∉ leaf.columns.toList := by
    intro hmem
    rcases leaf.mem_columns hmem with hblank | ⟨hspace, -⟩
    · exact absurd hblank (by decide)
    · exact absurd hspace (by decide)
  obtain ⟨hkind, htype⟩ := leaf.kind.kindOf_type
  have hentry : leaf.entry =
      some ⟨path, leaf.kind.entryKind, parseUnsigned 64 leaf.kind.column⟩ := by
    rw [Leaf.entry, hpath, Option.map_some]
    cases leaf.kind with
    | blob size =>
        have hsize : parseUnsigned 64 (LeafKind.blob size).column = some size.toNat := by
          change parseUnsigned 64 (toString size.toNat) = _
          rw [parseUnsigned_toString, if_pos size.toNat_lt]
        rw [hsize]
        rfl
    | commit => rfl
  rw [scanRecord, hne, if_neg Bool.false_ne_true, hrecord, fromUtf8_asBytes]
  dsimp only
  rw [splitOnce_append path rfl htab]
  dsimp only
  rw [leaf.splitWhitespace_columns]
  dsimp only
  rw [if_pos htype, hkind, hentry]
  rfl

/-- A path that is not UTF-8 fails. -/
theorem scanRecord_bad (utf8Error : List UInt8 → String) (leaf : Leaf) (scan : TreeScan)
    (hpath : fromUtf8 leaf.path = none) :
    scanRecord utf8Error scan leaf.record =
      .error (.other ("ls-tree utf8: " ++ utf8Error leaf.record)) := by
  have hne : leaf.record.isEmpty = false := by
    simp [Leaf.record]
  have hnone : fromUtf8 leaf.record = none := by
    cases hrecord : fromUtf8 leaf.record with
    | none => rfl
    | some text =>
        obtain ⟨_, u, -, hu, -⟩ := (fromUtf8_cut (a := '\t') (by decide)).mp hrecord
        rw [hpath] at hu
        cases hu
  rw [scanRecord, hne, if_neg Bool.false_ne_true, hnone]

/-! ### All records -/

/-- The records are the leaves', and an empty one. -/
theorem LeafTree.cut (tree : LeafTree) :
    tree.stdout.splitOn 0 = tree.leaves.map Leaf.record ++ [[]] := by
  have hwords : tree.stdout = (tree.leaves.map Leaf.record).flatMap fun word => word ++ [0] := by
    rw [LeafTree.stdout, List.flatMap_map]
  rw [hwords, splitOn_terminated]
  intro word hword
  obtain ⟨leaf, -, rfl⟩ := List.mem_map.mp hword
  exact leaf.zero_not_mem_record

/-- The name of every directory and leaf is a text. Git takes any bytes but NUL and the slash. -/
def Utf8Leaves (leaves : List Leaf) : Prop :=
  ∀ leaf ∈ leaves, (fromUtf8 leaf.path).isSome = true

/-- **The scan of the leaves.** -/
theorem scanRecords_leaves (utf8Error : List UInt8 → String) {leaves : List Leaf}
    (hutf8 : Utf8Leaves leaves) (scan : TreeScan) :
    ∃ dirs, scanRecords utf8Error (leaves.map Leaf.record ++ [[]]) scan =
        .ok ⟨scan.entries ++ leaves.filterMap Leaf.entry, dirs⟩ ∧
      (scan.dirs.Nodup → dirs.Nodup) ∧
      ∀ d, d ∈ dirs ↔ d ∈ scan.dirs ∨
        ∃ leaf ∈ leaves, ∃ path, fromUtf8 leaf.path = some path ∧ Below d path := by
  induction leaves generalizing scan with
  | nil =>
      refine ⟨scan.dirs, ?_, id, by simp⟩
      simp [scanRecords, scanRecord]
  | cons leaf leaves ih =>
      obtain ⟨path, hpath⟩ := Option.isSome_iff_exists.mp (hutf8 leaf List.mem_cons_self)
      have hnames : [] ∉ path.toList.splitOn '/' := by
        intro hmem
        apply leaf.names
        rw [← asBytes_of_fromUtf8 hpath]
        change [] ∈ (asBytes path).splitOn (UInt8.ofNat '/'.toNat)
        rw [splitOn_asBytes (by decide)]
        exact List.mem_map.mpr ⟨[], hmem, rfl⟩
      obtain ⟨hnodup, hmem⟩ := insertParents_spec scan.dirs hnames
      obtain ⟨dirs, hscan, hnodup', hmem'⟩ :=
        ih (fun l hl => hutf8 l (List.mem_cons_of_mem leaf hl))
          ⟨scan.entries ++ leaf.entry.toList, insertParents scan.dirs path⟩
      refine ⟨dirs, ?_, fun h => hnodup' (hnodup h), ?_⟩
      · rw [List.map_cons, List.cons_append, scanRecords, scanRecord_leaf utf8Error leaf scan hpath]
        dsimp only
        rw [hscan, List.append_assoc, List.filterMap_cons]
        cases leaf.entry <;> rfl
      · intro d
        rw [hmem', hmem, List.exists_mem_cons_iff, or_assoc]
        simp only [hpath, Option.some.injEq, exists_eq_left']

theorem scanRecords_bad (utf8Error : List UInt8 → String) {leaves : List Leaf}
    (hutf8 : ¬ Utf8Leaves leaves) (scan : TreeScan) :
    ∃ record, scanRecords utf8Error (leaves.map Leaf.record ++ [[]]) scan =
      .error (.other ("ls-tree utf8: " ++ utf8Error record)) := by
  induction leaves generalizing scan with
  | nil => exact absurd nofun hutf8
  | cons leaf leaves ih =>
      rw [List.map_cons, List.cons_append, scanRecords]
      cases hpath : fromUtf8 leaf.path with
      | none =>
          rw [scanRecord_bad utf8Error leaf scan hpath]
          exact ⟨leaf.record, rfl⟩
      | some path =>
          rw [scanRecord_leaf utf8Error leaf scan hpath]
          apply ih
          intro hall
          apply hutf8
          intro l hl
          rcases List.mem_cons.mp hl with rfl | hl
          · simp [hpath]
          · exact hall l hl

/-! ### The listing -/

/-- Directories of which none is listed are all put in front. -/
theorem foldl_prependDir {dirs : List String} {entries : List TreeEntry} (hdirs : dirs.Nodup)
    (hnew : ∀ d ∈ dirs, ∀ e ∈ entries, e.path ≠ d) :
    dirs.foldl prependDir entries =
      (dirs.map fun d => (⟨d, .dir, none⟩ : TreeEntry)).reverse ++ entries := by
  induction dirs generalizing entries with
  | nil => rfl
  | cons dir dirs ih =>
      obtain ⟨hdir, hrest⟩ := List.nodup_cons.mp hdirs
      have hstep : prependDir entries dir = ⟨dir, .dir, none⟩ :: entries := by
        have hnone : (entries.any fun e => e.path == dir) = false := by
          rw [List.any_eq_false]
          intro e he
          simpa using hnew dir List.mem_cons_self e he
        rw [prependDir, hnone, if_neg Bool.false_ne_true]
      rw [List.foldl_cons, hstep, ih hrest]
      · simp
      · intro d hd e he
        rcases List.mem_cons.mp he with rfl | he
        · rintro rfl
          exact hdir hd
        · exact hnew d (List.mem_cons_of_mem dir hd) e he

/-- The path of an entry is the leaf's. -/
theorem Leaf.entry_path (leaf : Leaf) : leaf.entry.map TreeEntry.path = fromUtf8 leaf.path := by
  unfold Leaf.entry
  cases fromUtf8 leaf.path with
  | none => rfl
  | some path => cases leaf.kind <;> rfl

/-- No leaf has the path of a directory. -/
theorem LeafTree.path_ne_dir (tree : LeafTree) {leaf : Leaf} (hleaf : leaf ∈ tree.leaves)
    {path dir : String} (hpath : fromUtf8 leaf.path = some path) (hdir : tree.HasDir dir) :
    path ≠ dir := by
  rintro rfl
  obtain ⟨other, hother, otherPath, hotherPath, rest, hrest⟩ := hdir
  apply tree.apart leaf hleaf other hother
  refine ⟨asBytes (String.ofList rest), ?_⟩
  have hbytes : asBytes (path ++ "/" ++ String.ofList rest) = asBytes otherPath := by
    rw [asBytes_inj, ← String.toList_inj, ← hrest]
    simp
  rw [← asBytes_of_fromUtf8 hpath, ← asBytes_of_fromUtf8 hotherPath, ← hbytes, asBytes_append,
    asBytes_append]
  rfl

/-- Entries with distinct paths have distinct keys. -/
theorem nodup_keys {entries : List TreeEntry} (h : (entries.map TreeEntry.path).Nodup) :
    (entries.map TreeEntry.key).Nodup := by
  have hpaths : (entries.map TreeEntry.key).map (fun key => (ofLex key).2) =
      entries.map TreeEntry.path := by
    rw [List.map_map]
    rfl
  rw [← hpaths] at h
  exact h.of_map _

/-- In the order of the keys a directory is before what is below it. -/
theorem not_below_of_key_lt {a b : TreeEntry} (h : a.key < b.key) :
    ¬ (b.kind = .dir ∧ Below b.path a.path) := by
  rintro ⟨hdir, hbelow⟩
  have hle : b.path ≤ a.path := by
    rw [← String.not_lt, String.lt_iff_toList_lt]
    exact ((List.prefix_append b.path.toList ['/']).trans hbelow).le
  rcases Prod.Lex.toLex_lt_toLex.mp h with hkind | ⟨-, hpath⟩
  · rw [hdir] at hkind
    exact absurd hkind (by simp)
  · exact absurd hpath (not_lt.mpr hle)

/-- **A listing of entries with distinct paths.** -/
theorem lists_sortEntries {tree : LeafTree} {entries : List TreeEntry}
    (honce : (entries.map TreeEntry.path).Nodup)
    (hmembers : ∀ e, e ∈ entries ↔ (∃ leaf ∈ tree.leaves, leaf.entry = some e) ∨
      ∃ dir, tree.HasDir dir ∧ e = ⟨dir, .dir, none⟩) :
    Lists tree (sortEntries entries) := by
  have hperm : (sortEntries entries).Perm entries := List.perm_insertionSort _ entries
  constructor
  · exact (hperm.map TreeEntry.path).nodup_iff.mpr honce
  · intro e
    rw [hperm.mem_iff, hmembers]
  · exact (insertionSort_pairwise_lt (nodup_keys honce)).imp
      not_below_of_key_lt

/-- The paths of the leaves are apart. -/
theorem LeafTree.nodup_paths (tree : LeafTree) :
    ((tree.leaves.filterMap Leaf.entry).map TreeEntry.path).Nodup := by
  have hpaths : (tree.leaves.filterMap Leaf.entry).map TreeEntry.path =
      (tree.leaves.map Leaf.path).filterMap fromUtf8 := by
    rw [List.map_filterMap, List.filterMap_map]
    congr 1
    funext leaf
    exact leaf.entry_path
  rw [hpaths]
  apply tree.distinct.filterMap
  intro a b path ha hb
  rw [← asBytes_of_fromUtf8 ha, ← asBytes_of_fromUtf8 hb]

/-- `get_tree` scans the leaves. -/
theorem getTree_stdout (utf8Error : List UInt8 → String) (start : String) (tree : LeafTree)
    (stderr : List UInt8) :
    getTree utf8Error start (.ok (0, tree.stdout, stderr)) =
      match scanRecords utf8Error (tree.leaves.map Leaf.record ++ [[]]) ⟨[], []⟩ with
      | .error e => .error e
      | .ok scan => .ok (sortEntries (scan.dirs.foldl prependDir scan.entries)) := by
  rw [← tree.cut]
  rfl

/-- **`get_tree` on the leaves of a git tree**: where all paths are UTF-8 it lists each leaf and
each directory above one, once, directories first; otherwise it fails. The leaves are any that a
tree can have, at any depth, and so is the path that the listing starts from. -/
theorem get_tree_lists (utf8Error : List UInt8 → String) (start : String) (tree : LeafTree)
    (stderr : List UInt8) :
    (Utf8Leaves tree.leaves → ∃ entries,
      getTree utf8Error start (.ok (0, tree.stdout, stderr)) = .ok entries ∧ Lists tree entries) ∧
    (¬ Utf8Leaves tree.leaves → ∃ record,
      getTree utf8Error start (.ok (0, tree.stdout, stderr)) =
        .error (.other ("ls-tree utf8: " ++ utf8Error record))) := by
  rw [getTree_stdout]
  constructor
  · intro hutf8
    obtain ⟨dirs, heq, hnodup, hmem⟩ := scanRecords_leaves utf8Error hutf8 ⟨[], []⟩
    have hdirs : ∀ d, d ∈ dirs ↔ tree.HasDir d := by
      intro d
      rw [hmem]
      simp [LeafTree.HasDir]
    have hapart : ∀ d ∈ dirs, ∀ e ∈ tree.leaves.filterMap Leaf.entry, e.path ≠ d := by
      intro d hd e he
      obtain ⟨leaf, hleaf, hentry⟩ := List.mem_filterMap.mp he
      have hpath : fromUtf8 leaf.path = some e.path := by
        rw [← leaf.entry_path, hentry]
        rfl
      exact tree.path_ne_dir hleaf hpath ((hdirs d).mp hd)
    have hfold := foldl_prependDir (hnodup List.nodup_nil) hapart
    rw [heq]
    refine ⟨_, rfl, ?_⟩
    dsimp only
    rw [List.nil_append, hfold]
    apply lists_sortEntries
    · rw [List.map_append, List.map_reverse, List.map_map, List.nodup_append, List.nodup_reverse]
      have hsame : dirs.map (TreeEntry.path ∘ fun d => (⟨d, .dir, none⟩ : TreeEntry)) = dirs := by
        simp [Function.comp_def]
      rw [hsame]
      refine ⟨hnodup List.nodup_nil, tree.nodup_paths, ?_⟩
      intro d hd path hpath heq
      obtain ⟨e, he, rfl⟩ := List.mem_map.mp hpath
      exact hapart d (List.mem_reverse.mp hd) e he heq.symm
    · intro e
      simp only [List.mem_append, List.mem_reverse, List.mem_map, List.mem_filterMap, hdirs]
      rw [or_comm]
      simp only [eq_comm (b := e)]
  · intro hutf8
    obtain ⟨record, heq⟩ := scanRecords_bad utf8Error hutf8 ⟨[], []⟩
    rw [heq]
    exact ⟨record, rfl⟩

/-- A leaf whose path is a text. -/
def leafAt (kind : LeafKind) (path : String) (h : (0 : UInt8) ∉ asBytes path)
    (hnames : [] ∉ (asBytes path).splitOn 47) : Leaf where
  mode := "100644"
  octal := by decide
  kind := kind
  oid := ⟨"e69de29bb2d1d6434b8b29ae775ad8c2e48c5391", by decide⟩
  path := asBytes path
  nulFree := h
  names := hnames

/-- Three files in two directories, and a submodule in a third. -/
def nestedTree : LeafTree where
  leaves :=
    [leafAt (.blob 5) "src/lib/a.rs" (by decide +kernel) (by decide +kernel),
      leafAt (.blob 7) "src/lib/b.rs" (by decide +kernel) (by decide +kernel),
      leafAt (.blob 9) "src/main.rs" (by decide +kernel) (by decide +kernel),
      leafAt .commit "vendor/dep" (by decide +kernel) (by decide +kernel)]
  distinct := by decide +kernel
  apart := by decide +kernel

/-- They are listed with their three directories. -/
theorem get_tree_lists_nested : ∃ entries,
    getTree (fun _ => "invalid utf-8 sequence") "HEAD" (.ok (0, nestedTree.stdout, [])) =
      .ok entries ∧ Lists nestedTree entries := by
  refine (get_tree_lists (fun _ => "invalid utf-8 sequence") "HEAD" nestedTree []).1 ?_
  simp [Utf8Leaves, nestedTree, leafAt]

/-- A tree with one leaf, whose name is the byte 255. -/
def byteTree : LeafTree where
  leaves :=
    [{ mode := "100644"
       octal := by decide
       kind := .blob 5
       oid := ⟨"e69de29bb2d1d6434b8b29ae775ad8c2e48c5391", by decide⟩
       path := [255]
       nulFree := by decide
       names := by decide }]
  distinct := by decide
  apart := by decide

/-- Git takes the name; `get_tree` fails. -/
theorem get_tree_fails_on_bytes :
    ¬ ∃ entries, getTree (fun _ => "invalid utf-8 sequence") "HEAD" (.ok (0, byteTree.stdout, [])) =
      .ok entries ∧ Lists byteTree entries := by
  rintro ⟨entries, hentries, -⟩
  have hutf8 : ¬ Utf8Leaves byteTree.leaves := by
    intro hall
    exact absurd (hall _ List.mem_cons_self) (by decide)
  obtain ⟨record, hrecord⟩ :=
    scanRecords_bad (fun _ => "invalid utf-8 sequence") hutf8 ⟨[], []⟩
  rw [getTree_stdout, hrecord] at hentries
  cases hentries

end Reads
end Artifacts
