import Artifacts.Ids
import Artifacts.Reads.Diff

/-!
# What git prints of a diff

The numstat and the unified patch of a list of changes, as `git show -M` prints them: paths
are quoted where they hold a byte that is not printable ASCII, a quote or a backslash, and a
rename is folded around the directories that both names share.  A file that becomes another
type of file (a link, say) has one line in the numstat and two sections in the patch, a
deletion and an addition.

`FilePair` is one line of the numstat, with one section or two.  Colours, word diffs, submodules
and combined diffs do not occur in what the server asks for.  The similarity of a rename is any
number, and a file name is any bytes but NUL.
-/

namespace Artifacts
namespace Reads

open Rust

/-! ### Changes -/

/-- The path of a file: bytes without NUL. -/
structure FilePath where
  bytes : List UInt8
  valid : bytes ≠ [] ∧ 0 ∉ bytes
  deriving DecidableEq

inductive FileMode where
  | regular
  | executable
  | symlink
  | gitlink
  deriving DecidableEq, Repr

def FileMode.text : FileMode → String
  | regular => "100644"
  | executable => "100755"
  | symlink => "120000"
  | gitlink => "160000"

/-- What stands in a tree: a permission makes no other type. -/
inductive FileType where
  | file
  | symlink
  | gitlink
  deriving DecidableEq, Repr

def FileMode.fileType : FileMode → FileType
  | regular => .file
  | executable => .file
  | symlink => .symlink
  | gitlink => .gitlink

/-- A line of a hunk; the last line of a file may lack its newline. -/
structure HunkLine where
  kind : DiffLineKind
  text : String
  noNewline : Bool
  oneLine : '\n' ∉ text.toList
  deriving DecidableEq

structure GitHunk where
  oldStart : Nat
  newStart : Nat
  /-- The text behind the ranges: the function that the hunk lies in. -/
  heading : String
  oneLine : '\n' ∉ heading.toList
  lines : List HunkLine
  deriving DecidableEq

/-- A hunk outside of any function. -/
theorem noHeading : '\n' ∉ "".toList := by decide

/-- Context and deleted lines. -/
def GitHunk.oldLines (h : GitHunk) : Nat := h.lines.countP fun l => l.kind != .add

/-- Context and added lines. -/
def GitHunk.newLines (h : GitHunk) : Nat := h.lines.countP fun l => l.kind != .del

/-- What a section is about; only files of one type have a common section. -/
inductive Change where
  | modified (oldMode newMode : FileMode) (same : oldMode.fileType = newMode.fileType)
  | added (mode : FileMode)
  | deleted (mode : FileMode)
  | renamed (source : FilePath) (similarity : Nat) (oldMode newMode : FileMode)
      (same : oldMode.fileType = newMode.fileType)
  | copied (source : FilePath) (similarity : Nat) (oldMode newMode : FileMode)
      (same : oldMode.fileType = newMode.fileType)
  deriving DecidableEq

inductive Body where
  | text (hunks : List GitHunk)
  | binary
  deriving DecidableEq

def Body.lineCount (b : Body) (kind : DiffLineKind) : Nat :=
  match b with
  | .text hunks => (hunks.map fun h => h.lines.countP fun l => l.kind == kind).sum
  | .binary => 0

/-- A section of the patch: the path, the one before a deletion, what happened to the file,
the objects if they differ, and the change of the contents. -/
structure FileChange where
  path : FilePath
  change : Change
  objects : Option (Oid × Oid)
  body : Body
  deriving DecidableEq

namespace FileChange

def hunks (f : FileChange) : List GitHunk :=
  match f.body with
  | .text hunks => hunks
  | .binary => []

/-- The path before a rename or a copy. -/
def source (f : FileChange) : FilePath :=
  match f.change with
  | .renamed source .. => source
  | .copied source .. => source
  | _ => f.path

end FileChange

/-- A path at which a file of one type makes room for one of another.  The figures are those
of git's diff of the two contents, in which lines of both do not count. -/
structure TypeChange where
  path : FilePath
  oldMode : FileMode
  newMode : FileMode
  differ : oldMode.fileType ≠ newMode.fileType
  old : Oid
  new : Oid
  oldBody : Body
  newBody : Body
  additions : Nat
  deletions : Nat
  fewer : additions ≤ newBody.lineCount .add ∧ deletions ≤ oldBody.lineCount .del
  deriving DecidableEq

/-- A changed file: one with a section of its own in the patch, or one that changes its type, for
which git prints a deletion and a new file. -/
inductive FilePair where
  | single (f : FileChange)
  | retyped (t : TypeChange)
  deriving DecidableEq

/-- No object. -/
def nullOid : Oid := ⟨String.ofList (List.replicate 40 '0'), by decide⟩

namespace FilePair

/-- The sections of a file: `run_diff` splits a change of the type into two. -/
def sections : FilePair → List FileChange
  | single f => [f]
  | retyped t => [⟨t.path, .deleted t.oldMode, some (t.old, nullOid), t.oldBody⟩,
      ⟨t.path, .added t.newMode, some (nullOid, t.new), t.newBody⟩]

def hunks (p : FilePair) : List GitHunk := p.sections.flatMap FileChange.hunks

def path : FilePair → FilePath
  | single f => f.path
  | retyped t => t.path

def lineCount (p : FilePair) (kind : DiffLineKind) : Nat :=
  (p.hunks.map fun h => h.lines.countP fun l => l.kind == kind).sum

/-- The lines added and deleted, unless a side is binary. -/
def stat : FilePair → Option (Nat × Nat)
  | single f =>
      match f.body with
      | .text _ => some (f.body.lineCount .add, f.body.lineCount .del)
      | .binary => none
  | retyped t =>
      if t.oldBody = .binary ∨ t.newBody = .binary then none else some (t.additions, t.deletions)

/-- The figure for the lines added; a binary file has none. -/
def additions (p : FilePair) : Nat := (p.stat.getD (0, 0)).1

def deletions (p : FilePair) : Nat := (p.stat.getD (0, 0)).2

end FilePair

/-! ### Paths -/

/-- The bytes that make git quote a path. -/
def mustQuote (b : UInt8) : Bool := b < 32 || b == 34 || b == 92 || 127 ≤ b

/-- A byte of a path, escaped if it must be. -/
def quoteByte (b : UInt8) : List Char :=
  if mustQuote b then
    '\\' ::
      match b.toNat with
      | 7 => ['a']
      | 8 => ['b']
      | 9 => ['t']
      | 10 => ['n']
      | 11 => ['v']
      | 12 => ['f']
      | 13 => ['r']
      | 34 => ['"']
      | 92 => ['\\']
      | n => [Nat.digitChar (n / 64), Nat.digitChar (n / 8 % 8), Nat.digitChar (n % 8)]
  else [Char.ofNat b.toNat]

def FilePath.quoted (p : FilePath) : List Char := p.bytes.flatMap quoteByte

def FilePath.needsQuotes (p : FilePath) : Bool := p.bytes.any mustQuote

/-- A path behind a prefix, the two in one pair of quotes. -/
def quoteTwo (pre : List Char) (p : FilePath) : List Char :=
  if p.needsQuotes then '"' :: (pre ++ p.quoted ++ ['"']) else pre ++ p.quoted

/-- The longest beginning that two texts share. -/
def commonPrefix : List Char → List Char → List Char
  | a :: as, b :: bs => if a = b then a :: commonPrefix as bs else []
  | _, _ => []

/-- The length up to the last slash. -/
def slashLength (s : List Char) : Nat := (s.reverse.dropWhile (· != '/')).length

/-- `pprint_rename`: the shared directories in front and behind are printed once. -/
def pprintRename (a b : FilePath) : List Char :=
  let old := quoteTwo [] a
  let new := quoteTwo [] b
  if a.needsQuotes || b.needsQuotes then old ++ " => ".toList ++ new
  else
    let front := slashLength (commonPrefix old new)
    -- the slash that ends the front may also begin the back
    let shared := front - 1
    let back := slashLength (commonPrefix (old.drop shared).reverse (new.drop shared).reverse)
    let mid := fun s : List Char => (s.drop front).take (s.length - front - back)
    if front + back = 0 then old ++ " => ".toList ++ new
    else
      old.take front ++ '\x7b' :: (mid old ++ " => ".toList ++ mid new ++
        '\x7d' :: old.drop (old.length - back))

/-! ### The numstat -/

/-- The name in the numstat. -/
def FileChange.statName (f : FileChange) : List Char :=
  match f.change with
  | .renamed source .. => pprintRename source f.path
  | .copied source .. => pprintRename source f.path
  | _ => quoteTwo [] f.path

namespace FilePair

def statName : FilePair → List Char
  | single f => f.statName
  | retyped t => quoteTwo [] t.path

/-- The figures in the numstat. -/
def figures (p : FilePair) : List Char × List Char :=
  match p.stat with
  | some (additions, deletions) => ((toString additions).toList, (toString deletions).toList)
  | none => (['-'], ['-'])

def statLine (p : FilePair) : List Char :=
  p.figures.1 ++ '\t' :: (p.figures.2 ++ '\t' :: p.statName)

end FilePair

/-! ### The patch -/

def DiffLineKind.sign : DiffLineKind → Char
  | ctx => ' '
  | add => '+'
  | del => '-'

def HunkLine.print (l : HunkLine) : List (List Char) :=
  (l.kind.sign :: l.text.toList) ::
    if l.noNewline then ["\\ No newline at end of file".toList] else []

/-- A start and a count; the count 1 is left out. -/
def rangeText (start count : Nat) : List Char :=
  (toString start).toList ++ if count = 1 then [] else ',' :: (toString count).toList

def GitHunk.header (h : GitHunk) : List Char :=
  "@@ -".toList ++ (rangeText h.oldStart h.oldLines ++ " +".toList ++
    (rangeText h.newStart h.newLines ++ " @@".toList ++
      if h.heading = "" then [] else ' ' :: h.heading.toList))

def GitHunk.print (h : GitHunk) : List (List Char) :=
  h.header :: h.lines.flatMap HunkLine.print

/-- The lines on a change of the mode. -/
def modeLines (oldMode newMode : FileMode) : List String :=
  if oldMode = newMode then [] else ["old mode " ++ oldMode.text, "new mode " ++ newMode.text]

/-- The lines behind the header that say what happened to the file. -/
def FileChange.extended (f : FileChange) : List (List Char) :=
  match f.change with
  | .modified oldMode newMode _ => (modeLines oldMode newMode).map String.toList
  | .added mode => [("new file mode " ++ mode.text).toList]
  | .deleted mode => [("deleted file mode " ++ mode.text).toList]
  | .renamed source similarity oldMode newMode _ =>
      (modeLines oldMode newMode).map String.toList ++
        [("similarity index " ++ toString similarity ++ "%").toList,
          "rename from ".toList ++ quoteTwo [] source, "rename to ".toList ++ quoteTwo [] f.path]
  | .copied source similarity oldMode newMode _ =>
      (modeLines oldMode newMode).map String.toList ++
        [("similarity index " ++ toString similarity ++ "%").toList,
          "copy from ".toList ++ quoteTwo [] source, "copy to ".toList ++ quoteTwo [] f.path]

/-- The mode, if it is the same before and after. -/
def Change.sameMode : Change → Option FileMode
  | .modified oldMode newMode _ => if oldMode = newMode then some newMode else none
  | .renamed _ _ oldMode newMode _ => if oldMode = newMode then some newMode else none
  | .copied _ _ oldMode newMode _ => if oldMode = newMode then some newMode else none
  | _ => none

/-- The line on the two objects. -/
def FileChange.indexLine (f : FileChange) : List (List Char) :=
  match f.objects with
  | none => []
  | some (old, new) =>
      ["index ".toList ++ (old.text.toList.take 7 ++ "..".toList ++ (new.text.toList.take 7 ++
        ((f.change.sameMode.map fun mode => ' ' :: mode.text.toList).getD [])))]

/-- The two names of the contents. -/
def FileChange.labels (f : FileChange) : List Char × List Char :=
  match f.change with
  | .added _ => ("/dev/null".toList, quoteTwo "b/".toList f.path)
  | .deleted _ => (quoteTwo "a/".toList f.path, "/dev/null".toList)
  | _ => (quoteTwo "a/".toList f.source, quoteTwo "b/".toList f.path)

/-- A label with a blank in it ends with a tab. -/
def tabbed (label : List Char) : List Char := if ' ' ∈ label then label ++ ['\t'] else label

def FileChange.contents (f : FileChange) : List (List Char) :=
  match f.body with
  | .binary => ["Binary files ".toList ++ (f.labels.1 ++ " and ".toList ++
      (f.labels.2 ++ " differ".toList))]
  | .text [] => []
  | .text hunks =>
      ("--- ".toList ++ tabbed f.labels.1) :: ("+++ ".toList ++ tabbed f.labels.2) ::
        hunks.flatMap GitHunk.print

/-- What stands behind `diff --git`. -/
def FileChange.headerRest (f : FileChange) : List Char :=
  quoteTwo "a/".toList f.source ++ ' ' :: quoteTwo "b/".toList f.path

/-- The lines of a section. -/
def FileChange.section (f : FileChange) : List (List Char) :=
  ("diff --git ".toList ++ f.headerRest) :: (f.extended ++ f.indexLine ++ f.contents)

/-! ### The two outputs -/

/-- Lines, each with its newline. -/
def unlines (ls : List (List Char)) : String := String.ofList (ls.flatMap fun l => l ++ ['\n'])

def gitNumstat (pairs : List FilePair) : String := unlines (pairs.map FilePair.statLine)

/-- All sections of the patch. -/
def sections (pairs : List FilePair) : List FileChange := pairs.flatMap FilePair.sections

def gitPatch (pairs : List FilePair) : String :=
  unlines ((sections pairs).flatMap FileChange.section)

end Reads
end Artifacts
