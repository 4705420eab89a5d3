import Artifacts.Rust.Lines
import Artifacts.Webhooks.TargetUrl

/-!
# Reading a diff

`parseDiff` turns the two outputs of `git show`, the numstat and the unified patch, into one
entry per file.  The numstat makes the entries; the patch is read line by line with two
pieces of state, the entry of the section and the hunk that is open.

Line numbers and figures are `u32` and wrap to 0 where they do not parse.  A section whose header
names no entry leaves the state as it was; what comes of this is the subject of `Attribution`.
-/

namespace Artifacts
namespace Reads

open Rust
open Webhooks (splitOnceAt)

inductive DiffLineKind where
  | ctx
  | add
  | del
  deriving DecidableEq, Repr

structure DiffLine where
  kind : DiffLineKind
  text : String
  deriving DecidableEq, Repr

structure DiffHunk where
  oldStart : Nat
  oldLines : Nat
  newStart : Nat
  newLines : Nat
  lines : List DiffLine
  deriving DecidableEq, Repr

inductive DiffStatus where
  | added
  | modified
  | deleted
  | renamed
  deriving DecidableEq, Repr

structure FileDiff where
  path : String
  status : DiffStatus
  oldPath : Option String
  additions : Nat
  deletions : Nat
  hunks : List DiffHunk
  deriving DecidableEq, Repr

/-- `str::parse::<u32>`: digits with at most one plus in front, and a value that fits. -/
def parseU32 (s : String) : Option Nat :=
  let digits := if startsWith s "+" then s.toList.drop 1 else s.toList
  if digits.isEmpty || !digits.all isAsciiDigit then none
  else
    let n := Nat.ofDigitChars 10 digits 0
    if n < 2 ^ 32 then some n else none

/-- `str::strip_prefix`. -/
def stripPrefix (s pat : String) : Option String :=
  if startsWith s pat then some (String.ofList (s.toList.drop pat.toList.length)) else none

/-- `str::trim_start_matches` of one character. -/
def trimStartMatches (s : String) (c : Char) : String :=
  String.ofList (s.toList.dropWhile (· == c))

/-! ### The numstat -/

/-- The path of an entry: what stands behind the first arrow, if there is one. -/
def entryPath (name : String) : String :=
  match splitOnceAt " => ".toList name.toList with
  | some (_, new) => String.ofList new
  | none => name

/-- One line of the numstat. -/
def numstatEntry (line : String) : Option FileDiff :=
  match split line '\t' with
  | additions :: deletions :: path :: _ =>
      let renamed := splitOnceAt " => ".toList path.toList
      some
        { path := entryPath path
          status := if renamed.isSome then .renamed else .modified
          oldPath := renamed.map fun names => String.ofList names.1
          additions := (parseU32 additions).getD 0
          deletions := (parseU32 deletions).getD 0
          hunks := [] }
  | _ => none

/-! ### The patch -/

/-- `parse_hunk_range`. A number that cannot be read is 0, and a missing count is 1. -/
def parseHunkRange (s : String) : Nat × Nat :=
  let s := trimStartMatches (trimStartMatches s '-') '+'
  let (start, count) := (splitOnce s ',').getD (s, "1")
  ((parseU32 start).getD 0, (parseU32 count).getD 0)

structure DiffState where
  files : List FileDiff
  currentFile : Option Nat
  currentHunk : Option DiffHunk

/-- The files with the open hunk pushed to the current one; without a current file the hunk
is lost. -/
def DiffState.closeHunk (st : DiffState) : List FileDiff :=
  match st.currentFile, st.currentHunk with
  | some cur, some h => st.files.modify cur fun f => { f with hunks := f.hunks ++ [h] }
  | _, _ => st.files

/-- `new file mode` and `deleted file mode`. -/
def DiffState.setStatus (st : DiffState) (status : DiffStatus) : DiffState :=
  match st.currentFile with
  | some ix => { st with files := st.files.modify ix fun f => { f with status := status } }
  | none => st

/-- The entry that the rest of a `diff --git` line is taken for. -/
def headerEntry (paths : List String) (rest : String) : Option Nat :=
  (splitOnceAt " b/".toList rest.toList).bind fun sides =>
    paths.findIdx? fun path => path == String.ofList sides.2

/-- A line of an open hunk. -/
def hunkLine (h : DiffHunk) (line : String) : DiffHunk :=
  match stripPrefix line "+" with
  | some text =>
      if startsWith line "+++" then h else { h with lines := h.lines ++ [⟨.add, text⟩] }
  | none =>
      match stripPrefix line "-" with
      | some text =>
          if startsWith line "---" then h else { h with lines := h.lines ++ [⟨.del, text⟩] }
      | none =>
          match stripPrefix line " " with
          | some text => { h with lines := h.lines ++ [⟨.ctx, text⟩] }
          | none => h

/-- The hunk that an `@@` line opens. -/
def openHunk (hdr : String) : DiffHunk :=
  let parts := split hdr ' '
  let (oldStart, oldLines) := parseHunkRange (parts.head?.getD "")
  let (newStart, newLines) := parseHunkRange (parts[1]?.getD "")
  ⟨oldStart, oldLines, newStart, newLines, []⟩

/-- One line of the patch. -/
def patchLine (st : DiffState) (line : String) : DiffState :=
  match stripPrefix line "diff --git " with
  | some rest =>
      match headerEntry (st.files.map FileDiff.path) rest with
      -- a header that no entry answers leaves the file before it current
      | none => st
      | some ix => ⟨st.closeHunk, some ix, none⟩
  | none =>
      if startsWith line "new file mode" then st.setStatus .added
      else if startsWith line "deleted file mode" then st.setStatus .deleted
      else
        match stripPrefix line "@@ " with
        | some hdr => ⟨st.closeHunk, st.currentFile, some (openHunk hdr)⟩
        | none => { st with currentHunk := st.currentHunk.map fun h => hunkLine h line }

/-- `parse_diff`. The numstat says which files there are; the patch is then read line by line, and
each line goes to the file that is current. -/
def parseDiff (numstat patch : String) : List FileDiff :=
  let files := (lines numstat).filterMap numstatEntry
  ((lines patch).foldl patchLine ⟨files, none, none⟩).closeHunk

end Reads
end Artifacts
