import Artifacts.Ids
import Artifacts.Rust.Lines
import Mathlib.Data.List.Forall2

/-!
# Reading `git rev-list --objects --all`

`revListObjects` runs git on a repository and takes the object ids out of its
output.  What git prints is known (`printListing`): a line for each object, with
its id and, for what is not a commit, a space and a path.  Paths are bytes, so
the output need not be UTF-8; where it is, the ids that are read are the ids that
were printed.

`Listed.Printable` keeps newlines out of the paths.  Output that is not UTF-8 makes the whole call
fail; the condition for that is `Utf8Paths`.
-/

namespace Artifacts
namespace Gc

open Rust

/-- The result of a finished subprocess. `stderr` is its lossy text. -/
structure GitOutput where
  success : Bool
  stdout : List UInt8
  stderr : String

/-- The texts that the decoding of the output depends on. -/
structure Utf8Texts where
  /-- The `Display` of a `FromUtf8Error`. -/
  fromUtf8Error : List UInt8 → String

/-- The object id at the start of a line, if there is one. -/
def oidOfLine (line : String) : Option String :=
  let oid := (firstWord line).getD ""
  if oid.utf8ByteSize = 40 ∧ oid.toList.all isAsciiHexdigit then some oid else none

/-- `rev_list_objects`, given the outcome of the subprocess. -/
def revListObjects (texts : Utf8Texts) (repoId : String) (out : Except String GitOutput) :
    Result (List String) :=
  match out with
  | .error e => .error (.io e)
  | .ok out =>
      if !out.success then
        .error (.other ("git rev-list --objects --all on " ++ repoId ++ " failed: " ++
          trim out.stderr))
      else
        match fromUtf8 out.stdout with
        | none => .error (.other (texts.fromUtf8Error out.stdout))
        | some text => .ok ((lines text).filterMap oidOfLine)

/-! ### What git prints -/

/-- A listed object: its id, and the path printed behind it. -/
structure Listed where
  oid : Oid
  path : Option (List UInt8)

/-- A printed path ends at the first newline of the name, so that what git prints for an object is
one line. -/
def Listed.Printable (entry : Listed) : Prop :=
  ∀ path, entry.path = some path → UInt8.ofNat '\n'.toNat ∉ path

/-- The line of an object, without its newline. -/
def Listed.line (entry : Listed) : List UInt8 :=
  match entry.path with
  | none => asBytes entry.oid.text
  | some path => asBytes entry.oid.text ++ UInt8.ofNat ' '.toNat :: path

/-- The output for a list of objects. -/
def printListing (listing : List Listed) : List UInt8 :=
  listing.flatMap fun entry => entry.line ++ [UInt8.ofNat '\n'.toNat]

/-- The path of every listed object is UTF-8. -/
def Utf8Paths (listing : List Listed) : Prop :=
  ∀ entry ∈ listing, ∀ path, entry.path = some path → (fromUtf8 path).isSome = true

/-- A line that starts with an id gives the id back. -/
theorem oidOfLine_append (o : Oid) {rest : List Char}
    (hrest : ∀ c ∈ rest.head?, isWhitespace c = true) :
    oidOfLine (String.ofList (o.text.toList ++ rest)) = some o.text := by
  have hword : firstWord (String.ofList (o.text.toList ++ rest)) = some o.text := by
    rw [firstWord_append (o.toList_ne_nil)
      (fun _ => o.isWhitespace_of_mem) hrest, String.ofList_toList]
  have hhex : o.text.toList.all isAsciiHexdigit = true :=
    List.all_eq_true.mpr fun c hc => o.isAsciiHexdigit_of_mem hc
  unfold oidOfLine
  rw [hword, Option.getD_some]
  exact if_pos ⟨o.utf8ByteSize_text, hhex⟩

/-- The line of an object in characters. -/
theorem line_text {entry : Listed} (hprint : entry.Printable) {line : List Char}
    (h : fromUtf8 entry.line = some (String.ofList line)) :
    '\n' ∉ line ∧ oidOfLine (String.ofList (stripCr line)) = some entry.oid.text := by
  have hoid : ∀ a : Char, isWhitespace a = true → a ∉ entry.oid.text.toList := by
    intro a ha hmem
    rw [entry.oid.isWhitespace_of_mem hmem] at ha
    cases ha
  constructor
  · intro hmem
    have hbyte : UInt8.ofNat '\n'.toNat ∈ entry.line := by
      rw [← asBytes_of_fromUtf8 h, mem_asBytes_ascii (by decide), String.toList_ofList]
      exact hmem
    have hno : UInt8.ofNat '\n'.toNat ∉ asBytes entry.oid.text := by
      rw [mem_asBytes_ascii (by decide)]
      exact hoid '\n' (by decide)
    unfold Listed.line at hbyte
    split at hbyte
    · exact hno hbyte
    · rename_i path hpath
      rcases List.mem_append.mp hbyte with hbyte | hbyte
      · exact hno hbyte
      · rcases List.mem_cons.mp hbyte with hspace | hbyte
        · exact absurd hspace (by decide)
        · exact hprint path hpath hbyte
  · -- behind the id stands nothing or a space
    have hsplit : ∃ rest, line = entry.oid.text.toList ++ rest ∧
        ∀ c ∈ rest.head?, isWhitespace c = true := by
      unfold Listed.line at h
      split at h
      · rw [fromUtf8_asBytes, Option.some.injEq] at h
        exact ⟨[], by rw [h, String.toList_ofList, List.append_nil], by simp⟩
      · obtain ⟨s, u, hs, -, htext⟩ := (fromUtf8_cut (by decide)).mp h
        rw [fromUtf8_asBytes, Option.some.injEq] at hs
        subst hs
        exact ⟨' ' :: u.toList, String.ofList_injective htext, by simp [isWhitespace]⟩
    obtain ⟨rest, rfl, hrest⟩ := hsplit
    obtain ⟨rest', hstrip, hrest'⟩ := stripCr_append (hoid '\r' (by decide)) hrest
    rw [hstrip, oidOfLine_append entry.oid hrest']

/-- A line is UTF-8 exactly when its path is. -/
theorem line_utf8_iff (entry : Listed) :
    (fromUtf8 entry.line).isSome = true ↔
      ∀ path, entry.path = some path → (fromUtf8 path).isSome = true := by
  unfold Listed.line
  split
  · rename_i hpath
    simp [hpath]
  · rename_i path hpath
    simp only [hpath, Option.some.injEq, forall_eq', Option.isSome_iff_exists]
    constructor
    · rintro ⟨t, ht⟩
      obtain ⟨s, u, -, hu, -⟩ := (fromUtf8_cut (by decide)).mp ht
      exact ⟨u, hu⟩
    · rintro ⟨u, hu⟩
      exact ⟨_, (fromUtf8_cut (by decide)).mpr ⟨entry.oid.text, u, fromUtf8_asBytes _, hu, rfl⟩⟩

/-- The texts of the lines of a listing. -/
def LineTexts (listing : List Listed) (ls : List (List Char)) : Prop :=
  List.Forall₂ (fun entry l => fromUtf8 entry.line = some (String.ofList l)) listing ls

theorem utf8Paths_iff (listing : List Listed) : Utf8Paths listing ↔ ∃ ls, LineTexts listing ls := by
  induction listing with
  | nil => exact ⟨fun _ => ⟨[], List.Forall₂.nil⟩, fun _ entry hentry => absurd hentry (by simp)⟩
  | cons entry listing ih =>
      have hcons : Utf8Paths (entry :: listing) ↔
          (fromUtf8 entry.line).isSome = true ∧ Utf8Paths listing := by
        simp only [Utf8Paths, List.forall_mem_cons, line_utf8_iff]
      rw [hcons, ih, Option.isSome_iff_exists]
      constructor
      · rintro ⟨⟨t, ht⟩, ls, hls⟩
        exact ⟨t.toList :: ls, List.Forall₂.cons (by rwa [String.ofList_toList]) hls⟩
      · rintro ⟨ls, hls⟩
        cases hls with
        | @cons _ l _ ls hl hls => exact ⟨⟨_, hl⟩, ls, hls⟩

/-- The output is UTF-8 exactly when every line is, and its text is theirs. -/
theorem fromUtf8_printListing (listing : List Listed) (text : String) :
    fromUtf8 (printListing listing) = some text ↔
      ∃ ls, LineTexts listing ls ∧ text = String.ofList (ls.flatMap fun l => l ++ ['\n']) := by
  induction listing generalizing text with
  | nil =>
      have hempty : fromUtf8 (printListing []) = some "" := fromUtf8_asBytes ""
      rw [hempty, Option.some.injEq]
      constructor
      · rintro rfl
        exact ⟨[], List.Forall₂.nil, rfl⟩
      · rintro ⟨ls, hls, rfl⟩
        cases hls
        rfl
  | cons entry listing ih =>
      have hcons : printListing (entry :: listing) =
          entry.line ++ UInt8.ofNat '\n'.toNat :: printListing listing := by
        simp [printListing]
      rw [hcons, fromUtf8_cut (by decide)]
      constructor
      · rintro ⟨s, u, hs, hu, rfl⟩
        obtain ⟨ls, hls, rfl⟩ := (ih u).mp hu
        exact ⟨s.toList :: ls, List.Forall₂.cons (by rwa [String.ofList_toList]) hls, by simp⟩
      · rintro ⟨ls, hls, rfl⟩
        cases hls with
        | @cons _ l _ ls hl hls =>
            exact ⟨_, _, hl, (ih _).mpr ⟨ls, hls, rfl⟩, by simp⟩

/-- The lines of a listing give its ids. -/
theorem oids_of_lineTexts {listing : List Listed} (hprint : ∀ entry ∈ listing, entry.Printable)
    {ls : List (List Char)} (h : LineTexts listing ls) :
    (∀ l ∈ ls, '\n' ∉ l) ∧
      (ls.map fun l => String.ofList (stripCr l)).filterMap oidOfLine =
        listing.map fun entry => entry.oid.text := by
  induction h with
  | nil => simp
  | @cons entry l listing ls hl _ ih =>
      obtain ⟨hnewline, hoid⟩ := line_text (hprint entry List.mem_cons_self) hl
      obtain ⟨hrest, hoids⟩ := ih fun e he => hprint e (List.mem_cons_of_mem entry he)
      exact ⟨List.forall_mem_cons.mpr ⟨hnewline, hrest⟩, by
        rw [List.map_cons, List.filterMap_cons_some hoid, hoids, List.map_cons]⟩

/-- **Reading back what git printed.** The ids come back as they were printed
where all paths are UTF-8; otherwise the call fails. -/
theorem revListObjects_printListing (texts : Utf8Texts) (repoId stderr : String)
    {listing : List Listed} (hprint : ∀ entry ∈ listing, entry.Printable) :
    (Utf8Paths listing →
      revListObjects texts repoId (.ok ⟨true, printListing listing, stderr⟩) =
        .ok (listing.map fun entry => entry.oid.text)) ∧
    (¬ Utf8Paths listing →
      ∃ e, revListObjects texts repoId (.ok ⟨true, printListing listing, stderr⟩) = .error e) := by
  constructor
  · intro hutf8
    obtain ⟨ls, hls⟩ := (utf8Paths_iff listing).mp hutf8
    obtain ⟨hnewline, hoids⟩ := oids_of_lineTexts hprint hls
    have htext := (fromUtf8_printListing listing _).mpr ⟨ls, hls, rfl⟩
    simp only [revListObjects, htext, Bool.not_true, Bool.false_eq_true, if_false]
    rw [lines_flatMap hnewline, hoids]
  · intro hutf8
    cases htext : fromUtf8 (printListing listing) with
    | none =>
        refine ⟨.other (texts.fromUtf8Error (printListing listing)), ?_⟩
        simp [revListObjects, htext]
    | some text =>
        obtain ⟨ls, hls, -⟩ := (fromUtf8_printListing listing text).mp htext
        exact absurd ((utf8Paths_iff listing).mpr ⟨ls, hls⟩) hutf8

end Gc
end Artifacts
