import Mathlib.Data.List.Infix
import Mathlib.Data.List.TakeWhile

/-!
# Text operations of the standard library

The string functions that the modelled code calls, under the names of Rust's
`str` and `char`.  A `char` predicate is a Boolean function of `Char`; functions
that cut a string work on its list of characters.

Where Rust has one function for characters, texts and predicates as patterns, each use has its own
definition here.  Whitespace is that of Unicode, as in `str::trim`.
-/

namespace Artifacts
namespace Rust

/-- `char::is_ascii_lowercase`. -/
def isAsciiLowercase (c : Char) : Bool := 'a' ≤ c ∧ c ≤ 'z'

/-- `char::is_ascii_uppercase`. -/
def isAsciiUppercase (c : Char) : Bool := 'A' ≤ c ∧ c ≤ 'Z'

/-- `char::is_ascii_digit`. -/
def isAsciiDigit (c : Char) : Bool := '0' ≤ c ∧ c ≤ '9'

/-- `char::is_ascii_hexdigit`. -/
def isAsciiHexdigit (c : Char) : Bool :=
  isAsciiDigit c || ('a' ≤ c ∧ c ≤ 'f') || ('A' ≤ c ∧ c ≤ 'F')

/-- `char::to_digit(16)`. -/
def toDigit16 (c : Char) : Option Nat :=
  if isAsciiDigit c then some (c.toNat - '0'.toNat)
  else if 'a' ≤ c ∧ c ≤ 'f' then some (c.toNat - 'a'.toNat + 10)
  else if 'A' ≤ c ∧ c ≤ 'F' then some (c.toNat - 'A'.toNat + 10)
  else none

/-- One digit more of a `u16`, with `none` for a bad digit or an overflow. -/
def u16Digit (acc : Option Nat) (c : Char) : Option Nat :=
  match acc, toDigit16 c with
  | some n, some d => if n * 16 + d < 65536 then some (n * 16 + d) else none
  | _, _ => none

/-- `u16::from_str_radix(s, 16)`, which accepts a leading plus sign. -/
def u16FromStrRadix16 (s : String) : Option Nat :=
  match s.toList with
  | [] => none
  | ['+'] => none
  | '+' :: digits => digits.foldl u16Digit (some 0)
  | digits => digits.foldl u16Digit (some 0)

/-- `str::to_ascii_lowercase`. -/
def toAsciiLowercase (s : String) : String :=
  String.ofList (s.toList.map fun c =>
    if isAsciiUppercase c then Char.ofNat (c.toNat + 32) else c)

/-- `str::starts_with`. -/
def startsWith (s pat : String) : Bool := pat.toList.isPrefixOf s.toList

/-- `str::ends_with`. -/
def endsWith (s pat : String) : Bool := pat.toList.isSuffixOf s.toList

/-- `str::contains`. -/
def contains (s pat : String) : Bool := decide (pat.toList <:+: s.toList)

/-- `str::split` at every occurrence of one character. -/
def split (s : String) (sep : Char) : List String :=
  (s.toList.splitOn sep).map String.ofList

/-- `str::split_once` at the first occurrence of one character. -/
def splitOnce (s : String) (sep : Char) : Option (String × String) :=
  if sep ∈ s.toList then
    some (String.ofList (s.toList.takeWhile (· != sep)),
      String.ofList ((s.toList.dropWhile (· != sep)).drop 1))
  else
    none

/-- `str::splitn(n, sep)`: at most `n` pieces, the last one uncut. -/
def splitn : Nat → String → Char → List String
  | 0, _, _ => []
  | 1, s, _ => [s]
  | n + 2, s, sep =>
      match splitOnce s sep with
      | none => [s]
      | some (head, rest) => head :: splitn (n + 1) rest sep

/-- `str::trim_end_matches` of one character. -/
def trimEndMatches (s : String) (c : Char) : String :=
  String.ofList (s.toList.reverse.dropWhile (· == c)).reverse

/-- `char::is_whitespace`, the Unicode property `White_Space`. -/
def isWhitespace (c : Char) : Bool :=
  (9 ≤ c.toNat && c.toNat ≤ 13) || (0x2000 ≤ c.toNat && c.toNat ≤ 0x200a) ||
    [0x20, 0x85, 0xa0, 0x1680, 0x2028, 0x2029, 0x202f, 0x205f, 0x3000].contains c.toNat

/-- `str::trim`. -/
def trim (s : String) : String :=
  String.ofList ((s.toList.dropWhile isWhitespace).reverse.dropWhile isWhitespace).reverse

/-- A property of every character, checked along the list. -/
theorem forall_mem_of_all {l : List Char} {p : Char → Prop} [DecidablePred p]
    (h : l.all (fun c => decide (p c)) = true) : ∀ c ∈ l, p c :=
  fun c hc => of_decide_eq_true (List.all_eq_true.mp h c hc)

/-- The list is short; the characters are many. -/
instance decidableForallMem {l : List Char} {p : Char → Prop} [DecidablePred p] :
    Decidable (∀ c ∈ l, p c) :=
  List.decidableBAll p l

theorem mem_dropWhile_of_false {α : Type} {p : α → Bool} {l : List α} {a : α} (ha : a ∈ l)
    (hp : p a = false) : a ∈ l.dropWhile p := by
  rw [← @List.takeWhile_append_dropWhile α p l] at ha
  rcases List.mem_append.mp ha with hfront | hback
  · exact Bool.noConfusion (hp.symm.trans (List.mem_takeWhile_imp hfront))
  · exact hback

/-- Trimming keeps what is no white space. -/
theorem mem_trim {s : String} {c : Char} (hc : c ∈ s.toList) (hc' : isWhitespace c = false) :
    c ∈ (trim s).toList := by
  unfold trim
  rw [String.toList_ofList, List.mem_reverse]
  exact mem_dropWhile_of_false (List.mem_reverse.mpr (mem_dropWhile_of_false hc hc')) hc'

theorem dropWhile_eq_self {α : Type} {p : α → Bool} {l : List α} (h : ∀ a ∈ l, p a = false) :
    l.dropWhile p = l := by
  cases l with
  | nil => rfl
  | cons a l => exact List.dropWhile_cons_of_neg (by simp [h a List.mem_cons_self])

/-- A text without white space is its own trimming. -/
theorem trim_eq_self {s : String} (h : ∀ c ∈ s.toList, isWhitespace c = false) : trim s = s := by
  have hreverse : ∀ c ∈ s.toList.reverse, isWhitespace c = false :=
    fun c hc => h c (List.mem_reverse.mp hc)
  unfold trim
  rw [dropWhile_eq_self h, dropWhile_eq_self hreverse, List.reverse_reverse, String.ofList_toList]

/-- A text without white space, on a line of its own. -/
theorem trim_line {s : String} (h : ∀ c ∈ s.toList, isWhitespace c = false) :
    trim (s ++ "\n") = s := by
  have hreverse : ∀ c ∈ s.toList.reverse, isWhitespace c = false :=
    fun c hc => h c (List.mem_reverse.mp hc)
  unfold trim
  rw [String.toList_append]
  cases hs : s.toList with
  | nil =>
      rw [← String.ofList_toList (s := s), hs]
      rfl
  | cons c l =>
      have hc : isWhitespace c = false := h c (by rw [hs]; exact List.mem_cons_self)
      have hline : (c :: l ++ "\n".toList).dropWhile isWhitespace = s.toList ++ ['\n'] := by
        rw [hs, List.cons_append, List.dropWhile_cons_of_neg (by simp [hc])]
        rfl
      rw [hline, List.reverse_append, List.reverse_singleton, List.singleton_append,
        List.dropWhile_cons_of_pos (by decide), dropWhile_eq_self hreverse, List.reverse_reverse,
        String.ofList_toList]

/-- One character as `str`'s `Debug` prints it.  `printable` stands for the
Unicode tables: a character that is printable and extends no grapheme. -/
def escapeDebugChar (printable : Char → Bool) (c : Char) : List Char :=
  if c = '\x00' then ['\\', '0']
  else if c = '\t' then ['\\', 't']
  else if c = '\r' then ['\\', 'r']
  else if c = '\n' then ['\\', 'n']
  else if c = '"' ∨ c = '\\' then ['\\', c]
  else if printable c then [c]
  else "\\u\x7b".toList ++ Nat.toDigits 16 c.toNat ++ ['\x7d']

/-- `format!` of a string under `:?`. -/
def debugStr (printable : Char → Bool) (s : String) : String :=
  String.ofList ('"' :: s.toList.flatMap (escapeDebugChar printable) ++ ['"'])

end Rust
end Artifacts
