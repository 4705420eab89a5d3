import Artifacts.Rust.Text
import Mathlib.Algebra.Ring.Nat
import Mathlib.Tactic.SplitIfs

/-!
# Decimal numbers

`toString` of a number prints its decimal digits, and `str::parse` reads them back as far as
the type goes.

A number that does not fit its type, and a text with anything but digits (and a sign in front, as
far as the type has one), is not parsed.
-/

namespace Artifacts
namespace Rust

/-- `str::parse` to an unsigned type. -/
def parseUnsigned (bits : Nat) (s : String) : Option Nat :=
  let digits := if startsWith s "+" then s.toList.drop 1 else s.toList
  if digits.isEmpty || !digits.all isAsciiDigit then none
  else
    let n := Nat.ofDigitChars 10 digits 0
    if n < 2 ^ bits then some n else none

/-- `str::parse::<i64>`. -/
def parseI64 (s : String) : Option Int64 :=
  if startsWith s "-" then
    let digits := s.toList.drop 1
    if digits.isEmpty || !digits.all isAsciiDigit then none
    else
      let n := Nat.ofDigitChars 10 digits 0
      if n ≤ 2 ^ 63 then some (Int64.ofInt (-n)) else none
  else (parseUnsigned 63 s).map Int64.ofNat

theorem toString_toList (n : Nat) : (toString n).toList = Nat.toDigits 10 n := by
  change (Nat.repr n).toList = _
  rw [Nat.repr, String.toList_ofList]

theorem digits_ne_nil (n : Nat) : (toString n).toList ≠ [] := by
  rw [toString_toList]
  exact Nat.toDigits_ne_nil

theorem isAsciiDigit_of_mem {n : Nat} {c : Char} (h : c ∈ (toString n).toList) :
    isAsciiDigit c = true := by
  rw [toString_toList] at h
  have hdigit := Nat.isDigit_of_mem_toDigits (by decide) (by decide) h
  unfold Char.isDigit at hdigit
  rw [isAsciiDigit, decide_eq_true_iff]
  exact Bool.and_eq_true_iff.mp hdigit |>.imp of_decide_eq_true of_decide_eq_true

/-- A character that is no digit is not printed. -/
theorem not_mem_digits {c : Char} (hc : isAsciiDigit c = false) (n : Nat) :
    c ∉ (toString n).toList := by
  intro hmem
  rw [isAsciiDigit_of_mem hmem] at hc
  cases hc

theorem isWhitespace_of_isAsciiDigit {c : Char} (h : isAsciiDigit c = true) :
    isWhitespace c = false := by
  have hrange : 48 ≤ c.toNat ∧ c.toNat ≤ 57 := by
    simpa [isAsciiDigit, Char.le_def, UInt32.le_iff_toNat_le] using h
  simp [isWhitespace]
  omega

/-- A number has no sign. -/
theorem startsWith_toString {c : Char} (hc : isAsciiDigit c = false) (n : Nat) :
    startsWith (toString n) (String.singleton c) = false := by
  rw [Bool.eq_false_iff]
  intro hstarts
  have hpre : (String.singleton c).toList <+: (toString n).toList :=
    List.isPrefixOf_iff_prefix.mp hstarts
  exact not_mem_digits hc n (hpre.subset (by simp))

theorem parseUnsigned_toString (bits n : Nat) :
    parseUnsigned bits (toString n) = if n < 2 ^ bits then some n else none := by
  have hdigits : ((toString n).toList.isEmpty || !(toString n).toList.all isAsciiDigit) = false := by
    rw [Bool.or_eq_false_iff]
    refine ⟨List.isEmpty_eq_false_iff.mpr (digits_ne_nil n), ?_⟩
    rw [Bool.not_eq_false', List.all_eq_true]
    exact fun c hc => isAsciiDigit_of_mem hc
  have hplus : startsWith (toString n) "+" = false := startsWith_toString (c := '+') (by decide) n
  unfold parseUnsigned
  dsimp only
  rw [hplus, if_neg Bool.false_ne_true, hdigits, if_neg Bool.false_ne_true,
    toString_toList, Nat.ofDigitChars_ten_toDigits]

theorem parseI64_toString (n : Nat) :
    parseI64 (toString n) = if n < 2 ^ 63 then some (Int64.ofNat n) else none := by
  have hminus : startsWith (toString n) "-" = false := startsWith_toString (c := '-') (by decide) n
  rw [parseI64, hminus, if_neg Bool.false_ne_true, parseUnsigned_toString]
  split_ifs <;> rfl

end Rust
end Artifacts
