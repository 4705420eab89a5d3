import Artifacts.Rust.Lines

/-!
# Words and fields of a text

`str::split_whitespace`, and the cut of the bytes of a text at an ASCII character, which is
the cut of the text.

`splitOn_asBytes` takes a cut of the bytes back to the text; `head_splitOn` and `trim_append` are
for the first word of a line.
-/

namespace Artifacts
namespace Rust

/-! ### Words -/

/-- The words of a list of characters. -/
def wordsOf (l : List Char) : List (List Char) :=
  (l.splitOnP isWhitespace).filter fun word => !word.isEmpty

/-- `str::split_whitespace`. -/
def splitWhitespace (s : String) : List String := (wordsOf s.toList).map String.ofList

@[simp] theorem wordsOf_nil : wordsOf [] = [] := by
  simp [wordsOf]

/-- White space before a word belongs to none. -/
theorem wordsOf_cons {c : Char} (hc : isWhitespace c = true) (rest : List Char) :
    wordsOf (c :: rest) = wordsOf rest := by
  simp [wordsOf, List.splitOnP_cons_eq_if_modifyHead, hc]

/-- A word, and the white space that ends it. -/
theorem wordsOf_append {word rest : List Char} {c : Char} (hne : word ≠ [])
    (hword : ∀ c ∈ word, isWhitespace c = false) (hc : isWhitespace c = true) :
    wordsOf (word ++ c :: rest) = word :: wordsOf rest := by
  have hcut := List.splitOnP_append_cons_of_forall_mem hword c hc rest
  simp [wordsOf, hcut, hne]

theorem wordsOf_word {word : List Char} (hne : word ≠ [])
    (hword : ∀ c ∈ word, isWhitespace c = false) : wordsOf word = [word] := by
  simp [wordsOf, List.splitOnP_eq_singleton hword, hne]

/-- Words joined by blanks. -/
theorem wordsOf_intercalate {words : List (List Char)} (hne : [] ∉ words)
    (hwords : ∀ word ∈ words, ∀ c ∈ word, isWhitespace c = false) :
    wordsOf ([' '].intercalate words) = words := by
  induction words with
  | nil => simp
  | cons word words ih =>
      simp only [List.mem_cons, not_or] at hne
      have hword := hwords word List.mem_cons_self
      cases words with
      | nil => simpa using wordsOf_word (Ne.symm hne.1) hword
      | cons word' words =>
          have hrest := ih (by simpa using hne.2) fun w hw => hwords w (List.mem_cons_of_mem word hw)
          rw [List.intercalate_cons_cons, List.append_assoc, List.singleton_append,
            wordsOf_append (Ne.symm hne.1) hword (by decide), hrest]

/-! ### Fields -/

/-- **Cutting the text is cutting its bytes.** -/
theorem splitOn_asBytes {a : Char} (ha : a.toNat < 128) (s : String) :
    (asBytes s).splitOn (UInt8.ofNat a.toNat) =
      (s.toList.splitOn a).map fun piece => asBytes (String.ofList piece) := by
  have hjoin : ∀ pieces : List (List Char),
      ([a].intercalate pieces).flatMap String.utf8EncodeChar =
        [UInt8.ofNat a.toNat].intercalate
          (pieces.map fun piece => piece.flatMap String.utf8EncodeChar) := by
    intro pieces
    induction pieces with
    | nil => rfl
    | cons piece pieces ih =>
        cases pieces with
        | nil => simp
        | cons piece' pieces =>
            rw [List.intercalate_cons_cons, List.flatMap_append, List.flatMap_append, ih,
              List.flatMap_singleton, utf8EncodeChar_ascii ha]
            simp [List.intercalate_cons_cons]
  have hbytes : asBytes s = [UInt8.ofNat a.toNat].intercalate
      ((s.toList.splitOn a).map fun piece => asBytes (String.ofList piece)) := by
    have hself : [a].intercalate (s.toList.splitOn a) = s.toList := List.intercalate_splitOn a
    rw [asBytes_eq_flatMap]
    nth_rewrite 1 [← hself]
    rw [hjoin]
    simp only [asBytes_ofList]
  rw [hbytes, List.splitOn_intercalate]
  · intro piece hpiece hmem
    obtain ⟨piece, hin, rfl⟩ := List.mem_map.mp hpiece
    rw [mem_asBytes_ascii ha, String.toList_ofList] at hmem
    exact Foundation.not_mem_of_mem_splitOn hin hmem
  · simp [List.splitOn_ne_nil]

/-- What stands before the first separator. -/
theorem head_splitOn (sep : Char) (l : List Char) :
    (l.splitOn sep).head? = some (l.takeWhile (· != sep)) := by
  induction l with
  | nil => rfl
  | cons c l ih =>
      rw [List.splitOn_cons_eq_if_modifyHead]
      by_cases hc : c = sep
      · simp [hc]
      · simp [hc, ih]

/-- White space before a text without any is trimmed. -/
theorem trim_append {blank word : List Char} (hblank : ∀ c ∈ blank, isWhitespace c = true)
    (hword : ∀ c ∈ word, isWhitespace c = false) :
    trim (String.ofList (blank ++ word)) = String.ofList word := by
  have hreverse : ∀ c ∈ word.reverse, isWhitespace c = false :=
    fun c hc => hword c (List.mem_reverse.mp hc)
  unfold trim
  rw [String.toList_ofList, List.dropWhile_append_of_pos hblank, dropWhile_eq_self hword,
    dropWhile_eq_self hreverse, List.reverse_reverse]

end Rust
end Artifacts
