import Mathlib.Data.List.Basic

/-!
# Words joined by a separator

Joining words with a separator letter forgets where a word itself contains the
letter.  What the joined string determines is exactly the list of
separator-free pieces of the words, read in order (`pieces`), so joining is
injective on words that avoid the separator.

The letter and the words are of any type with decidable equality.  `cut_unique` is the case of one
cut, at the first separator; `splitOn_terminated` is for words that end with it.
-/

namespace Artifacts
namespace Foundation

variable {α : Type*} [DecidableEq α]

/-- The separator-free pieces of a list of words, in order. -/
def pieces (sep : α) (words : List (List α)) : List (List α) :=
  words.flatMap (List.splitOn sep)

omit [DecidableEq α] in
/-- A word that is joined is found in one piece. -/
theorem infix_intercalate {sep : List α} {words : List (List α)} {word : List α}
    (h : word ∈ words) : word <:+: sep.intercalate words := by
  obtain ⟨i, hi⟩ := List.mem_iff_getElem?.mp h
  apply List.infix_of_mem_flatten
  apply List.mem_iff_getElem?.mpr
  exact ⟨2 * i, List.getElem?_intersperse_two_mul.trans hi⟩

omit [DecidableEq α] in
theorem mem_intercalate {sep a : α} {words : List (List α)} (h : a ∈ [sep].intercalate words) :
    a = sep ∨ ∃ word ∈ words, a ∈ word := by
  induction words with
  | nil => simp at h
  | cons word words ih =>
      cases words with
      | nil => exact Or.inr ⟨word, List.mem_cons_self, by simpa using h⟩
      | cons word' words =>
          rw [List.intercalate_cons_cons, List.mem_append, List.mem_append,
            List.mem_singleton] at h
          rcases h with (hword | rfl) | hrest
          · exact Or.inr ⟨word, List.mem_cons_self, hword⟩
          · exact Or.inl rfl
          · obtain heq | ⟨w, hw, ha⟩ := ih hrest
            · exact Or.inl heq
            · exact Or.inr ⟨w, List.mem_cons_of_mem word hw, ha⟩

theorem infix_of_mem_splitOn {sep : α} {word piece : List α} (h : piece ∈ word.splitOn sep) :
    piece <:+: word := by
  have hinfix := @infix_intercalate _ [sep] _ _ h
  rwa [List.intercalate_splitOn] at hinfix

/-- An empty piece behind the first one stands between two separators, or at the end. -/
theorem nil_mem_tail_splitOn {sep : α} {word : List α} (h : [] ∈ (word.splitOn sep).tail) :
    [sep, sep] <:+: word ∨ [sep] <:+ word := by
  induction word with
  | nil => simp at h
  | cons a word ih =>
      rw [List.splitOn_cons_eq_if_modifyHead] at h
      by_cases ha : a = sep
      · subst ha
        rw [if_pos (beq_self_eq_true a), List.tail_cons] at h
        cases word with
        | nil => exact Or.inr (List.suffix_refl _)
        | cons b word =>
            by_cases hb : b = a
            · subst hb
              exact Or.inl ⟨[], word, rfl⟩
            · have htail : [] ∈ ((b :: word).splitOn a).tail := by
                rw [List.splitOn_cons_eq_if_modifyHead, if_neg (by simpa using hb)] at h ⊢
                cases hsplit : word.splitOn a with
                | nil => exact absurd hsplit (List.splitOn_ne_nil a word)
                | cons first rest => simpa [hsplit] using h
              rcases ih htail with hpair | hlast
              · exact Or.inl (hpair.trans (List.suffix_cons _ _).isInfix)
              · exact Or.inr (hlast.trans (List.suffix_cons _ _))
      · rw [if_neg (by simpa using ha), List.tail_modifyHead] at h
        rcases ih h with hpair | hlast
        · exact Or.inl (hpair.trans (List.suffix_cons _ _).isInfix)
        · exact Or.inr (hlast.trans (List.suffix_cons _ _))

/-- Where an empty piece comes from. -/
theorem nil_mem_splitOn_iff {sep : α} {word : List α} :
    [] ∈ word.splitOn sep ↔
      word = [] ∨ [sep] <+: word ∨ [sep] <:+ word ∨ [sep, sep] <:+: word := by
  constructor
  · intro h
    cases word with
    | nil => exact Or.inl rfl
    | cons a word =>
        by_cases ha : a = sep
        · subst ha
          exact Or.inr (Or.inl ⟨word, rfl⟩)
        · have htail : [] ∈ ((a :: word).splitOn sep).tail := by
            rw [List.splitOn_cons_eq_if_modifyHead, if_neg (by simpa using ha)] at h ⊢
            cases hsplit : word.splitOn sep with
            | nil => exact absurd hsplit (List.splitOn_ne_nil sep word)
            | cons first rest => simpa [hsplit] using h
          rcases nil_mem_tail_splitOn htail with hpair | hlast
          · exact Or.inr (Or.inr (Or.inr hpair))
          · exact Or.inr (Or.inr (Or.inl hlast))
  · rintro (rfl | ⟨rest, rfl⟩ | ⟨before, rfl⟩ | ⟨before, rest, rfl⟩)
    · simp
    · rw [List.singleton_append, List.splitOn_cons_eq_if_modifyHead]
      simp
    · rw [List.splitOn_append_cons_self]
      simp
    · rw [List.append_assoc, List.cons_append, List.splitOn_append_cons_self,
        List.singleton_append, List.splitOn_cons_eq_if_modifyHead]
      simp

theorem not_mem_of_mem_splitOn {sep : α} {word piece : List α}
    (h : piece ∈ word.splitOn sep) : sep ∉ piece := by
  induction word generalizing piece with
  | nil =>
      simp only [List.splitOn_nil, List.mem_singleton] at h
      simp [h]
  | cons a word ih =>
      rw [List.splitOn_cons_eq_if_modifyHead] at h
      by_cases ha : a = sep
      · simp only [ha, beq_self_eq_true, if_true, List.mem_cons] at h
        rcases h with rfl | h
        · simp
        · exact ih h
      · rw [if_neg (by simpa using ha)] at h
        cases hsplit : word.splitOn sep with
        | nil => exact absurd hsplit (List.splitOn_ne_nil sep word)
        | cons first rest =>
            rw [hsplit, List.modifyHead_cons, List.mem_cons] at h
            rcases h with rfl | h
            · have hfirst : sep ∉ first := ih (by simp [hsplit])
              simp [hfirst, Ne.symm ha]
            · exact ih (by simp [hsplit, h])

/-- Cutting words that were written with a separator behind each. -/
theorem splitOn_terminated {sep : α} {words : List (List α)} (h : ∀ word ∈ words, sep ∉ word) :
    (words.flatMap fun word => word ++ [sep]).splitOn sep = words ++ [[]] := by
  induction words with
  | nil => rfl
  | cons word words ih =>
      have hword : sep ∉ word := h word List.mem_cons_self
      have hrest := ih fun word' hword' => h word' (List.mem_cons_of_mem word hword')
      rw [List.flatMap_cons, List.append_assoc, List.singleton_append,
        List.splitOn_append_cons_self, List.splitOn_eq_singleton hword, hrest]
      rfl

/-- A last word that may contain the separator is all that is cut. -/
theorem splitOn_intercalate_concat {sep : α} {words : List (List α)}
    (h : ∀ word ∈ words, sep ∉ word) (last : List α) :
    ([sep].intercalate (words ++ [last])).splitOn sep = words ++ last.splitOn sep := by
  induction words with
  | nil => simp
  | cons word words ih =>
      have hword : sep ∉ word := h word List.mem_cons_self
      have hrest := ih fun word' hword' => h word' (List.mem_cons_of_mem word hword')
      rw [List.cons_append, List.intercalate_cons_of_ne_nil (by simp), List.append_assoc,
        List.singleton_append, List.splitOn_append_cons_self_of_not_mem hword, hrest]
      rfl

theorem not_mem_of_mem_pieces {sep : α} {words : List (List α)} {piece : List α}
    (h : piece ∈ pieces sep words) : sep ∉ piece := by
  obtain ⟨word, -, hpiece⟩ := List.mem_flatMap.mp h
  exact not_mem_of_mem_splitOn hpiece

theorem pieces_ne_nil {sep : α} {words : List (List α)} (h : words ≠ []) :
    pieces sep words ≠ [] := by
  cases words with
  | nil => exact absurd rfl h
  | cons word words => simp [pieces, List.splitOn_ne_nil]

omit [DecidableEq α] in
/-- Joining after an append is joining the two parts with one more separator. -/
theorem intercalate_append {sep : α} {xs ys : List (List α)} (hx : xs ≠ []) (hy : ys ≠ []) :
    [sep].intercalate (xs ++ ys) = [sep].intercalate xs ++ sep :: [sep].intercalate ys := by
  induction xs with
  | nil => exact absurd rfl hx
  | cons x xs ih =>
      cases xs with
      | nil =>
          cases ys with
          | nil => exact absurd rfl hy
          | cons y ys => simp [List.intercalate]
      | cons x' xs =>
          have htail := ih (by simp)
          simp only [List.cons_append] at htail ⊢
          rw [List.intercalate_cons_cons, htail, List.intercalate_cons_cons]
          simp

/-- Cutting the words into their pieces does not change the joined string. -/
theorem intercalate_pieces (sep : α) (words : List (List α)) :
    [sep].intercalate (pieces sep words) = [sep].intercalate words := by
  induction words with
  | nil => rfl
  | cons word words ih =>
      cases words with
      | nil => simp [pieces, List.intercalate_splitOn]
      | cons word' words =>
          have hcut : pieces sep (word :: word' :: words) =
              word.splitOn sep ++ pieces sep (word' :: words) := rfl
          rw [hcut, intercalate_append (List.splitOn_ne_nil sep word) (pieces_ne_nil (by simp)),
            ih, List.intercalate_splitOn, List.intercalate_cons_cons]
          simp

/-- **What a joined string determines**: two non-empty lists of words join to
the same string exactly when they have the same separator-free pieces. -/
theorem intercalate_eq_iff_pieces {sep : α} {xs ys : List (List α)} (hx : xs ≠ [])
    (hy : ys ≠ []) :
    [sep].intercalate xs = [sep].intercalate ys ↔ pieces sep xs = pieces sep ys := by
  constructor
  · intro h
    rw [← intercalate_pieces sep xs, ← intercalate_pieces sep ys] at h
    rw [← List.splitOn_intercalate sep (fun _ hp => not_mem_of_mem_pieces hp)
        (pieces_ne_nil hx), h,
      List.splitOn_intercalate sep (fun _ hp => not_mem_of_mem_pieces hp) (pieces_ne_nil hy)]
  · intro h
    rw [← intercalate_pieces sep xs, h, intercalate_pieces]

omit [DecidableEq α] in
/-- What stands before the first separator, and what stands behind it. -/
theorem cut_unique {sep : α} {before before' behind behind' : List α} (h : sep ∉ before)
    (h' : sep ∉ before') (heq : before ++ sep :: behind = before' ++ sep :: behind') :
    before = before' ∧ behind = behind' := by
  induction before generalizing before' with
  | nil =>
      cases before' with
      | nil => exact ⟨rfl, (List.cons.inj heq).2⟩
      | cons a before' =>
          obtain rfl : sep = a := (List.cons.inj heq).1
          exact absurd List.mem_cons_self h'
  | cons a before ih =>
      cases before' with
      | nil =>
          obtain rfl : a = sep := (List.cons.inj heq).1
          exact absurd List.mem_cons_self h
      | cons a' before' =>
          obtain ⟨rfl, htail⟩ := List.cons.inj heq
          obtain ⟨rfl, hbehind⟩ := ih (fun hm => h (List.mem_cons_of_mem a hm))
            (fun hm => h' (List.mem_cons_of_mem a hm)) htail
          exact ⟨rfl, hbehind⟩

end Foundation
end Artifacts
