import Artifacts.Foundation.Separators
import Artifacts.Rust.Bytes
import Artifacts.Rust.Text

/-!
# Lines of a UTF-8 buffer

The output of a subprocess is decoded as a whole (`String::from_utf8`), cut into
lines, and each line into words.  A newline or a space is a single byte that
occurs in no longer encoding, so cutting the text is cutting the bytes.

`lines` is `str::lines`, which drops one carriage return in front of a newline.  `utf8Encode_cut` is
the fact about UTF-8 behind all of it, for every ASCII character.
-/

namespace Artifacts
namespace Rust

/-- A line without its carriage return. -/
def stripCr (line : List Char) : List Char :=
  if line.getLast? = some '\r' then line.dropLast else line

/-- `str::lines`: every newline ends a line, a last line without one counts. -/
def lines (s : String) : List String :=
  let cut := s.toList.splitOn '\n'
  cut.dropLast.map (fun line => String.ofList (stripCr line)) ++
    match cut.getLast? with
    | some (c :: rest) => [String.ofList (c :: rest)]
    | _ => []

/-- `str::split_whitespace().next()`. -/
def firstWord (s : String) : Option String :=
  match (s.toList.dropWhile isWhitespace).takeWhile (fun c => !isWhitespace c) with
  | [] => none
  | word => some (String.ofList word)

/-! ### Lines -/

/-- Lines written with a newline each are read back, up to carriage returns. -/
theorem lines_flatMap {ls : List (List Char)} (h : ∀ l ∈ ls, '\n' ∉ l) :
    lines (String.ofList (ls.flatMap fun l => l ++ ['\n'])) =
      ls.map fun l => String.ofList (stripCr l) := by
  simp [lines, Foundation.splitOn_terminated h]

/-- A line written as two fields is cut where the first one ends. -/
theorem splitOnce_append {head between : String} {sep : Char} (tail : String)
    (hbetween : between.toList = [sep]) (hhead : sep ∉ head.toList) :
    splitOnce (head ++ between ++ tail) sep = some (head, tail) := by
  have hlist : (head ++ between ++ tail).toList = head.toList ++ sep :: tail.toList := by
    simp [hbetween]
  have hne : ∀ c ∈ head.toList, (c != sep) = true := by
    intro c hc
    rw [bne_iff_ne]
    rintro rfl
    exact hhead hc
  unfold splitOnce
  rw [hlist, if_pos (List.mem_append_right _ List.mem_cons_self),
    List.takeWhile_append_of_pos hne, List.dropWhile_append_of_pos hne,
    List.takeWhile_cons_of_neg (by simp), List.dropWhile_cons_of_neg (by simp),
    List.append_nil, List.drop_one, List.tail_cons, String.ofList_toList, String.ofList_toList]

/-- The two parts, and the separator between them. -/
theorem splitOnce_eq_some {s head tail : String} {sep : Char}
    (h : splitOnce s sep = some (head, tail)) :
    s = head ++ String.singleton sep ++ tail := by
  unfold splitOnce at h
  split_ifs at h with hmem
  cases h
  rw [← String.toList_inj, String.toList_append, String.toList_append, String.toList_ofList,
    String.toList_ofList, String.toList_singleton, List.append_assoc, List.singleton_append]
  have hcut := @List.takeWhile_append_dropWhile Char (· != sep) s.toList
  cases hdrop : s.toList.dropWhile (· != sep) with
  | nil =>
      have hall := List.dropWhile_eq_nil_iff.mp hdrop sep hmem
      simp at hall
  | cons c rest =>
      have hc : c = sep := by
        have hhead := List.head?_dropWhile_not (· != sep) s.toList
        rw [hdrop] at hhead
        simpa using hhead
      rw [hdrop, hc] at hcut
      simpa using hcut.symm

/-- The first word of a line is what stands before its first space. -/
theorem firstWord_append {word rest : List Char} (hne : word ≠ [])
    (hword : ∀ c ∈ word, isWhitespace c = false)
    (hrest : ∀ c ∈ rest.head?, isWhitespace c = true) :
    firstWord (String.ofList (word ++ rest)) = some (String.ofList word) := by
  have hdrop : (word ++ rest).dropWhile isWhitespace = word ++ rest := by
    cases word with
    | nil => exact absurd rfl hne
    | cons c word =>
        rw [List.cons_append, List.dropWhile_cons, hword c List.mem_cons_self]
        rfl
  have htake : (word ++ rest).takeWhile (fun c => !isWhitespace c) = word := by
    rw [List.takeWhile_append_of_pos (by simpa using hword)]
    cases rest with
    | nil => simp
    | cons c rest =>
        have hc : isWhitespace c = true := hrest c rfl
        simp [hc]
  unfold firstWord
  rw [String.toList_ofList, hdrop, htake]
  cases word with
  | nil => exact absurd rfl hne
  | cons c word => rfl

/-- Only the end of a line is cut. -/
theorem stripCr_append {word rest : List Char} (hword : '\r' ∉ word)
    (hrest : ∀ c ∈ rest.head?, isWhitespace c = true) :
    ∃ rest', stripCr (word ++ rest) = word ++ rest' ∧
      ∀ c ∈ rest'.head?, isWhitespace c = true := by
  unfold stripCr
  split_ifs with hlast
  · cases rest with
    | nil =>
        rw [List.append_nil] at hlast
        exact absurd (List.mem_of_getLast? hlast) hword
    | cons c rest =>
        refine ⟨(c :: rest).dropLast, List.dropLast_append_of_ne_nil (List.cons_ne_nil c rest), ?_⟩
        cases rest with
        | nil => simp
        | cons d rest => exact hrest
  · exact ⟨rest, rfl, hrest⟩

/-! ### Cutting bytes -/

theorem asBytes_eq_flatMap (s : String) : asBytes s = s.toList.flatMap String.utf8EncodeChar := by
  have h : s.toByteArray = s.toList.utf8Encode := String.utf8Encode_toList.symm
  unfold asBytes
  rw [h, List.utf8Encode]
  simp

theorem asBytes_ofList (l : List Char) :
    asBytes (String.ofList l) = l.flatMap String.utf8EncodeChar := by
  rw [asBytes_eq_flatMap, String.toList_ofList]

/-- A character is encoded as itself below 128, else as bytes from 128 on. -/
theorem utf8EncodeChar_cases (c : Char) :
    (c.toNat < 128 ∧ String.utf8EncodeChar c = [UInt8.ofNat c.toNat]) ∨
      ∀ b ∈ String.utf8EncodeChar c, 128 ≤ b.toNat := by
  have hmax : c.toNat ≤ 0x10ffff := by
    have hvalid := c.valid
    simp only [UInt32.isValidChar, Nat.isValidChar] at hvalid
    simp only [Char.toNat]
    omega
  simp only [Char.toNat] at hmax ⊢
  simp only [String.utf8EncodeChar]
  split_ifs with h1 h2 h3
  · exact Or.inl ⟨by omega, rfl⟩
  all_goals
    refine Or.inr fun b hb => ?_
    simp only [List.mem_cons, List.not_mem_nil, or_false] at hb
  · rcases hb with rfl | rfl <;> rw [UInt8.toNat_ofNat'] <;> omega
  · rcases hb with rfl | rfl | rfl <;> rw [UInt8.toNat_ofNat'] <;> omega
  · rcases hb with rfl | rfl | rfl | rfl <;> rw [UInt8.toNat_ofNat'] <;> omega

/-- **An ASCII byte cuts an encoding at a character.** The induction is on the
characters: either the byte stands behind the first one, or it is the first one. -/
theorem utf8Encode_cut {cs : List Char} {xs ys : List UInt8} {a : Char} (ha : a.toNat < 128)
    (h : cs.flatMap String.utf8EncodeChar = xs ++ UInt8.ofNat a.toNat :: ys) :
    ∃ s u, cs = s ++ a :: u ∧ s.flatMap String.utf8EncodeChar = xs ∧
      u.flatMap String.utf8EncodeChar = ys := by
  induction cs generalizing xs with
  | nil => simp at h
  | cons c cs ih =>
      have hbyte : (UInt8.ofNat a.toNat).toNat = a.toNat := by
        rw [UInt8.toNat_ofNat']
        omega
      rw [List.flatMap_cons] at h
      rcases List.append_eq_append_iff.mp h with ⟨xs', rfl, hrest⟩ | ⟨ys', hc, hrest⟩
      · obtain ⟨s, u, rfl, hs, hu⟩ := ih hrest
        exact ⟨c :: s, u, rfl, by rw [List.flatMap_cons, hs], hu⟩
      · cases ys' with
        | nil =>
            have hnext : cs.flatMap String.utf8EncodeChar = [] ++ UInt8.ofNat a.toNat :: ys :=
              hrest.symm
            obtain ⟨s, u, rfl, hs, hu⟩ := ih hnext
            refine ⟨c :: s, u, rfl, ?_, hu⟩
            rw [List.flatMap_cons, hs, hc, List.append_nil, List.append_nil]
        | cons b ys' =>
            rw [List.cons_append] at hrest
            obtain ⟨rfl, rfl⟩ := List.cons.inj hrest
            -- the byte lies in the encoding of `c`, so it is the whole encoding
            rcases utf8EncodeChar_cases c with ⟨hsmall, hself⟩ | hbig
            · rw [hself] at hc
              have hxs : xs = [] := by
                cases xs with
                | nil => rfl
                | cons x xs => simp at hc
              subst hxs
              have hys : ys' = [] := by simpa using (List.cons.inj hc).2.symm
              have hca : c = a := by
                have heq := congrArg UInt8.toNat (List.cons.inj hc).1
                rw [hbyte, UInt8.toNat_ofNat'] at heq
                exact Char.toNat_inj.mp (by omega)
              subst hys hca
              exact ⟨[], cs, rfl, rfl, rfl⟩
            · have := hbig (UInt8.ofNat a.toNat) (by rw [hc]; simp)
              omega

theorem utf8EncodeChar_ascii {a : Char} (ha : a.toNat < 128) :
    String.utf8EncodeChar a = [UInt8.ofNat a.toNat] := by
  simp only [String.utf8EncodeChar]
  exact if_pos (show a.val.toNat ≤ 0x7f by simp only [Char.toNat] at ha; omega)

/-- An ASCII text is a byte for each character. -/
theorem asBytes_of_ascii {s : String} (h : ∀ c ∈ s.toList, c.toNat < 128) :
    asBytes s = s.toList.map fun c => UInt8.ofNat c.toNat := by
  rw [asBytes_eq_flatMap, List.map_eq_flatMap]
  exact List.flatMap_congr fun c hc => utf8EncodeChar_ascii (h c hc)

theorem utf8ByteSize_of_ascii {s : String} (h : ∀ c ∈ s.toList, c.toNat < 128) :
    s.utf8ByteSize = s.toList.length := by
  rw [← length_asBytes, asBytes_of_ascii h, List.length_map]

/-- An ASCII byte of an encoding is a character of the text. -/
theorem mem_asBytes_ascii {s : String} {a : Char} (ha : a.toNat < 128) :
    UInt8.ofNat a.toNat ∈ asBytes s ↔ a ∈ s.toList := by
  rw [asBytes_eq_flatMap, List.mem_flatMap]
  constructor
  · rintro ⟨c, hc, hbyte⟩
    have hsize : (UInt8.ofNat a.toNat).toNat = a.toNat := by
      rw [UInt8.toNat_ofNat']
      omega
    rcases utf8EncodeChar_cases c with ⟨hsmall, hself⟩ | hbig
    · rw [hself, List.mem_singleton] at hbyte
      have heq := congrArg UInt8.toNat hbyte
      rw [hsize, UInt8.toNat_ofNat'] at heq
      have hac : a = c := Char.toNat_inj.mp (by omega)
      exact hac ▸ hc
    · have hlarge := hbig _ hbyte
      omega
  · intro h
    exact ⟨a, h, by rw [utf8EncodeChar_ascii ha]; exact List.mem_singleton.mpr rfl⟩

/-- A buffer cut at an ASCII byte is UTF-8 exactly when both parts are. -/
theorem fromUtf8_cut {xs ys : List UInt8} {a : Char} (ha : a.toNat < 128) {t : String} :
    fromUtf8 (xs ++ UInt8.ofNat a.toNat :: ys) = some t ↔
      ∃ s u, fromUtf8 xs = some s ∧ fromUtf8 ys = some u ∧
        t = String.ofList (s.toList ++ a :: u.toList) := by
  constructor
  · intro h
    have hbytes := asBytes_of_fromUtf8 h
    rw [asBytes_eq_flatMap] at hbytes
    obtain ⟨s, u, hsplit, hs, hu⟩ := utf8Encode_cut ha hbytes
    refine ⟨String.ofList s, String.ofList u, ?_, ?_, ?_⟩
    · rw [← hs, ← asBytes_ofList, fromUtf8_asBytes]
    · rw [← hu, ← asBytes_ofList, fromUtf8_asBytes]
    · rw [String.toList_ofList, String.toList_ofList, ← hsplit, String.ofList_toList]
  · rintro ⟨s, u, hs, hu, rfl⟩
    rw [← asBytes_of_fromUtf8 hs, ← asBytes_of_fromUtf8 hu, asBytes_eq_flatMap s,
      asBytes_eq_flatMap u, ← List.singleton_append, ← utf8EncodeChar_ascii ha, ← List.flatMap_cons,
      ← List.flatMap_append, ← asBytes_ofList, fromUtf8_asBytes]

end Rust
end Artifacts
