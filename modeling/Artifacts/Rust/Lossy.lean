import Artifacts.Rust.Lines

/-!
# Text out of arbitrary bytes

`String::from_utf8_lossy`: what is UTF-8 stays, and each maximal piece that cannot be
continued to a character becomes one replacement character.

`characterTail` follows the table of well-formed byte sequences, by the first byte and the bounds of
the second.  `fromUtf8Lossy_asBytes` says that text is left as it is, and `mem_lossyBytes` that
nothing else gets into the result but the replacement.
-/

namespace Artifacts
namespace Rust

/-- A continuation byte. -/
def isContinuation (b : UInt8) : Bool := 0x80 ≤ b && b ≤ 0xbf

/-- The second bytes that may follow a first one, and the number of further bytes. -/
def secondByte (first : UInt8) : Option (UInt8 × UInt8 × Nat) :=
  if 0xc2 ≤ first && first ≤ 0xdf then some (0x80, 0xbf, 0)
  else if first = 0xe0 then some (0xa0, 0xbf, 1)
  else if first = 0xed then some (0x80, 0x9f, 1)
  else if 0xe1 ≤ first && first ≤ 0xef then some (0x80, 0xbf, 1)
  else if first = 0xf0 then some (0x90, 0xbf, 2)
  else if 0xf1 ≤ first && first ≤ 0xf3 then some (0x80, 0xbf, 2)
  else if first = 0xf4 then some (0x80, 0x8f, 2)
  else none

/-- Up to `n` continuation bytes, and whether all of them are there. -/
def continuations : Nat → List UInt8 → List UInt8 × Bool
  | 0, _ => ([], true)
  | _ + 1, [] => ([], false)
  | n + 1, b :: rest =>
      if isContinuation b then
        let (more, complete) := continuations n rest
        (b :: more, complete)
      else
        ([], false)

/-- The bytes of one step behind the first byte, and whether they make a character. -/
def characterTail (first : UInt8) (rest : List UInt8) : List UInt8 × Bool :=
  if first < 0x80 then
    ([], true)
  else
    match secondByte first, rest with
    | some (low, high, n), b :: rest =>
        if low ≤ b && b ≤ high then
          let (more, complete) := continuations n rest
          (b :: more, complete)
        else
          ([], false)
    | _, _ => ([], false)

/-- `U+FFFD`. -/
def replacement : List UInt8 := [0xef, 0xbf, 0xbd]

/-- The bytes of the lossy text, with a bound on the number of steps. -/
def lossyBytes : Nat → List UInt8 → List UInt8
  | 0, _ => []
  | _ + 1, [] => []
  | fuel + 1, b :: rest =>
      let (tail, complete) := characterTail b rest
      (if complete then b :: tail else replacement) ++ lossyBytes fuel (rest.drop tail.length)

/-- `String::from_utf8_lossy`. -/
def fromUtf8Lossy (bytes : List UInt8) : String :=
  (fromUtf8 (lossyBytes bytes.length bytes)).getD ""

example : fromUtf8Lossy ([0x61, 0xe2, 0x82, 0x62, 0xff] ++ asBytes "é") = "a\uFFFDb\uFFFDé" := by
  decide +kernel

/-! ### What is kept -/

theorem toNat_ofNat_of_lt {n : Nat} (h : n < 256) : (UInt8.ofNat n).toNat = n := by
  rw [UInt8.toNat_ofNat']
  omega

/-- The ranges of the second byte, in numbers. -/
theorem secondByte_of_toNat {b : UInt8} {first : Nat} (hb : b.toNat = first) :
    secondByte b =
      if 0xc2 ≤ first ∧ first ≤ 0xdf then some (0x80, 0xbf, 0)
      else if first = 0xe0 then some (0xa0, 0xbf, 1)
      else if first = 0xed then some (0x80, 0x9f, 1)
      else if 0xe1 ≤ first ∧ first ≤ 0xef then some (0x80, 0xbf, 1)
      else if first = 0xf0 then some (0x90, 0xbf, 2)
      else if 0xf1 ≤ first ∧ first ≤ 0xf3 then some (0x80, 0xbf, 2)
      else if first = 0xf4 then some (0x80, 0x8f, 2)
      else none := by
  subst hb
  unfold secondByte
  simp only [Bool.and_eq_true, decide_eq_true_eq, UInt8.le_iff_toNat_le, ← UInt8.toNat_inj]
  rfl

theorem isContinuation_ofNat (v : Nat) : isContinuation (UInt8.ofNat (v % 64 + 128)) = true := by
  unfold isContinuation
  rw [Bool.and_eq_true, decide_eq_true_eq, decide_eq_true_eq, UInt8.le_iff_toNat_le,
    UInt8.le_iff_toNat_le, toNat_ofNat_of_lt (by omega)]
  exact ⟨Nat.le_add_left 128 _, show v % 64 + 128 ≤ 191 by omega⟩

theorem continuations_append {more : List UInt8} (h : ∀ b ∈ more, isContinuation b = true)
    (rest : List UInt8) : continuations more.length (more ++ rest) = (more, true) := by
  induction more with
  | nil => rfl
  | cons b more ih =>
      rw [List.length_cons, List.cons_append, continuations, if_pos (h b List.mem_cons_self),
        ih fun b' hb' => h b' (List.mem_cons_of_mem b hb')]

/-- A first byte, a second one in its range and as many more as it announces make a character. -/
theorem characterTail_append {b b' low high : UInt8} {more : List UInt8} (hb : ¬ b < 0x80)
    (hsecond : secondByte b = some (low, high, more.length)) (hlow : low ≤ b') (hhigh : b' ≤ high)
    (hmore : ∀ b ∈ more, isContinuation b = true) (rest : List UInt8) :
    characterTail b (b' :: more ++ rest) = (b' :: more, true) := by
  unfold characterTail
  rw [if_neg hb, hsecond]
  show (if low ≤ b' && b' ≤ high then
    ((b' :: (continuations more.length (more ++ rest)).1),
      (continuations more.length (more ++ rest)).2) else ([], false)) = _
  rw [if_pos (by rw [decide_eq_true hlow, decide_eq_true hhigh]; rfl),
    continuations_append hmore]

/-- **A character is one step**: its first byte, and the bytes behind it. -/
theorem characterTail_encode (c : Char) (rest : List UInt8) :
    ∃ b tail, String.utf8EncodeChar c = b :: tail ∧ characterTail b (tail ++ rest) = (tail, true) := by
  have hvalid : c.val.toNat < 0xd800 ∨ 0xdfff < c.val.toNat ∧ c.val.toNat < 0x110000 := c.valid
  have hlow : ∀ {low : UInt8} {n : Nat}, low.toNat ≤ n → n < 256 → low ≤ UInt8.ofNat n := by
    intro low n hlow hn
    rw [UInt8.le_iff_toNat_le, toNat_ofNat_of_lt hn]
    exact hlow
  have hhigh : ∀ {high : UInt8} {n : Nat}, n ≤ high.toNat → UInt8.ofNat n ≤ high := by
    intro high n hhigh
    rw [UInt8.le_iff_toNat_le, toNat_ofNat_of_lt (by have := high.toNat_lt; omega)]
    exact hhigh
  have hlarge : ∀ {n : Nat}, 128 ≤ n → n < 256 → ¬ UInt8.ofNat n < 0x80 := by
    intro n hn hn'
    rw [UInt8.lt_iff_toNat_lt, toNat_ofNat_of_lt hn']
    exact Nat.not_lt.mpr hn
  generalize hv : c.val.toNat = v at hvalid
  unfold String.utf8EncodeChar
  rw [hv]
  dsimp only
  -- by the number of bytes; the bounds of the second byte differ with the first
  split_ifs with h1 h2 h3
  · refine ⟨_, [], rfl, ?_⟩
    unfold characterTail
    rw [if_pos]
    rw [UInt8.lt_iff_toNat_lt, toNat_ofNat_of_lt (by omega)]
    exact Nat.lt_succ_of_le h1
  · have hsecond := secondByte_of_toNat (toNat_ofNat_of_lt
      (show v / 64 % 0x20 + 0xc0 < 256 by omega))
    rw [if_pos (by omega)] at hsecond
    exact ⟨_, _, rfl, @characterTail_append _ _ _ _ [] (hlarge (by omega) (by omega)) hsecond
      (hlow (by simp only [UInt8.reduceToNat]; omega) (by omega))
        (hhigh (by simp only [UInt8.reduceToNat]; omega)) nofun rest⟩
  · have hmore : ∀ b ∈ [UInt8.ofNat (v % 64 + 128)], isContinuation b = true := by
      intro b hb
      obtain rfl := List.mem_singleton.mp hb
      exact isContinuation_ofNat v
    have hsecond := secondByte_of_toNat (toNat_ofNat_of_lt
      (show v / 4096 % 0x10 + 0xe0 < 256 by omega))
    rw [if_neg (by omega)] at hsecond
    refine ⟨_, _, rfl, ?_⟩
    split_ifs at hsecond
    · exact characterTail_append (hlarge (by omega) (by omega)) hsecond
        (hlow (by simp only [UInt8.reduceToNat]; omega) (by omega))
        (hhigh (by simp only [UInt8.reduceToNat]; omega)) hmore rest
    · exact characterTail_append (hlarge (by omega) (by omega)) hsecond
        (hlow (by simp only [UInt8.reduceToNat]; omega) (by omega))
        (hhigh (by simp only [UInt8.reduceToNat]; omega)) hmore rest
    · exact characterTail_append (hlarge (by omega) (by omega)) hsecond
        (hlow (by simp only [UInt8.reduceToNat]; omega) (by omega))
        (hhigh (by simp only [UInt8.reduceToNat]; omega)) hmore rest
    all_goals omega
  · have hmore : ∀ b ∈ [UInt8.ofNat (v / 64 % 64 + 128), UInt8.ofNat (v % 64 + 128)],
        isContinuation b = true := by
      intro b hb
      simp only [List.mem_cons, List.not_mem_nil, or_false] at hb
      rcases hb with rfl | rfl
      · exact isContinuation_ofNat _
      · exact isContinuation_ofNat v
    have hsecond := secondByte_of_toNat (toNat_ofNat_of_lt
      (show v / 262144 % 0x08 + 0xf0 < 256 by omega))
    rw [if_neg (by omega), if_neg (by omega), if_neg (by omega), if_neg (by omega)] at hsecond
    refine ⟨_, _, rfl, ?_⟩
    split_ifs at hsecond
    · exact characterTail_append (hlarge (by omega) (by omega)) hsecond
        (hlow (by simp only [UInt8.reduceToNat]; omega) (by omega))
        (hhigh (by simp only [UInt8.reduceToNat]; omega)) hmore rest
    · exact characterTail_append (hlarge (by omega) (by omega)) hsecond
        (hlow (by simp only [UInt8.reduceToNat]; omega) (by omega))
        (hhigh (by simp only [UInt8.reduceToNat]; omega)) hmore rest
    · exact characterTail_append (hlarge (by omega) (by omega)) hsecond
        (hlow (by simp only [UInt8.reduceToNat]; omega) (by omega))
        (hhigh (by simp only [UInt8.reduceToNat]; omega)) hmore rest
    all_goals omega

theorem lossyBytes_encode (cs : List Char) {fuel : Nat}
    (hfuel : (cs.flatMap String.utf8EncodeChar).length ≤ fuel) :
    lossyBytes fuel (cs.flatMap String.utf8EncodeChar) = cs.flatMap String.utf8EncodeChar := by
  induction cs generalizing fuel with
  | nil => cases fuel <;> rfl
  | cons c cs ih =>
      obtain ⟨b, tail, hencode, htail⟩ :=
        characterTail_encode c (cs.flatMap String.utf8EncodeChar)
      rw [List.flatMap_cons, hencode] at hfuel ⊢
      cases fuel with
      | zero => simp at hfuel
      | succ fuel =>
          rw [List.cons_append, lossyBytes, htail]
          dsimp only
          rw [if_pos rfl, List.drop_left, ih]
          · rfl
          · simp only [List.cons_append, List.length_cons, List.length_append] at hfuel
            omega

/-- **UTF-8 stays as it is.** -/
theorem fromUtf8Lossy_asBytes (s : String) : fromUtf8Lossy (asBytes s) = s := by
  unfold fromUtf8Lossy
  have hsame : lossyBytes (asBytes s).length (asBytes s) = asBytes s := by
    rw [asBytes_eq_flatMap]
    exact lossyBytes_encode s.toList (Nat.le_refl _)
  rw [hsame, fromUtf8_asBytes, Option.getD_some]

theorem mem_continuations {n : Nat} {bytes : List UInt8} {b : UInt8}
    (h : b ∈ (continuations n bytes).1) : b ∈ bytes := by
  induction n generalizing bytes with
  | zero => cases h
  | succ n ih =>
      cases bytes with
      | nil => cases h
      | cons first rest =>
          rw [continuations] at h
          split_ifs at h
          · rcases List.mem_cons.mp h with rfl | h
            · exact List.mem_cons_self
            · exact List.mem_cons_of_mem first (ih h)
          · cases h

theorem mem_characterTail {first b : UInt8} {rest : List UInt8}
    (h : b ∈ (characterTail first rest).1) : b ∈ rest := by
  unfold characterTail at h
  split at h
  · cases h
  · split at h
    · split_ifs at h
      · rcases List.mem_cons.mp h with rfl | h
        · exact List.mem_cons_self
        · exact List.mem_cons_of_mem _ (mem_continuations h)
      · cases h
    · cases h

/-- The lossy text has the bytes of the input and those of the replacement character. -/
theorem mem_lossyBytes {fuel : Nat} {bytes : List UInt8} {b : UInt8}
    (h : b ∈ lossyBytes fuel bytes) : b ∈ bytes ∨ b ∈ replacement := by
  induction fuel generalizing bytes with
  | zero => cases h
  | succ fuel ih =>
      cases bytes with
      | nil => cases h
      | cons first rest =>
          rw [lossyBytes] at h
          rcases List.mem_append.mp h with h | h
          · split_ifs at h
            · rcases List.mem_cons.mp h with rfl | h
              · exact Or.inl List.mem_cons_self
              · exact Or.inl (List.mem_cons_of_mem first (mem_characterTail h))
            · exact Or.inr h
          · rcases ih h with h | h
            · exact Or.inl (List.mem_cons_of_mem first (List.mem_of_mem_drop h))
            · exact Or.inr h

/-- An ASCII character of the lossy text is a byte of the input. -/
theorem mem_of_mem_fromUtf8Lossy {bytes : List UInt8} {a : Char} (ha : a.toNat < 128)
    (h : a ∈ (fromUtf8Lossy bytes).toList) : UInt8.ofNat a.toNat ∈ bytes := by
  unfold fromUtf8Lossy at h
  cases htext : fromUtf8 (lossyBytes bytes.length bytes) with
  | none =>
      rw [htext] at h
      cases h
  | some s =>
      rw [htext, Option.getD_some] at h
      have hbyte := (mem_asBytes_ascii ha).mpr h
      rw [asBytes_of_fromUtf8 htext] at hbyte
      rcases mem_lossyBytes hbyte with hbyte | hbyte
      · exact hbyte
      · have hsmall : (UInt8.ofNat a.toNat).toNat < 128 := by
          rw [toNat_ofNat_of_lt (by omega)]
          exact ha
        simp only [replacement, List.mem_cons, List.not_mem_nil, or_false] at hbyte
        rcases hbyte with hbyte | hbyte | hbyte <;> rw [hbyte] at hsmall <;>
          exact absurd hsmall (by decide)

end Rust
end Artifacts
