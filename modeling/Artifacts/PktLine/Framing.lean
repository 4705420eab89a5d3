import Artifacts.PktLine
import Artifacts.Rust.Lines
import Mathlib.Algebra.Ring.Nat

/-!
# The framing of a pkt-line stream

Every list of pkt-lines within the cap is read back from its encoding.  In the
other direction `read` is stricter than the format except in one place: the
integer parser behind it takes a plus sign and three digits for a length.

`ReadsStrictly` is what the protocol asks of a reader: it accepts nothing but four hexadecimal
digits, and takes as many bytes as they say.  `SignedLength` is the exception, and the only one.
-/

namespace Artifacts
namespace Pkt

open Foundation Rust

/-- The bytes a pkt-line is written as. -/
def encode : PktLine → List UInt8
  | .flush => flushBytes
  | .delim => asBytes "0001"
  | .respEnd => asBytes "0002"
  | .data payload => dataFrame payload

/-- A data line is no longer than the cap. -/
def WithinCap : PktLine → Prop
  | .data payload => payload.length ≤ pktLineMaxPayload
  | _ => True

/-- The value of a byte that is a hexadecimal digit. -/
def hexDigit (b : UInt8) : Option Nat :=
  toDigit16 (Char.ofNat b.toNat)

/-- One hexadecimal byte more, with `none` for a byte that is no digit. -/
def hexStep (acc : Option Nat) (b : UInt8) : Option Nat :=
  match acc, hexDigit b with
  | some n, some d => some (n * 16 + d)
  | _, _ => none

/-- The number that bytes stand for when all of them are hexadecimal digits. -/
def hexValue (bytes : List UInt8) : Option Nat :=
  bytes.foldl hexStep (some 0)

/-- `read` accepts `buf` only behind four hexadecimal digits, and takes the number of
bytes they stand for, which is four for a marker. -/
def ReadsStrictly (buf : List UInt8) : Prop :=
  ∀ frame rest, read buf = .ok (frame, rest) →
    ∃ n taken, hexValue (buf.take 4) = some n ∧ buf = taken ++ rest ∧
      taken.length = if n < 3 then 4 else n

/-- The buffer begins with a plus sign and three hexadecimal digits, and they stand for a
marker or for a length that the buffer has. -/
def SignedLength (buf : List UInt8) : Prop :=
  ∃ digits rest n, buf = UInt8.ofNat '+'.toNat :: (digits ++ rest) ∧ digits.length = 3 ∧
    hexValue digits = some n ∧ n ≠ 3 ∧ n ≤ buf.length

/-! ### Digits as bytes and as characters -/

/-- The character of an ASCII byte. -/
def asChar (b : UInt8) : Char :=
  Char.ofNat b.toNat

theorem toNat_asChar (b : UInt8) : (asChar b).toNat = b.toNat := by
  have hb := b.toNat_lt
  have hvalid : b.toNat.isValidChar := Or.inl (by omega)
  change (Char.ofNat b.toNat).toNat = b.toNat
  rw [Char.ofNat, dif_pos hvalid]
  rfl

theorem asChar_ofNat {c : Char} (hc : c.toNat < 128) : asChar (UInt8.ofNat c.toNat) = c := by
  apply Char.toNat_inj.mp
  rw [toNat_asChar, UInt8.toNat_ofNat']
  omega

theorem ofNat_asChar (b : UInt8) : UInt8.ofNat (asChar b).toNat = b := by
  rw [toNat_asChar]
  exact UInt8.ofNat_toNat

theorem ascii_of_toDigit16 {c : Char} {d : Nat} (h : toDigit16 c = some d) : c.toNat < 128 := by
  simp only [toDigit16, isAsciiDigit, Char.le_def, UInt32.le_iff_toNat_le] at h
  simp only [Char.toNat]
  split_ifs at h with h1 h2 h3
  all_goals
    simp_all
    omega

theorem toDigit16_lt {c : Char} {d : Nat} (h : toDigit16 c = some d) : d < 16 := by
  have hall : ∀ n : Fin 128, (toDigit16 (Char.ofNat n.val)).all (fun d => decide (d < 16)) = true := by
    decide +kernel
  have hself : Char.ofNat c.toNat = c := Char.ofNat_toNat c
  have hdigit := hall ⟨c.toNat, ascii_of_toDigit16 h⟩
  rw [hself, h] at hdigit
  exact of_decide_eq_true hdigit

theorem ascii_of_hexDigit {b : UInt8} {d : Nat} (h : hexDigit b = some d) : b.toNat < 128 := by
  have hchar := ascii_of_toDigit16 h
  rwa [show (Char.ofNat b.toNat).toNat = b.toNat from toNat_asChar b] at hchar

/-- ASCII bytes are UTF-8, one byte a character. -/
theorem fromUtf8_ascii {bytes : List UInt8} (h : ∀ b ∈ bytes, b.toNat < 128) :
    fromUtf8 bytes = some (String.ofList (bytes.map asChar)) := by
  have hbytes : asBytes (String.ofList (bytes.map asChar)) = bytes := by
    rw [asBytes_ofList, List.flatMap_map]
    induction bytes with
    | nil => rfl
    | cons b bytes ih =>
        have hb : (asChar b).toNat < 128 := by
          rw [toNat_asChar]
          exact h b List.mem_cons_self
        rw [List.flatMap_cons, utf8EncodeChar_ascii hb, ofNat_asChar,
          ih fun b hb => h b (List.mem_cons_of_mem _ hb)]
        rfl
  rw [← fromUtf8_asBytes, hbytes]

/-- Conversely a text of ASCII characters has one byte a character. -/
theorem bytes_of_ascii {bytes : List UInt8} {s : String} (hs : fromUtf8 bytes = some s)
    (h : ∀ c ∈ s.toList, c.toNat < 128) : bytes = s.toList.map fun c => UInt8.ofNat c.toNat := by
  rw [← asBytes_of_fromUtf8 hs, asBytes_eq_flatMap]
  generalize s.toList = cs at h
  induction cs with
  | nil => rfl
  | cons c cs ih =>
      rw [List.flatMap_cons, utf8EncodeChar_ascii (h c List.mem_cons_self),
        ih fun c hc => h c (List.mem_cons_of_mem _ hc)]
      rfl

/-! ### The integer parser -/

@[simp] theorem foldl_u16Digit_none (cs : List Char) : cs.foldl u16Digit none = none := by
  induction cs with
  | nil => rfl
  | cons c cs ih => exact ih

@[simp] theorem foldl_hexStep_none (bytes : List UInt8) : bytes.foldl hexStep none = none := by
  induction bytes with
  | nil => rfl
  | cons b bytes ih => exact ih

/-- The digits of a number that the parser returns. -/
theorem digits_of_foldl {cs : List Char} {n v : Nat} (h : cs.foldl u16Digit (some n) = some v) :
    ∀ c ∈ cs, ∃ d, toDigit16 c = some d := by
  induction cs generalizing n with
  | nil => exact nofun
  | cons c cs ih =>
      rw [List.foldl_cons] at h
      cases hd : toDigit16 c with
      | none =>
          have hstep : u16Digit (some n) c = none := by simp [u16Digit, hd]
          rw [hstep, foldl_u16Digit_none] at h
          cases h
      | some d =>
          have hstep : u16Digit (some n) c =
              if n * 16 + d < 65536 then some (n * 16 + d) else none := by simp [u16Digit, hd]
          rw [hstep] at h
          split_ifs at h
          · intro x hx
            rcases List.mem_cons.mp hx with rfl | hx
            · exact ⟨d, hd⟩
            · exact ih h x hx
          · rw [foldl_u16Digit_none] at h
            cases h

theorem digits_of_foldl_hex {bytes : List UInt8} {n v : Nat}
    (h : bytes.foldl hexStep (some n) = some v) : ∀ b ∈ bytes, ∃ d, hexDigit b = some d := by
  induction bytes generalizing n with
  | nil => exact nofun
  | cons b bytes ih =>
      rw [List.foldl_cons] at h
      cases hd : hexDigit b with
      | none =>
          have hstep : hexStep (some n) b = none := by simp [hexStep, hd]
          rw [hstep, foldl_hexStep_none] at h
          cases h
      | some d =>
          have hstep : hexStep (some n) b = some (n * 16 + d) := by simp [hexStep, hd]
          rw [hstep] at h
          intro x hx
          rcases List.mem_cons.mp hx with rfl | hx
          · exact ⟨d, hd⟩
          · exact ih h x hx

/-- As long as no digit overflows, the parser computes the value of the digits. -/
theorem foldl_u16Digit_map {bytes : List UInt8} {n : Nat}
    (hroom : (n + 1) * 16 ^ bytes.length ≤ 65536) :
    (bytes.map asChar).foldl u16Digit (some n) = bytes.foldl hexStep (some n) := by
  induction bytes generalizing n with
  | nil => rfl
  | cons b bytes ih =>
      rw [List.map_cons, List.foldl_cons, List.foldl_cons]
      cases hd : hexDigit b with
      | none =>
          have hd' : toDigit16 (asChar b) = none := hd
          have hstep : u16Digit (some n) (asChar b) = none := by simp [u16Digit, hd']
          have hstep' : hexStep (some n) b = none := by simp [hexStep, hd]
          rw [hstep, hstep', foldl_u16Digit_none, foldl_hexStep_none]
      | some d =>
          have hd' : toDigit16 (asChar b) = some d := hd
          have hlt := toDigit16_lt hd'
          have hpow : 1 ≤ 16 ^ bytes.length := Nat.one_le_pow _ _ (by decide)
          rw [List.length_cons, Nat.pow_succ] at hroom
          have hnext : (n * 16 + d + 1) * 16 ^ bytes.length ≤ 65536 := by
            refine Nat.le_trans ?_ hroom
            rw [Nat.mul_comm (16 ^ bytes.length) 16, ← Nat.mul_assoc]
            exact Nat.mul_le_mul_right _ (by omega)
          have hsmall : n * 16 + d < 65536 := by
            have := Nat.mul_le_mul_left (n * 16 + d + 1) hpow
            omega
          have hstep : u16Digit (some n) (asChar b) = some (n * 16 + d) := by
            simp [u16Digit, hd', hsmall]
          have hstep' : hexStep (some n) b = some (n * 16 + d) := by simp [hexStep, hd]
          rw [hstep, hstep', ih hnext]

/-- Three digits stay under the cap. -/
theorem le_of_foldl_u16Digit {digits : List UInt8} (hlen : digits.length = 3) {n : Nat}
    (h : (digits.map asChar).foldl u16Digit (some 0) = some n) : n ≤ 4095 := by
  obtain ⟨a, b, c, rfl⟩ := List.length_eq_three.mp hlen
  have hd := digits_of_foldl h
  obtain ⟨x, hx⟩ := hd (asChar a) (by simp)
  obtain ⟨y, hy⟩ := hd (asChar b) (by simp)
  obtain ⟨z, hz⟩ := hd (asChar c) (by simp)
  have hx' := toDigit16_lt hx
  have hy' := toDigit16_lt hy
  have hz' := toDigit16_lt hz
  have h0 : x < 65536 := by omega
  have h1 : x * 16 + y < 65536 := by omega
  have h2 : (x * 16 + y) * 16 + z < 65536 := by omega
  simp [u16Digit, hx, hy, hz, h0, h1, h2] at h
  omega

/-- What the parser takes is hexadecimal digits, with a plus sign or without. -/
theorem hexValue_of_lengthPrefix {bytes : List UInt8} (hlen : bytes.length = 4) {n : Nat}
    (h : (fromUtf8 bytes).bind u16FromStrRadix16 = some n) :
    hexValue bytes = some n ∨
      ∃ digits, bytes = UInt8.ofNat '+'.toNat :: digits ∧ hexValue digits = some n := by
  have hroom : (0 + 1) * 16 ^ bytes.length ≤ 65536 := by
    rw [hlen]
    decide
  obtain ⟨s, hs, hn⟩ := Option.bind_eq_some_iff.mp h
  -- whatever the parser takes is ASCII, so bytes are characters
  have hbytes : ∀ digits : List Char, (∃ v, digits.foldl u16Digit (some 0) = some v) →
      ∀ c ∈ digits, c.toNat < 128 := by
    intro digits hfold c hc
    obtain ⟨v, hv⟩ := hfold
    obtain ⟨d, hd⟩ := digits_of_foldl hv c hc
    exact ascii_of_toDigit16 hd
  have hback : ∀ digits : List Char, (∀ c ∈ digits, c.toNat < 128) →
      (digits.map fun c => UInt8.ofNat c.toNat).map asChar = digits := by
    intro digits hascii
    rw [List.map_map]
    exact (List.map_congr_left fun c hc => asChar_ofNat (hascii c hc)).trans (List.map_id _)
  unfold u16FromStrRadix16 at hn
  split at hn
  · cases hn
  · cases hn
  · rename_i digits _ heq
    right
    have hascii := hbytes digits ⟨n, hn⟩
    have hall : ∀ c ∈ s.toList, c.toNat < 128 := by
      rw [heq]
      intro c hc
      rcases List.mem_cons.mp hc with rfl | hc
      · decide
      · exact hascii c hc
    have hself := bytes_of_ascii hs hall
    rw [heq, List.map_cons] at hself
    have hshort : (digits.map fun c => UInt8.ofNat c.toNat).length ≤ bytes.length := by
      rw [hself, List.length_cons]
      omega
    refine ⟨_, hself, ?_⟩
    rw [hexValue, ← foldl_u16Digit_map, hback digits hascii, hn]
    refine Nat.le_trans (Nat.mul_le_mul_left _ ?_) hroom
    exact Nat.pow_le_pow_right (by decide) hshort
  · left
    have hascii := hbytes s.toList ⟨n, hn⟩
    have hself := bytes_of_ascii hs hascii
    rw [hexValue, ← foldl_u16Digit_map hroom, hself, hback s.toList hascii, hn]

/-- Four hexadecimal digits are taken. -/
theorem lengthPrefix_of_hexValue {bytes : List UInt8} (hlen : bytes.length = 4) {n : Nat}
    (h : hexValue bytes = some n) : (fromUtf8 bytes).bind u16FromStrRadix16 = some n := by
  have hroom : (0 + 1) * 16 ^ bytes.length ≤ 65536 := by
    rw [hlen]
    decide
  have hdigits := digits_of_foldl_hex h
  have hascii : ∀ b ∈ bytes, b.toNat < 128 := by
    intro b hb
    obtain ⟨d, hd⟩ := hdigits b hb
    exact ascii_of_hexDigit hd
  rw [fromUtf8_ascii hascii, Option.bind_some]
  have hfold : (bytes.map asChar).foldl u16Digit (some 0) = some n := by
    rw [foldl_u16Digit_map hroom]
    exact h
  unfold u16FromStrRadix16
  rw [String.toList_ofList]
  split
  · rename_i heq
    rw [List.map_eq_nil_iff.mp heq] at hlen
    cases hlen
  · rename_i heq
    have hone := congrArg List.length heq
    rw [List.length_map, hlen] at hone
    cases hone
  · rename_i tail _ heq
    -- a plus sign is no digit
    rw [heq] at hfold
    obtain ⟨d, hd⟩ := digits_of_foldl hfold '+' List.mem_cons_self
    cases hd
  · exact hfold

/-- Three hexadecimal digits are taken behind a plus sign. -/
theorem lengthPrefix_of_plus {digits : List UInt8} (hthree : digits.length = 3) {n : Nat}
    (h : hexValue digits = some n) :
    (fromUtf8 (UInt8.ofNat '+'.toNat :: digits)).bind u16FromStrRadix16 = some n := by
  have hdigits := digits_of_foldl_hex h
  have hascii : ∀ b ∈ UInt8.ofNat '+'.toNat :: digits, b.toNat < 128 := by
    intro b hb
    rcases List.mem_cons.mp hb with rfl | hb
    · decide
    · obtain ⟨d, hd⟩ := hdigits b hb
      exact ascii_of_hexDigit hd
  have hfold : (digits.map asChar).foldl u16Digit (some 0) = some n := by
    rw [foldl_u16Digit_map (by rw [hthree]; decide)]
    exact h
  have hplus : asChar (UInt8.ofNat '+'.toNat) = '+' := by decide
  rw [fromUtf8_ascii hascii, Option.bind_some, List.map_cons, hplus]
  unfold u16FromStrRadix16
  rw [String.toList_ofList]
  split
  · rename_i heq
    cases heq
  · rename_i heq
    have hnil := (List.cons.inj heq).2
    rw [List.map_eq_nil_iff.mp hnil] at hthree
    cases hthree
  · rename_i tail _ heq
    rw [← (List.cons.inj heq).2]
    exact hfold
  · rename_i hnone
    exact absurd rfl (hnone _)

/-- **What the length parser accepts.** Four digits, or a plus sign and three. -/
theorem lengthPrefix_iff {bytes : List UInt8} (hlen : bytes.length = 4) {n : Nat} :
    (fromUtf8 bytes).bind u16FromStrRadix16 = some n ↔
      hexValue bytes = some n ∨
        ∃ digits, bytes = UInt8.ofNat '+'.toNat :: digits ∧ hexValue digits = some n := by
  constructor
  · exact hexValue_of_lengthPrefix hlen
  · rintro (h | ⟨digits, rfl, h⟩)
    · exact lengthPrefix_of_hexValue hlen h
    · exact lengthPrefix_of_plus (Nat.succ.inj hlen) h

/-- A length is none of the three markers. -/
theorem not_marker {n : Nat} (h0 : n ≠ 0) (h1 : n ≠ 1) (h2 : n ≠ 2) : ¬ n < 3 := by
  omega

/-- **What `read` accepts**, by the number behind the prefix. -/
theorem read_ok_iff {buf rest : List UInt8} :
    (∃ frame, read buf = .ok (frame, rest)) ↔
      ∃ n, 4 ≤ buf.length ∧ (fromUtf8 (buf.take 4)).bind u16FromStrRadix16 = some n ∧ n ≠ 3 ∧
        n ≤ pktLineMaxPayload + 4 ∧ n ≤ buf.length ∧ rest = buf.drop (if n < 3 then 4 else n) := by
  constructor
  · rintro ⟨frame, h⟩
    unfold read at h
    split_ifs at h with hshort
    have hfour : 4 ≤ buf.length := Nat.le_of_not_lt hshort
    -- the markers 0, 1 and 2 take four bytes, 3 is none, and the rest are lengths
    split at h
    · cases h
    · rename_i hn
      cases h
      exact ⟨0, hfour, hn, by decide, by decide, by omega, rfl⟩
    · rename_i hn
      cases h
      exact ⟨1, hfour, hn, by decide, by decide, by omega, rfl⟩
    · rename_i hn
      cases h
      exact ⟨2, hfour, hn, by decide, by decide, by omega, rfl⟩
    · cases h
    · rename_i n h0 h1 h2 h3 hn
      split_ifs at h with hcap hpayload
      cases h
      have hbig : ¬ n < 3 := not_marker h0 h1 h2
      refine ⟨n, hfour, hn, ?_, by omega, by omega, by rw [if_neg hbig]⟩
      rintro rfl
      exact h3 rfl
  · rintro ⟨n, hfour, hn, h3, hcap, hpayload, rfl⟩
    unfold read
    rw [if_neg (Nat.not_lt.mpr hfour), hn]
    split
    · rename_i heq
      cases heq
    · rename_i heq
      obtain rfl := Option.some.inj heq
      exact ⟨_, rfl⟩
    · rename_i heq
      obtain rfl := Option.some.inj heq
      exact ⟨_, rfl⟩
    · rename_i heq
      obtain rfl := Option.some.inj heq
      exact ⟨_, rfl⟩
    · rename_i heq
      exact absurd (Option.some.inj heq) h3
    · rename_i m h0 h1 h2 _ heq
      obtain rfl := Option.some.inj heq
      have hbig : ¬ n < 3 := not_marker h0 h1 h2
      rw [if_neg (Nat.not_lt.mpr hcap), if_neg (Nat.not_lt.mpr hpayload), if_neg hbig]
      exact ⟨_, rfl⟩

/-! ### Both directions -/

/-- A marker is read by its number. -/
theorem read_marker {mark : String} (hlen : (asBytes mark).length = 4) {n : Nat}
    (hvalue : u16FromStrRadix16 mark = some n) (rest : List UInt8) :
    (n = 1 → read (asBytes mark ++ rest) = .ok (.delim, rest)) ∧
      (n = 2 → read (asBytes mark ++ rest) = .ok (.respEnd, rest)) := by
  have hshort : ¬ (asBytes mark ++ rest).length < 4 := by
    rw [List.length_append, hlen]
    omega
  have hunder : (fromUtf8 ((asBytes mark ++ rest).take 4)).bind u16FromStrRadix16 = some n := by
    rw [List.take_left' hlen, fromUtf8_asBytes, Option.bind_some, hvalue]
  unfold read
  rw [if_neg hshort, hunder, List.drop_left' hlen]
  constructor
  · rintro rfl
    rfl
  · rintro rfl
    rfl

/-- **Round trip of one pkt-line.** -/
theorem read_encode {frame : PktLine} (h : WithinCap frame) (rest : List UInt8) :
    read (encode frame ++ rest) = .ok (frame, rest) := by
  cases frame with
  | flush => exact read_flush rest
  | delim =>
      have hvalue : u16FromStrRadix16 "0001" = some 1 := by decide
      exact (read_marker (by decide) hvalue rest).1 rfl
  | respEnd =>
      have hvalue : u16FromStrRadix16 "0002" = some 2 := by decide
      exact (read_marker (by decide) hvalue rest).2 rfl
  | data payload =>
      change read (dataFrame payload ++ rest) = _
      rw [read_dataFrame, List.take_of_length_le h]

/-- **Round trip of a stream.** -/
theorem pktIter_encode {lines : List PktLine} (h : ∀ frame ∈ lines, WithinCap frame) :
    pktIter (lines.flatMap encode) = lines.map .ok := by
  have hframes := @frames_flatMap _ _ _ read read_consuming PktLine encode id lines
    (fun frame hframe rest => read_encode (h frame hframe) rest) []
  rw [List.append_nil] at hframes
  rw [pktIter, hframes, frames_nil, List.append_nil]
  rfl

/-- A length behind a plus sign is what `read` accepts beyond the format. -/
theorem readsStrictly_iff (buf : List UInt8) : ReadsStrictly buf ↔ ¬ SignedLength buf := by
  have hplus : hexDigit (UInt8.ofNat '+'.toNat) = none := by decide
  constructor
  · rintro hstrict ⟨digits, rest, n, hbuf, hthree, hvalue, h3, hpayload⟩
    have hfour : 4 ≤ buf.length := by
      rw [hbuf, List.length_cons, List.length_append, hthree]
      omega
    have htake : buf.take 4 = UInt8.ofNat '+'.toNat :: digits := by
      rw [hbuf, List.take_succ_cons, List.take_left' hthree]
    have hlen : (buf.take 4).length = 4 := by
      rw [List.length_take]
      omega
    have hsmall : n ≤ pktLineMaxPayload + 4 := by
      have hfold := @foldl_u16Digit_map digits 0 (by rw [hthree]; decide)
      rw [show digits.foldl hexStep (some 0) = some n from hvalue] at hfold
      exact Nat.le_trans (le_of_foldl_u16Digit hthree hfold) (by decide)
    have hprefix := (lengthPrefix_iff hlen).mpr (Or.inr ⟨digits, htake, hvalue⟩)
    obtain ⟨frame, hread⟩ := read_ok_iff.mpr ⟨n, hfour, hprefix, h3, hsmall, hpayload, rfl⟩
    obtain ⟨m, taken, hm, -⟩ := hstrict frame _ hread
    -- the plus sign is no hexadecimal digit
    rw [htake, hexValue, List.foldl_cons] at hm
    have hstep : hexStep (some 0) (UInt8.ofNat '+'.toNat) = none := by
      unfold hexStep
      rw [hplus]
    rw [hstep, foldl_hexStep_none] at hm
    cases hm
  · intro hsigned frame rest hread
    obtain ⟨n, hfour, hprefix, h3, hcap, hpayload, rfl⟩ := read_ok_iff.mp ⟨frame, hread⟩
    have hlen : (buf.take 4).length = 4 := by
      rw [List.length_take]
      omega
    rcases (lengthPrefix_iff hlen).mp hprefix with hvalue | ⟨digits, htake, hvalue⟩
    · refine ⟨n, buf.take (if n < 3 then 4 else n), hvalue, (List.take_append_drop ..).symm, ?_⟩
      rw [List.length_take]
      split_ifs <;> omega
    · refine absurd ⟨digits, buf.drop 4, n, ?_, ?_, hvalue, h3, hpayload⟩ hsigned
      · rw [← List.cons_append, ← htake, List.take_append_drop]
      · rw [htake] at hlen
        simpa using hlen

/-- **The framing.** A stream within the cap is read back as it was encoded, and `read` keeps to the
format on exactly the buffers that begin with no signed length. The first half is for every list of
such lines, the second for every buffer, cut off anywhere. -/
theorem framing_strict_iff (lines : List PktLine) (buf : List UInt8) :
    ((∀ frame ∈ lines, WithinCap frame) → pktIter (lines.flatMap encode) = lines.map .ok) ∧
      (ReadsStrictly buf ↔ ¬ SignedLength buf) :=
  ⟨pktIter_encode, readsStrictly_iff buf⟩

/-- A data line of seven bytes under the length `+007`. -/
theorem read_plus_accepted :
    read (asBytes "+007abc") = .ok (.data (asBytes "abc"), []) ∧
      ¬ ReadsStrictly (asBytes "+007abc") := by
  have hread : read (asBytes "+007abc") = .ok (.data (asBytes "abc"), []) := by decide +kernel
  refine ⟨hread, fun hstrict => ?_⟩
  obtain ⟨n, taken, hn, -⟩ := hstrict _ _ hread
  revert hn
  have hnone : hexValue ((asBytes "+007abc").take 4) = none := by decide +kernel
  rw [hnone]
  exact nofun

end Pkt
end Artifacts
