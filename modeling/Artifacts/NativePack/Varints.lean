import Artifacts.Foundation.Varint
import Artifacts.NativePack.Entries

/-!
# The three number formats of a pack

The size in an entry's header, the distance to the base of an OFS_DELTA and the sizes in
front of a delta are words of seven-bit groups.  The decoders work on `u64`: the first
gives up after 60 bits, and the other two lose the bits that do not fit.

`Foundation` has the numbers without a width, in `leValue` and `ofsValue`.  Each decoder is
compared with them once, on the group of bytes at the front of its buffer; `Wraps` says when
a value of 64 bits is no longer that number.
-/

namespace Artifacts
namespace NativePack

open Foundation Varint

/-! ### Bits -/

theorem and_0x7f (b : UInt8) : (b &&& 0x7f).toNat = group b := by
  rw [UInt8.toNat_and]
  exact Nat.and_two_pow_sub_one_eq_mod b.toNat 7

theorem and_0xf (b : UInt8) : (b &&& 0xf).toNat = b.toNat % 16 := by
  rw [UInt8.toNat_and]
  exact Nat.and_two_pow_sub_one_eq_mod b.toNat 4

set_option maxRecDepth 20000 in
theorem and_0x80_table : ∀ i : Fin 256,
    UInt8.ofNat i.val &&& 0x80 = 0 ↔ continues (UInt8.ofNat i.val) = false := by
  decide

theorem and_0x80 (b : UInt8) : b &&& 0x80 = 0 ↔ continues b = false := by
  simpa using and_0x80_table ⟨b.toNat, b.toNat_lt⟩

theorem and_0x80_of_continues {b : UInt8} (h : continues b = true) : ¬ b &&& 0x80 = 0 := by
  rw [and_0x80, h]
  exact Bool.noConfusion

/-- The next group goes above the ones there are. -/
theorem or_shiftLeft {value shift : Nat} (h : value < 2 ^ shift) (n : Nat) :
    value ||| (n <<< shift) = value + 2 ^ shift * n := by
  rw [Nat.shiftLeft_eq, Nat.mul_comm, Nat.or_comm, ← Nat.two_pow_add_eq_or_of_lt h, Nat.add_comm]

theorem add_group_lt {value shift : Nat} (h : value < 2 ^ shift) (b : UInt8) :
    value + 2 ^ shift * group b < 2 ^ (shift + 7) := by
  have hb := group_lt b
  have hpow : 2 ^ (shift + 7) = 2 ^ shift * 128 := Nat.pow_add 2 shift 7
  have hle : 2 ^ shift * group b ≤ 2 ^ shift * 127 := Nat.mul_le_mul_left _ (by omega)
  have hsum : 2 ^ shift * 127 + 2 ^ shift = 2 ^ shift * 128 := by
    rw [← Nat.mul_succ]
  omega

/-- The groups that follow count from the next shift on. -/
theorem add_leValue (value shift : Nat) (b : UInt8) (e : List UInt8) :
    value + 2 ^ shift * group b + 2 ^ (shift + 7) * leValue e =
      value + 2 ^ shift * leValue (b :: e) := by
  rw [leValue_cons, Nat.pow_add, Nat.mul_add, Nat.mul_assoc, Nat.add_assoc]

/-! ### The sizes of a delta -/

/-- The value of a word, as far as 64 bits hold it. -/
theorem readDeltaVarintLoop_eq {rest : List UInt8} {idx shift value : Nat}
    (hvalue : value < 2 ^ shift) (hshift : shift ≤ 63) (hgroup : shift % 7 = 0) :
    match front rest with
    | none => ∃ e, readDeltaVarintLoop rest idx shift value = .error e
    | some word =>
        if shift + 7 * word.length ≤ 70 then
          readDeltaVarintLoop rest idx shift value =
            .ok ((value + 2 ^ shift * leValue word) % 2 ^ 64, idx + word.length)
        else
          ∃ e, readDeltaVarintLoop rest idx shift value = .error e := by
  induction rest generalizing idx shift value with
  | nil => exact ⟨_, rfl⟩
  | cons byte rest ih =>
      -- the bits that are set so far lie below the group
      have hor : value ||| ((byte &&& 0x7f).toNat <<< shift) = value + 2 ^ shift * group byte := by
        rw [and_0x7f, or_shiftLeft hvalue]
      cases hmore : continues byte with
      | false =>
          rw [front_of_last hmore]
          have hloop : readDeltaVarintLoop (byte :: rest) idx shift value =
              .ok ((value + 2 ^ shift * group byte) % 2 ^ 64, idx + 1) := by
            rw [readDeltaVarintLoop, hor, if_pos ((and_0x80 byte).mpr hmore)]
          simp only [List.length_singleton]
          rw [if_pos (by omega), hloop, leValue_cons, leValue_nil]
          rfl
      | true =>
          rw [front_of_continues hmore]
          by_cases hlast : 63 < shift + 7
          · -- the tenth byte may not be followed by another
            have hloop : ∃ e, readDeltaVarintLoop (byte :: rest) idx shift value = .error e := by
              rw [readDeltaVarintLoop, if_neg (and_0x80_of_continues hmore), if_pos hlast]
              exact ⟨_, rfl⟩
            cases hrest : front rest with
            | none => exact hloop
            | some tail =>
                have hpos : 0 < tail.length := List.length_pos_iff.mpr (front_ne_nil hrest)
                simp only [Option.map_some, List.length_cons]
                rw [if_neg (by omega)]
                exact hloop
          · have hnext := add_group_lt hvalue byte
            have hsmall : value + 2 ^ shift * group byte < 2 ^ 64 :=
              Nat.lt_of_lt_of_le hnext (Nat.pow_le_pow_right (by decide) (by omega))
            have hloop : readDeltaVarintLoop (byte :: rest) idx shift value =
                readDeltaVarintLoop rest (idx + 1) (shift + 7)
                  (value + 2 ^ shift * group byte) := by
              rw [readDeltaVarintLoop, hor, if_neg (and_0x80_of_continues hmore), if_neg hlast,
                Nat.mod_eq_of_lt hsmall]
            have hih := @ih (idx + 1) (shift + 7) _ hnext (by omega) (by omega)
            rw [hloop]
            cases hrest : front rest with
            | none =>
                rw [hrest] at hih
                exact hih
            | some tail =>
                rw [hrest] at hih
                simp only [Option.map_some, List.length_cons] at hih ⊢
                rw [add_leValue] at hih
                have hlength : shift + 7 + 7 * tail.length = shift + 7 * (tail.length + 1) := by
                  omega
                have hindex : idx + 1 + tail.length = idx + (tail.length + 1) := by omega
                rw [hlength, hindex] at hih
                exact hih

/-- `read_delta_varint` on the word at its index. -/
theorem readDeltaVarint_eq (bytes : List UInt8) (idx : Nat) :
    match front (bytes.drop idx) with
    | none => ∃ e, readDeltaVarint bytes idx = .error e
    | some word =>
        if word.length ≤ 10 then
          readDeltaVarint bytes idx = .ok (leValue word % 2 ^ 64, word.length)
        else
          ∃ e, readDeltaVarint bytes idx = .error e := by
  have hloop := @readDeltaVarintLoop_eq (bytes.drop idx) idx 0 0 (by decide) (by decide) rfl
  unfold readDeltaVarint
  cases hfront : front (bytes.drop idx) with
  | none =>
      rw [hfront] at hloop
      obtain ⟨e, he⟩ := hloop
      exact ⟨e, by rw [he]⟩
  | some word =>
      rw [hfront] at hloop
      simp only [Nat.zero_add, Nat.pow_zero, Nat.one_mul] at hloop ⊢
      by_cases hlength : word.length ≤ 10
      · rw [if_pos (by omega)] at hloop
        rw [if_pos hlength, hloop]
        simp
      · rw [if_neg (by omega)] at hloop
        obtain ⟨e, he⟩ := hloop
        rw [if_neg hlength]
        exact ⟨e, by rw [he]⟩

/-! ### The size in an entry's header -/

/-- The word of a size behind the type code of its first byte. -/
def headerValue : List UInt8 → Nat
  | [] => 0
  | first :: rest => first.toNat % 16 + 16 * leValue rest

/-- `encode_in_pack_object_header` of git: the type and four bits of the size in the first byte, and
seven bits in each that follows. -/
def headerEncode (kind n : Nat) : List UInt8 :=
  if n < 16 then [UInt8.ofNat (kind * 16 + n)]
  else UInt8.ofNat (128 + kind * 16 + n % 16) :: leEncode (n / 16)

theorem parseEntryHeaderLoop_of_last {byte : UInt8} (h : continues byte = false)
    (rest : List UInt8) (idx shift size : Nat) :
    parseEntryHeaderLoop rest byte idx shift size = .ok (size, idx) := by
  cases rest with
  | nil => rw [parseEntryHeaderLoop, if_pos ((and_0x80 byte).mpr h)]
  | cons next rest => rw [parseEntryHeaderLoop, if_pos ((and_0x80 byte).mpr h)]

/-- No bit is lost: the loop gives up before the 64th. -/
theorem parseEntryHeaderLoop_eq {rest : List UInt8} {byte : UInt8} {idx shift size : Nat}
    (hmore : continues byte = true) (hsize : size < 2 ^ shift) :
    match front rest with
    | none => ∃ e, parseEntryHeaderLoop rest byte idx shift size = .error e
    | some word =>
        if shift + 7 * word.length ≤ 63 then
          parseEntryHeaderLoop rest byte idx shift size =
            .ok (size + 2 ^ shift * leValue word, idx + word.length)
        else
          ∃ e, parseEntryHeaderLoop rest byte idx shift size = .error e := by
  induction rest generalizing byte idx shift size with
  | nil =>
      show ∃ e, parseEntryHeaderLoop [] byte idx shift size = .error e
      rw [parseEntryHeaderLoop, if_neg (and_0x80_of_continues hmore)]
      exact ⟨_, rfl⟩
  | cons next rest ih =>
      have hstep : parseEntryHeaderLoop (next :: rest) byte idx shift size =
          if 63 < shift + 7 then .error (.packParse "entry header size overflows u64")
          else parseEntryHeaderLoop rest next (idx + 1) (shift + 7)
            ((size + 2 ^ shift * group next) % 2 ^ 64) := by
        rw [parseEntryHeaderLoop, if_neg (and_0x80_of_continues hmore), and_0x7f,
          or_shiftLeft hsize]
      by_cases hlast : 63 < shift + 7
      · -- a group that would be shifted out of the 64 bits is refused, however it ends
        have hloop : ∃ e, parseEntryHeaderLoop (next :: rest) byte idx shift size = .error e := by
          rw [hstep, if_pos hlast]
          exact ⟨_, rfl⟩
        cases hfront : front (next :: rest) with
        | none => exact hloop
        | some word =>
            have hpos : 0 < word.length := List.length_pos_iff.mpr (front_ne_nil hfront)
            simp only []
            rw [if_neg (by omega)]
            exact hloop
      · have hnext := add_group_lt hsize next
        have hsmall : size + 2 ^ shift * group next < 2 ^ 64 :=
          Nat.lt_of_lt_of_le hnext (Nat.pow_le_pow_right (by decide) (by omega))
        rw [if_neg hlast, Nat.mod_eq_of_lt hsmall] at hstep
        rw [hstep]
        cases hagain : continues next with
        | false =>
            rw [front_of_last hagain, parseEntryHeaderLoop_of_last hagain]
            simp only [List.length_singleton]
            rw [if_pos (by omega), leValue_cons, leValue_nil]
            rfl
        | true =>
            have hih := @ih next (idx + 1) (shift + 7) _ hagain hnext
            rw [front_of_continues hagain]
            cases hfront : front rest with
            | none =>
                rw [hfront] at hih
                exact hih
            | some tail =>
                rw [hfront] at hih
                simp only [Option.map_some, List.length_cons] at hih ⊢
                have hlength : shift + 7 + 7 * tail.length = shift + 7 * (tail.length + 1) := by
                  omega
                have hindex : idx + 1 + tail.length = idx + (tail.length + 1) := by omega
                rw [add_leValue, hlength, hindex] at hih
                exact hih

/-- `parse_entry_header` on the word at the front. -/
theorem parseEntryHeader_eq (bytes : List UInt8) :
    match front bytes with
    | none => ∃ e, parseEntryHeader bytes = .error e
    | some word =>
        if word.length ≤ 9 then
          ∃ kind, parseEntryHeader bytes = .ok (kind, headerValue word, word.length)
        else
          ∃ e, parseEntryHeader bytes = .error e := by
  cases bytes with
  | nil => exact ⟨_, rfl⟩
  | cons first rest =>
      have hfirst : (first &&& 0xf).toNat < 2 ^ 4 := by
        rw [and_0xf]
        exact Nat.mod_lt _ (by decide)
      cases hmore : continues first with
      | false =>
          rw [front_of_last hmore]
          simp only [List.length_singleton]
          rw [if_pos (by decide), parseEntryHeader, parseEntryHeaderLoop_of_last hmore, and_0xf]
          exact ⟨_, rfl⟩
      | true =>
          have hloop := @parseEntryHeaderLoop_eq rest first 1 4 _ hmore hfirst
          rw [front_of_continues hmore]
          simp only [parseEntryHeader]
          cases hfront : front rest with
          | none =>
              rw [hfront] at hloop
              obtain ⟨e, he⟩ := hloop
              exact ⟨e, by rw [he]⟩
          | some tail =>
              rw [hfront] at hloop
              simp only [Option.map_some, List.length_cons] at hloop ⊢
              by_cases hlength : tail.length + 1 ≤ 9
              · rw [if_pos (by omega)] at hloop
                rw [if_pos hlength, hloop, and_0xf, Nat.add_comm 1]
                exact ⟨_, rfl⟩
              · rw [if_neg (by omega)] at hloop
                obtain ⟨e, he⟩ := hloop
                rw [if_neg hlength]
                exact ⟨e, by rw [he]⟩

/-! ### The distance of an OFS_DELTA -/

/-- Some byte is added to a value that fills 64 bits, so that adding 1 gives 0. No pack is so large
that a distance in it comes to that. -/
def Wraps (value : Nat) : List UInt8 → Prop
  | [] => False
  | b :: rest => (value + 1) % 2 ^ 64 = 0 ∨ Wraps ((value + 1) * 128 + group b) rest

/-- The next group in 64 bits. -/
theorem ofs_step {value exact : Nat} (h : value = exact % 2 ^ 64) (b : UInt8) :
    ((value + 1) <<< 7) % 2 ^ 64 ||| (b &&& 0x7f).toNat =
      ((exact + 1) * 128 + group b) % 2 ^ 64 := by
  have hb := group_lt b
  obtain ⟨n, hn⟩ : ∃ n, ((value + 1) <<< 7) % 2 ^ 64 = 2 ^ 7 * n := by
    refine ⟨(value + 1) % 2 ^ 57, ?_⟩
    rw [Nat.shiftLeft_eq]
    omega
  have hadd : 2 ^ 7 * n + group b = 2 ^ 7 * n ||| group b :=
    Nat.two_pow_add_eq_or_of_lt (i := 7) hb n
  rw [and_0x7f, hn, ← hadd, ← hn, Nat.shiftLeft_eq]
  omega

theorem parseOfsDeltaOffsetLoop_of_last {byte : UInt8} (h : continues byte = false)
    (rest : List UInt8) (idx value : Nat) :
    parseOfsDeltaOffsetLoop rest byte idx value = .ok (value, idx) := by
  cases rest with
  | nil => rw [parseOfsDeltaOffsetLoop, if_pos ((and_0x80 byte).mpr h)]
  | cons next rest => rw [parseOfsDeltaOffsetLoop, if_pos ((and_0x80 byte).mpr h)]

/-- The loop computes modulo `2 ^ 64`, and stops only at a value it cannot add one to. -/
theorem parseOfsDeltaOffsetLoop_eq {rest : List UInt8} {byte : UInt8} {idx value exact : Nat}
    (hmore : continues byte = true) (hvalue : value = exact % 2 ^ 64) :
    match front rest with
    | none => ∃ e, parseOfsDeltaOffsetLoop rest byte idx value = .error e
    | some word =>
        (Wraps exact word → ∃ e, parseOfsDeltaOffsetLoop rest byte idx value = .error e) ∧
        (¬ Wraps exact word → parseOfsDeltaOffsetLoop rest byte idx value =
          .ok (ofsFold exact word % 2 ^ 64, idx + word.length)) := by
  induction rest generalizing byte idx value exact with
  | nil =>
      show ∃ e, parseOfsDeltaOffsetLoop [] byte idx value = .error e
      rw [parseOfsDeltaOffsetLoop, if_neg (and_0x80_of_continues hmore)]
      exact ⟨_, rfl⟩
  | cons next rest ih =>
      have hstep : parseOfsDeltaOffsetLoop (next :: rest) byte idx value =
          if value + 1 = 2 ^ 64 then .error (.packParse "OFS_DELTA offset overflow")
          else parseOfsDeltaOffsetLoop rest next (idx + 1)
            (((exact + 1) * 128 + group next) % 2 ^ 64) := by
        rw [parseOfsDeltaOffsetLoop, if_neg (and_0x80_of_continues hmore), ofs_step hvalue]
      by_cases hfull : value + 1 = 2 ^ 64
      · -- the value fills its 64 bits, and adding one would wrap
        have hloop : ∃ e, parseOfsDeltaOffsetLoop (next :: rest) byte idx value = .error e := by
          rw [hstep, if_pos hfull]
          exact ⟨_, rfl⟩
        cases hfront : front (next :: rest) with
        | none => exact hloop
        | some word =>
            have hwraps : Wraps exact word := by
              obtain ⟨tail, htail⟩ := front_isPrefix hfront
              cases word with
              | nil => exact absurd rfl (front_ne_nil hfront)
              | cons b word => exact Or.inl (by omega)
            exact ⟨fun _ => hloop, fun hnot => absurd hwraps hnot⟩
      · have hroom : ¬ (exact + 1) % 2 ^ 64 = 0 := by omega
        rw [if_neg hfull] at hstep
        rw [hstep]
        cases hagain : continues next with
        | false =>
            rw [front_of_last hagain, parseOfsDeltaOffsetLoop_of_last hagain]
            refine ⟨fun hwraps => ?_, fun _ => rfl⟩
            rcases hwraps with hzero | hfalse
            · exact absurd hzero hroom
            · exact hfalse.elim
        | true =>
            -- the loop goes on with the remainder, which is all that the next turn looks at
            have hih := @ih next (idx + 1) _ ((exact + 1) * 128 + group next) hagain rfl
            rw [front_of_continues hagain]
            cases hfront : front rest with
            | none =>
                rw [hfront] at hih
                exact hih
            | some tail =>
                rw [hfront] at hih
                obtain ⟨herror, hok⟩ := hih
                have hindex : idx + 1 + tail.length = idx + (tail.length + 1) := by omega
                refine ⟨fun hwraps => ?_, fun hnot => ?_⟩
                · rcases hwraps with hzero | hlater
                  · exact absurd hzero hroom
                  · exact herror hlater
                · rw [hok fun hlater => hnot (Or.inr hlater), hindex]
                  rfl

/-- `parse_ofs_delta_offset` on the word at the front. -/
theorem parseOfsDeltaOffset_eq (first : UInt8) (rest : List UInt8) :
    match front (first :: rest) with
    | none => ∃ e, parseOfsDeltaOffset (first :: rest) = .error e
    | some word =>
        (Wraps (group first) word.tail → ∃ e, parseOfsDeltaOffset (first :: rest) = .error e) ∧
        (¬ Wraps (group first) word.tail → parseOfsDeltaOffset (first :: rest) =
          .ok (ofsValue word % 2 ^ 64, word.length)) := by
  have hsmall : group first % 2 ^ 64 = group first :=
    Nat.mod_eq_of_lt (Nat.lt_trans (group_lt first) (by decide))
  cases hmore : continues first with
  | false =>
      rw [front_of_last hmore]
      refine ⟨fun hwraps => hwraps.elim, fun _ => ?_⟩
      rw [parseOfsDeltaOffset, parseOfsDeltaOffsetLoop_of_last hmore, and_0x7f]
      show Except.ok (group first, 1) = Except.ok (group first % 2 ^ 64, 1)
      rw [hsmall]
  | true =>
      have hloop := @parseOfsDeltaOffsetLoop_eq rest first 1 _ _ hmore hsmall.symm
      rw [front_of_continues hmore]
      simp only [parseOfsDeltaOffset, and_0x7f]
      cases hfront : front rest with
      | none =>
          rw [hfront] at hloop
          exact hloop
      | some tail =>
          rw [hfront] at hloop
          simp only [Option.map_some, List.length_cons, List.tail_cons] at hloop ⊢
          rw [Nat.add_comm tail.length]
          exact hloop

theorem wraps_iff {value : Nat} {word : List UInt8} :
    Wraps value word ↔ ∃ p, p <+: word ∧ p ≠ word ∧ (ofsFold value p + 1) % 2 ^ 64 = 0 := by
  induction word generalizing value with
  | nil =>
      constructor
      · exact False.elim
      · rintro ⟨p, hp, hne, -⟩
        exact hne (List.prefix_nil.mp hp)
  | cons b rest ih =>
      constructor
      · rintro (hzero | hlater)
        · exact ⟨[], List.nil_prefix, (List.cons_ne_nil b rest).symm, hzero⟩
        · obtain ⟨p, hp, hne, hfull⟩ := ih.mp hlater
          refine ⟨b :: p, List.cons_prefix_cons.mpr ⟨rfl, hp⟩, fun heq => hne ?_, hfull⟩
          exact List.tail_eq_of_cons_eq heq
      · rintro ⟨p, hp, hne, hfull⟩
        cases p with
        | nil => exact Or.inl hfull
        | cons c p =>
            obtain ⟨rfl, htail⟩ := List.cons_prefix_cons.mp hp
            exact Or.inr (ih.mpr ⟨p, htail, fun heq => hne (heq ▸ rfl), hfull⟩)

/-- A value that fits never wraps. -/
theorem not_wraps {value : Nat} {word : List UInt8} (h : ofsFold value word < 2 ^ 64) :
    ¬ Wraps value word := by
  rw [wraps_iff]
  rintro ⟨p, ⟨q, rfl⟩, hne, hfull⟩
  rw [ofsFold_append] at h
  cases q with
  | nil => exact hne (List.append_nil p).symm
  | cons b q =>
      have hmore := le_ofsFold ((ofsFold value p + 1) * 128 + group b) q
      rw [ofsFold_cons] at h
      omega

/-! ### Exact decoders -/

/-- What the decoder returns on `bytes` is the value of the word at the front and its
length, and a value that does not fit 64 bits is an error. -/
structure DecodesExactly (result : Result (Nat × Nat)) (value : List UInt8 → Nat)
    (bytes : List UInt8) : Prop where
  exact : ∀ v n, result = .ok (v, n) →
    front bytes = some (bytes.take n) ∧ v = value (bytes.take n)
  overflow : ∀ word, front bytes = some word → 2 ^ 64 ≤ value word → ∃ e, result = .error e

theorem decodesExactly_of_error {result : Result (Nat × Nat)} {value : List UInt8 → Nat}
    {bytes : List UInt8} (h : ∃ e, result = .error e) : DecodesExactly result value bytes := by
  obtain ⟨e, rfl⟩ := h
  exact ⟨nofun, fun _ _ _ => ⟨e, rfl⟩⟩

/-- A decoder that answers with the value modulo `2 ^ 64` is exact where the value fits. -/
theorem decodesExactly_iff {result : Result (Nat × Nat)} {value : List UInt8 → Nat}
    {bytes word : List UInt8} (hfront : front bytes = some word)
    (hresult : result = .ok (value word % 2 ^ 64, word.length)) :
    DecodesExactly result value bytes ↔ value word < 2 ^ 64 := by
  constructor
  · intro h
    by_contra hbig
    obtain ⟨e, he⟩ := h.overflow word hfront (Nat.le_of_not_lt hbig)
    rw [hresult] at he
    cases he
  · intro hsmall
    constructor
    · intro v n hok
      rw [hresult, Nat.mod_eq_of_lt hsmall] at hok
      cases hok
      rw [take_length_of_front hfront]
      exact ⟨hfront, rfl⟩
    · intro word' hfront' hbig
      obtain rfl : word = word' := Option.some.inj (hfront.symm.trans hfront')
      omega

/-- The size of an entry is read exactly. -/
theorem header_exact (bytes : List UInt8) :
    DecodesExactly ((parseEntryHeader bytes).map Prod.snd) headerValue bytes := by
  have heq := parseEntryHeader_eq bytes
  cases hfront : front bytes with
  | none =>
      rw [hfront] at heq
      obtain ⟨e, he⟩ := heq
      exact decodesExactly_of_error ⟨e, by rw [he]; rfl⟩
  | some word =>
      rw [hfront] at heq
      simp only [] at heq
      by_cases hlength : word.length ≤ 9
      · rw [if_pos hlength] at heq
        obtain ⟨kind, hkind⟩ := heq
        have hsmall : headerValue word < 2 ^ 64 := by
          cases word with
          | nil => exact absurd rfl (front_ne_nil hfront)
          | cons first tail =>
              have hfirst : first.toNat % 16 < 16 := Nat.mod_lt _ (by decide)
              have htail : leValue tail < 2 ^ 56 := by
                refine Nat.lt_of_lt_of_le (leValue_lt tail) (Nat.pow_le_pow_right (by decide) ?_)
                rw [List.length_cons] at hlength
                omega
              simp only [headerValue]
              omega
        refine (decodesExactly_iff hfront ?_).mpr hsmall
        rw [hkind, Nat.mod_eq_of_lt hsmall]
        rfl
      · rw [if_neg hlength] at heq
        obtain ⟨e, he⟩ := heq
        exact decodesExactly_of_error ⟨e, by rw [he]; rfl⟩

/-- The distance of an OFS_DELTA is read exactly where it fits, or where the loop meets a
value it cannot add one to. -/
theorem ofs_exact_iff (bytes : List UInt8) :
    DecodesExactly (parseOfsDeltaOffset bytes) ofsValue bytes ↔
      ∀ word, front bytes = some word → ofsValue word < 2 ^ 64 ∨
        ∃ p, p <+: word ∧ p ≠ [] ∧ p ≠ word ∧ (ofsValue p + 1) % 2 ^ 64 = 0 := by
  cases bytes with
  | nil => exact iff_of_true (decodesExactly_of_error ⟨_, rfl⟩) nofun
  | cons first rest =>
      have heq := parseOfsDeltaOffset_eq first rest
      cases hfront : front (first :: rest) with
      | none =>
          rw [hfront] at heq
          exact iff_of_true (decodesExactly_of_error heq) nofun
      | some word =>
          rw [hfront] at heq
          obtain ⟨herror, hok⟩ := heq
          obtain ⟨tail, rfl⟩ : ∃ tail, word = first :: tail := by
            cases word with
            | nil => exact absurd rfl (front_ne_nil hfront)
            | cons b tail =>
                obtain ⟨rfl, -⟩ := List.cons_prefix_cons.mp (front_isPrefix hfront)
                exact ⟨tail, rfl⟩
          rw [List.tail_cons] at herror hok
          -- the loop begins behind the first byte, the condition speaks of the whole word
          have hwraps : Wraps (group first) tail ↔ ∃ p, p <+: first :: tail ∧ p ≠ [] ∧
              p ≠ first :: tail ∧ (ofsValue p + 1) % 2 ^ 64 = 0 := by
            rw [wraps_iff]
            constructor
            · rintro ⟨p, hp, hne, hfull⟩
              refine ⟨first :: p, List.cons_prefix_cons.mpr ⟨rfl, hp⟩, List.cons_ne_nil first p,
                fun heq => hne (List.tail_eq_of_cons_eq heq), hfull⟩
            · rintro ⟨p, hp, hnil, hne, hfull⟩
              cases p with
              | nil => exact absurd rfl hnil
              | cons c p =>
                  obtain ⟨rfl, htail⟩ := List.cons_prefix_cons.mp hp
                  exact ⟨p, htail, fun heq => hne (heq ▸ rfl), hfull⟩
          by_cases hw : Wraps (group first) tail
          · refine iff_of_true (decodesExactly_of_error (herror hw)) fun word' hword' => ?_
            obtain rfl := Option.some.inj hword'
            exact Or.inr (hwraps.mp hw)
          · rw [decodesExactly_iff hfront (hok hw)]
            constructor
            · intro hsmall word' hword'
              obtain rfl := Option.some.inj hword'
              exact Or.inl hsmall
            · intro hall
              rcases hall _ rfl with hsmall | hfull
              · exact hsmall
              · exact absurd (hwraps.mpr hfull) hw

/-- A size of a delta is read exactly unless its tenth byte holds more than one bit. -/
theorem deltaVarint_exact_iff (bytes : List UInt8) (idx : Nat) :
    DecodesExactly (readDeltaVarint bytes idx) leValue (bytes.drop idx) ↔
      ∀ word, front (bytes.drop idx) = some word → word.length = 10 →
        leValue word < 2 ^ 64 := by
  have heq := readDeltaVarint_eq bytes idx
  cases hfront : front (bytes.drop idx) with
  | none =>
      rw [hfront] at heq
      exact iff_of_true (decodesExactly_of_error heq) nofun
  | some word =>
      rw [hfront] at heq
      simp only [] at heq
      by_cases hlength : word.length ≤ 10
      · rw [if_pos hlength] at heq
        rw [decodesExactly_iff hfront heq]
        constructor
        · intro hsmall word' hword' _
          obtain rfl := Option.some.inj hword'
          exact hsmall
        · intro hall
          by_cases hten : word.length = 10
          · exact hall word rfl hten
          · exact Nat.lt_of_lt_of_le (leValue_lt word)
              (Nat.pow_le_pow_right (by decide) (by omega))
      · rw [if_neg hlength] at heq
        refine iff_of_true (decodesExactly_of_error heq) fun word' hword' hten => ?_
        obtain rfl := Option.some.inj hword'
        omega

/-! ### Round trips -/

theorem continues_ofNat {n : Nat} (h : n < 256) :
    continues (UInt8.ofNat n) = decide (128 ≤ n) := by
  have hval : (UInt8.ofNat n).toNat = n := by
    rw [UInt8.toNat_ofNat']
    exact Nat.mod_eq_of_lt h
  rw [continues, hval]

theorem front_headerEncode {kind : Nat} (hkind : kind < 8) (n : Nat) (rest : List UInt8) :
    front (headerEncode kind n ++ rest) = some (headerEncode kind n) := by
  unfold headerEncode
  split_ifs with h
  · have hlast : continues (UInt8.ofNat (kind * 16 + n)) = false := by
      rw [continues_ofNat (by omega)]
      exact decide_eq_false (by omega)
    rw [List.singleton_append, front_of_last hlast]
  · have hmore : continues (UInt8.ofNat (128 + kind * 16 + n % 16)) = true := by
      rw [continues_ofNat (by omega)]
      exact decide_eq_true (by omega)
    rw [List.cons_append, front_of_continues hmore, front_leEncode, Option.map_some]

theorem headerValue_headerEncode (kind n : Nat) :
    headerValue (headerEncode kind n) = n := by
  unfold headerEncode
  split_ifs with h
  · simp only [headerValue, leValue_nil, UInt8.toNat_ofNat']
    omega
  · simp only [headerValue, leValue_leEncode, UInt8.toNat_ofNat']
    omega

theorem length_headerEncode_le_iff (kind n : Nat) :
    (headerEncode kind n).length ≤ 9 ↔ n < 2 ^ 60 := by
  unfold headerEncode
  split_ifs with h
  · exact iff_of_true (by simp) (by omega)
  · rw [List.length_cons]
    constructor
    · intro hlength
      have hhigh : n / 16 < 2 ^ (7 * 8) := lt_of_length_leEncode_le (by omega)
      omega
    · intro hn
      have hhigh : n / 16 < 2 ^ (7 * 8) := by omega
      have := length_leEncode_le (by decide) hhigh
      omega

/-- The type code of git's header. -/
theorem parseEntryHeader_kind {kind : Nat} (hkind : kind < 8) {n : Nat} {rest : List UInt8}
    {result : Nat × Nat × Nat} (h : parseEntryHeader (headerEncode kind n ++ rest) = .ok result) :
    result.1 = kind := by
  have hshift : ∀ m, m < 256 → ((UInt8.ofNat m >>> 4) &&& 7).toNat = m / 16 % 8 := by
    intro m hm
    rw [UInt8.toNat_and, UInt8.toNat_shiftRight, UInt8.toNat_ofNat', Nat.mod_eq_of_lt hm,
      Nat.shiftRight_eq_div_pow]
    exact Nat.and_two_pow_sub_one_eq_mod (m / 16) 3
  have hfirst : ∃ m tail, headerEncode kind n ++ rest = UInt8.ofNat m :: tail ∧ m < 256 ∧
      m / 16 % 8 = kind := by
    unfold headerEncode
    split_ifs with hn
    · exact ⟨kind * 16 + n, rest, rfl, by omega, by omega⟩
    · exact ⟨128 + kind * 16 + n % 16, leEncode (n / 16) ++ rest, rfl, by omega, by omega⟩
  obtain ⟨m, tail, hbytes, hm, hvalue⟩ := hfirst
  rw [hbytes, parseEntryHeader] at h
  cases hloop : parseEntryHeaderLoop tail (UInt8.ofNat m) 1 4 (UInt8.ofNat m &&& 0xf).toNat with
  | error e =>
      rw [hloop] at h
      cases h
  | ok sized =>
      rw [hloop] at h
      cases h
      exact (hshift m hm).trans hvalue

/-- Git's encoding of a size is read back exactly below `2 ^ 60`. -/
theorem header_roundTrip_iff {kind : Nat} (hkind : kind < 8) (v : Nat) (rest : List UInt8) :
    parseEntryHeader (headerEncode kind v ++ rest) =
        .ok (kind, v, (headerEncode kind v).length) ↔ v < 2 ^ 60 := by
  have heq := parseEntryHeader_eq (headerEncode kind v ++ rest)
  rw [front_headerEncode hkind] at heq
  simp only [] at heq
  rw [headerValue_headerEncode] at heq
  rw [← length_headerEncode_le_iff kind v]
  by_cases hlength : (headerEncode kind v).length ≤ 9
  · rw [if_pos hlength] at heq
    obtain ⟨kind', hparse⟩ := heq
    have hkind' : kind' = kind := parseEntryHeader_kind hkind hparse
    rw [hparse, hkind']
    exact iff_of_true rfl hlength
  · rw [if_neg hlength] at heq
    obtain ⟨e, he⟩ := heq
    rw [he]
    exact iff_of_false (fun h => by cases h) hlength

theorem ofs_roundTrip {v : Nat} (hv : v < 2 ^ 64) (rest : List UInt8) :
    parseOfsDeltaOffset (ofsEncode v ++ rest) = .ok (v, (ofsEncode v).length) := by
  have hfront := front_ofsEncode v rest
  obtain ⟨first, tail, hword⟩ := List.exists_cons_of_ne_nil (front_ne_nil hfront)
  have hvalue : ofsFold (group first) tail = v := by
    have h := ofsValue_ofsEncode v
    rw [hword] at h
    exact h
  have heq := parseOfsDeltaOffset_eq first (tail ++ rest)
  rw [← List.cons_append, ← hword, hfront] at heq
  have hnot : ¬ Wraps (group first) tail := not_wraps (by rw [hvalue]; exact hv)
  have hok := heq.2
  rw [hword, List.tail_cons, ← hword] at hok
  rw [hok hnot, ofsValue_ofsEncode, Nat.mod_eq_of_lt hv]

theorem deltaVarint_roundTrip {v : Nat} (hv : v < 2 ^ 64) (before rest : List UInt8) :
    readDeltaVarint (before ++ leEncode v ++ rest) before.length =
      .ok (v, (leEncode v).length) := by
  have heq := readDeltaVarint_eq (before ++ leEncode v ++ rest) before.length
  have hlength : (leEncode v).length ≤ 10 :=
    length_leEncode_le (by decide) (Nat.lt_of_lt_of_le hv (by decide))
  rw [List.append_assoc, List.drop_left, front_leEncode] at heq
  simp only [] at heq
  rw [if_pos hlength, leValue_leEncode, Nat.mod_eq_of_lt hv] at heq
  rw [List.append_assoc]
  exact heq

/-! ### The three decoders -/

/-- Each decoder is exact on these bytes, the last one from an index on. -/
def VarintsExact (bytes : List UInt8) (idx : Nat) : Prop :=
  DecodesExactly ((parseEntryHeader bytes).map Prod.snd) headerValue bytes ∧
    DecodesExactly (parseOfsDeltaOffset bytes) ofsValue bytes ∧
    DecodesExactly (readDeltaVarint bytes idx) leValue (bytes.drop idx)

/-- Each decoder reads back git's encoding of the number, whatever surrounds it. -/
def VarintsRoundTrip (v : Nat) : Prop :=
  (∀ kind, kind < 8 → ∀ rest, parseEntryHeader (headerEncode kind v ++ rest) =
      .ok (kind, v, (headerEncode kind v).length)) ∧
    (∀ rest, parseOfsDeltaOffset (ofsEncode v ++ rest) = .ok (v, (ofsEncode v).length)) ∧
    (∀ before rest, readDeltaVarint (before ++ leEncode v ++ rest) before.length =
      .ok (v, (leEncode v).length))

/-- **When the decoders are exact.** On bytes: unless a delta size of ten bytes exceeds 64 bits, or
an OFS_DELTA distance does so without meeting a value that fills them. On numbers: below `2 ^ 60`.
The buffer is any, cut off anywhere, and so is the offset in it; the size in an entry's header gives
up after 60 bits, and it is this that bounds the numbers. -/
theorem varints_exact_iff (bytes : List UInt8) (idx v : Nat) (hv : v < 2 ^ 64) :
    (VarintsExact bytes idx ∧ VarintsRoundTrip v) ↔
      (∀ word, front (bytes.drop idx) = some word → word.length = 10 →
          leValue word < 2 ^ 64) ∧
        (∀ word, front bytes = some word → ofsValue word < 2 ^ 64 ∨
          ∃ p, p <+: word ∧ p ≠ [] ∧ p ≠ word ∧ (ofsValue p + 1) % 2 ^ 64 = 0) ∧
        v < 2 ^ 60 := by
  rw [← ofs_exact_iff, ← deltaVarint_exact_iff]
  constructor
  · rintro ⟨⟨-, hofs, hdelta⟩, hheader, -⟩
    exact ⟨hdelta, hofs, (@header_roundTrip_iff 0 (by decide) v []).mp
      (hheader 0 (by decide) [])⟩
  · rintro ⟨hdelta, hofs, hsmall⟩
    exact ⟨⟨header_exact bytes, hofs, hdelta⟩,
      fun kind hkind rest => (header_roundTrip_iff hkind v rest).mpr hsmall,
      fun rest => ofs_roundTrip hv rest, fun before rest => deltaVarint_roundTrip hv before rest⟩

/-- The word of 300, and the number itself. -/
theorem varints_exact_300 : VarintsExact [0xac, 0x02] 0 ∧ VarintsRoundTrip 300 := by
  refine (varints_exact_iff [0xac, 0x02] 0 300 (by decide)).mpr ⟨?_, ?_, by decide⟩
  · intro word hword hten
    obtain rfl : [0xac, 0x02] = word := Option.some.inj hword
    cases hten
  · intro word hword
    obtain rfl : [0xac, 0x02] = word := Option.some.inj hword
    exact Or.inl (by decide)

/-- Nine bytes of zero groups and a tenth of two: `2 ^ 64`, read as zero. -/
theorem varints_not_exact :
    ¬ ((∀ bytes idx, VarintsExact bytes idx) ∧ ∀ v, v < 2 ^ 64 → VarintsRoundTrip v) := by
  rintro ⟨hexact, -⟩
  have hdelta := (hexact (List.replicate 9 0x80 ++ [0x02]) 0).2.2
  have hfits := (deltaVarint_exact_iff _ _).mp hdelta (List.replicate 9 0x80 ++ [0x02])
    (by decide) (by decide)
  revert hfits
  decide

end NativePack
end Artifacts
