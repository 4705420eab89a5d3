import Mathlib.Algebra.Ring.Nat
import Mathlib.Data.List.Basic
import Mathlib.Tactic.SplitIfs

/-!
# Numbers in groups of seven bits

A number is a word of bytes of which all but the last have their high bit set; seven bits
of each byte count.  Read with the least group first it is a LEB128 number.  Read with the
greatest group first, and one more for each byte before another, every number has exactly
one word.  Values are natural numbers without a bound.

* `front` is the word at the front of a buffer, if it has an end there.
* `leEncode` and `ofsEncode` write a number, and both are read back (`leValue_leEncode`,
  `ofsValue_ofsEncode`).
* `length_leEncode_le` says how many bytes a number takes.
-/

namespace Artifacts
namespace Foundation
namespace Varint

/-- The high bit: another byte follows. -/
def continues (b : UInt8) : Bool := decide (128 ≤ b.toNat)

/-- The seven bits that count. -/
def group (b : UInt8) : Nat := b.toNat % 128

theorem group_lt (b : UInt8) : group b < 128 := Nat.mod_lt _ (by decide)

/-- The word at the front of some bytes, if they do not end inside it. -/
def front : List UInt8 → Option (List UInt8)
  | [] => none
  | b :: rest => if continues b then (front rest).map (b :: ·) else some [b]

theorem front_of_last {b : UInt8} (h : continues b = false) (rest : List UInt8) :
    front (b :: rest) = some [b] := by
  rw [front, h]
  rfl

theorem front_of_continues {b : UInt8} (h : continues b = true) (rest : List UInt8) :
    front (b :: rest) = (front rest).map (b :: ·) := by
  rw [front, if_pos h]

theorem front_ne_nil {bytes e : List UInt8} (h : front bytes = some e) : e ≠ [] := by
  cases bytes with
  | nil => cases h
  | cons b rest =>
      unfold front at h
      split_ifs at h
      · obtain ⟨tail, -, rfl⟩ := Option.map_eq_some_iff.mp h
        exact List.cons_ne_nil b tail
      · obtain rfl := Option.some.inj h
        exact List.cons_ne_nil b []

/-- The word is what the bytes begin with. -/
theorem front_isPrefix {bytes e : List UInt8} (h : front bytes = some e) : e <+: bytes := by
  induction bytes generalizing e with
  | nil => cases h
  | cons b rest ih =>
      unfold front at h
      split_ifs at h
      · obtain ⟨tail, htail, rfl⟩ := Option.map_eq_some_iff.mp h
        exact List.cons_prefix_cons.mpr ⟨rfl, ih htail⟩
      · obtain rfl := Option.some.inj h
        exact List.cons_prefix_cons.mpr ⟨rfl, List.nil_prefix⟩

/-- No word ends inside another one. -/
theorem front_eq_none_of_cut {bytes e : List UInt8} (h : front e = some e) (hcut : bytes <+: e)
    (hne : bytes ≠ e) : front bytes = none := by
  induction e generalizing bytes with
  | nil => cases h
  | cons b e ih =>
      cases bytes with
      | nil => rfl
      | cons b' rest =>
          obtain ⟨rfl, hrest⟩ := List.cons_prefix_cons.mp hcut
          unfold front at h
          split_ifs at h with hmore
          · obtain ⟨tail, htail, heq⟩ := Option.map_eq_some_iff.mp h
            obtain rfl := (List.cons.inj heq).2
            rw [front_of_continues hmore, ih htail hrest fun heq => hne (by rw [heq]),
              Option.map_none]
          · obtain rfl := (List.cons.inj (Option.some.inj h)).2
            rw [List.prefix_nil.mp hrest] at hne
            exact absurd rfl hne

theorem take_length_of_front {bytes e : List UInt8} (h : front bytes = some e) :
    bytes.take e.length = e :=
  (List.prefix_iff_eq_take.mp (front_isPrefix h)).symm

/-! ### Least group first -/

/-- The value of a word. -/
def leValue : List UInt8 → Nat
  | [] => 0
  | b :: rest => group b + 128 * leValue rest

@[simp] theorem leValue_nil : leValue [] = 0 := rfl

@[simp] theorem leValue_cons (b : UInt8) (rest : List UInt8) :
    leValue (b :: rest) = group b + 128 * leValue rest := rfl

theorem leValue_lt (e : List UInt8) : leValue e < 2 ^ (7 * e.length) := by
  induction e with
  | nil => decide
  | cons b rest ih =>
      have hb := group_lt b
      have hpow : 2 ^ (7 * (rest.length + 1)) = 128 * 2 ^ (7 * rest.length) := by
        rw [Nat.mul_add, Nat.pow_add, Nat.mul_comm]
      rw [leValue_cons, List.length_cons, hpow]
      omega

/-- The byte that holds a group and says whether another follows. -/
def byteOf (n : Nat) (more : Bool) : UInt8 :=
  UInt8.ofNat (n % 128 + if more then 128 else 0)

@[simp] theorem continues_byteOf (n : Nat) (more : Bool) : continues (byteOf n more) = more := by
  have hlt : n % 128 < 128 := Nat.mod_lt _ (by decide)
  cases more with
  | true =>
      have hval : (n % 128 + 128) % 256 = n % 128 + 128 := Nat.mod_eq_of_lt (by omega)
      simp [continues, byteOf, hval]
  | false =>
      have hval : n % 128 % 256 = n % 128 := Nat.mod_eq_of_lt (by omega)
      simp [continues, byteOf, hval]
      omega

@[simp] theorem group_byteOf (n : Nat) (more : Bool) : group (byteOf n more) = n % 128 := by
  have hlt : n % 128 < 128 := Nat.mod_lt _ (by decide)
  cases more with
  | true =>
      have hval : (n % 128 + 128) % 256 = n % 128 + 128 := Nat.mod_eq_of_lt (by omega)
      simp [group, byteOf, hval]
  | false =>
      have hval : n % 128 % 256 = n % 128 := Nat.mod_eq_of_lt (by omega)
      simp [group, byteOf, hval]

/-- The shortest word of a number. -/
def leEncode (n : Nat) : List UInt8 :=
  if n < 128 then [byteOf n false] else byteOf n true :: leEncode (n / 128)

theorem leEncode_of_lt {n : Nat} (h : n < 128) : leEncode n = [byteOf n false] := by
  rw [leEncode, if_pos h]

theorem leEncode_of_ge {n : Nat} (h : ¬ n < 128) :
    leEncode n = byteOf n true :: leEncode (n / 128) := by
  rw [leEncode, if_neg h]

theorem front_leEncode (n : Nat) (rest : List UInt8) :
    front (leEncode n ++ rest) = some (leEncode n) := by
  induction n using Nat.strongRecOn with
  | ind n ih =>
      by_cases h : n < 128
      · rw [leEncode_of_lt h, List.singleton_append, front_of_last (continues_byteOf n false)]
      · rw [leEncode_of_ge h, List.cons_append, front_of_continues (continues_byteOf n true),
          ih (n / 128) (by omega), Option.map_some]

@[simp] theorem leValue_leEncode (n : Nat) : leValue (leEncode n) = n := by
  induction n using Nat.strongRecOn with
  | ind n ih =>
      by_cases h : n < 128
      · rw [leEncode_of_lt h, leValue_cons, leValue_nil, group_byteOf]
        omega
      · rw [leEncode_of_ge h, leValue_cons, group_byteOf, ih (n / 128) (by omega)]
        omega

/-- The shortest word is no longer than the number of groups. -/
theorem length_leEncode_le {n k : Nat} (hk : 0 < k) (h : n < 2 ^ (7 * k)) :
    (leEncode n).length ≤ k := by
  induction k generalizing n with
  | zero => exact absurd hk (Nat.lt_irrefl 0)
  | succ k ih =>
      by_cases hn : n < 128
      · rw [leEncode_of_lt hn, List.length_singleton]
        omega
      · rw [leEncode_of_ge hn, List.length_cons]
        have hpow : 2 ^ (7 * (k + 1)) = 128 * 2 ^ (7 * k) := by
          rw [Nat.mul_add, Nat.pow_add, Nat.mul_comm]
        rw [hpow] at h
        have hk : 0 < k := by
          by_contra hzero
          obtain rfl : k = 0 := by omega
          exact hn (by omega)
        have := ih hk (Nat.div_lt_of_lt_mul h)
        omega

/-- And no shorter. -/
theorem lt_of_length_leEncode_le {n k : Nat} (h : (leEncode n).length ≤ k) :
    n < 2 ^ (7 * k) := by
  have hvalue := leValue_lt (leEncode n)
  rw [leValue_leEncode] at hvalue
  exact Nat.lt_of_lt_of_le hvalue (Nat.pow_le_pow_right (by decide) (by omega))

/-! ### Greatest group first, and one more for each byte -/

/-- The value of the bytes so far, and those that follow. -/
def ofsFold (value : Nat) : List UInt8 → Nat
  | [] => value
  | b :: rest => ofsFold ((value + 1) * 128 + group b) rest

/-- The value of a word. -/
def ofsValue : List UInt8 → Nat
  | [] => 0
  | b :: rest => ofsFold (group b) rest

@[simp] theorem ofsFold_nil (value : Nat) : ofsFold value [] = value := rfl

@[simp] theorem ofsFold_cons (value : Nat) (b : UInt8) (rest : List UInt8) :
    ofsFold value (b :: rest) = ofsFold ((value + 1) * 128 + group b) rest := rfl

theorem le_ofsFold (value : Nat) (e : List UInt8) : value ≤ ofsFold value e := by
  induction e generalizing value with
  | nil => exact Nat.le_refl value
  | cons b rest ih =>
      have hmore := ih ((value + 1) * 128 + group b)
      rw [ofsFold_cons]
      omega

theorem ofsFold_append (value : Nat) (e e' : List UInt8) :
    ofsFold value (e ++ e') = ofsFold (ofsFold value e) e' := by
  induction e generalizing value with
  | nil => rfl
  | cons b rest ih => exact ih _

theorem ofsValue_append {e : List UInt8} (he : e ≠ []) (e' : List UInt8) :
    ofsValue (e ++ e') = ofsFold (ofsValue e) e' := by
  cases e with
  | nil => exact absurd rfl he
  | cons b rest => exact ofsFold_append (group b) rest e'

/-- The bytes before the last one, for what is left of the number above it. -/
def ofsHigh (n : Nat) : List UInt8 :=
  if n = 0 then [] else ofsHigh ((n - 1) / 128) ++ [byteOf (n - 1) true]

theorem ofsHigh_zero : ofsHigh 0 = [] := by
  rw [ofsHigh, if_pos rfl]

theorem ofsHigh_of_pos {n : Nat} (h : n ≠ 0) :
    ofsHigh n = ofsHigh ((n - 1) / 128) ++ [byteOf (n - 1) true] := by
  rw [ofsHigh, if_neg h]

/-- The word of a number. -/
def ofsEncode (n : Nat) : List UInt8 := ofsHigh (n / 128) ++ [byteOf n false]

/-- Bytes that all continue do not end a word. -/
theorem front_append {e : List UInt8} (h : ∀ b ∈ e, continues b = true) (rest : List UInt8) :
    front (e ++ rest) = (front rest).map (e ++ ·) := by
  induction e with
  | nil => simp
  | cons b e ih =>
      rw [List.cons_append, front_of_continues (h b List.mem_cons_self),
        ih fun c hc => h c (List.mem_cons_of_mem b hc), Option.map_map]
      rfl

theorem continues_of_mem_ofsHigh {n : Nat} {b : UInt8} (h : b ∈ ofsHigh n) :
    continues b = true := by
  induction n using Nat.strongRecOn with
  | ind n ih =>
      by_cases hn : n = 0
      · rw [hn, ofsHigh_zero] at h
        cases h
      · rw [ofsHigh_of_pos hn] at h
        rcases List.mem_append.mp h with hhigh | hlow
        · exact ih ((n - 1) / 128) (by omega) hhigh
        · rw [List.mem_singleton.mp hlow, continues_byteOf]

theorem front_ofsEncode (n : Nat) (rest : List UInt8) :
    front (ofsEncode n ++ rest) = some (ofsEncode n) := by
  rw [ofsEncode, List.append_assoc, front_append fun b hb => continues_of_mem_ofsHigh hb,
    List.singleton_append, front_of_last (continues_byteOf n false)]
  rfl

theorem ofsValue_ofsHigh {n : Nat} (h : n ≠ 0) :
    ofsHigh n ≠ [] ∧ ofsValue (ofsHigh n) = n - 1 := by
  induction n using Nat.strongRecOn with
  | ind n ih =>
      have hne : ofsHigh n ≠ [] := by
        rw [ofsHigh_of_pos h]
        exact List.append_ne_nil_of_right_ne_nil _ (List.cons_ne_nil _ _)
      refine ⟨hne, ?_⟩
      rw [ofsHigh_of_pos h]
      by_cases hm : (n - 1) / 128 = 0
      · rw [hm, ofsHigh_zero, List.nil_append]
        show group (byteOf (n - 1) true) = n - 1
        rw [group_byteOf]
        omega
      · obtain ⟨hbegins, hvalue⟩ := ih ((n - 1) / 128) (by omega) hm
        rw [ofsValue_append hbegins, hvalue, ofsFold_cons, ofsFold_nil, group_byteOf]
        omega

@[simp] theorem ofsValue_ofsEncode (n : Nat) : ofsValue (ofsEncode n) = n := by
  unfold ofsEncode
  by_cases h : n / 128 = 0
  · rw [h, ofsHigh_zero, List.nil_append]
    show group (byteOf n false) = n
    rw [group_byteOf]
    omega
  · obtain ⟨hbegins, hvalue⟩ := ofsValue_ofsHigh h
    rw [ofsValue_append hbegins, hvalue, ofsFold_cons, ofsFold_nil, group_byteOf]
    omega

end Varint
end Foundation
end Artifacts
