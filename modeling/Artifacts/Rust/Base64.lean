import Mathlib.Data.List.GetD

/-!
# Base64

The two engines of the `base64` crate that the program uses: `STANDARD`, which writes
and demands canonical padding, and `URL_SAFE_NO_PAD`, which allows none.  Both reject a
last symbol with bits that stand for nothing.

`Sound` is what is asked of an engine, and `standard` meets it.  `decode_encode` is
the round trip that sealed secrets rest on.
-/

namespace Artifacts
namespace Rust

/-- An alphabet, and whether the last group is filled up with `=`. -/
structure Base64 where
  alphabet : List Char
  padded : Bool

namespace Base64

/-- `general_purpose::STANDARD`. -/
def standard : Base64 where
  alphabet := "ABCDEFGHIJKLMNOPQRSTUVWXYZabcdefghijklmnopqrstuvwxyz0123456789+/".toList
  padded := true

/-- `general_purpose::URL_SAFE_NO_PAD`. -/
def urlSafeNoPad : Base64 where
  alphabet := "ABCDEFGHIJKLMNOPQRSTUVWXYZabcdefghijklmnopqrstuvwxyz0123456789-_".toList
  padded := false

variable (engine : Base64)

def symbol (value : Nat) : Char := engine.alphabet.getD value '='

def value (c : Char) : Option Nat :=
  let i := engine.alphabet.idxOf c
  if i < engine.alphabet.length then some i else none

def fill : List Char := if engine.padded then ['='] else []

/-- The groups of `Engine::encode`. -/
def encodeBytes : List UInt8 → List Char
  | [] => []
  | [a] =>
      [engine.symbol (a.toNat / 4), engine.symbol (a.toNat % 4 * 16)] ++
        engine.fill ++ engine.fill
  | [a, b] =>
      [engine.symbol (a.toNat / 4), engine.symbol (a.toNat % 4 * 16 + b.toNat / 16),
        engine.symbol (b.toNat % 16 * 4)] ++ engine.fill
  | a :: b :: c :: rest =>
      engine.symbol (a.toNat / 4) :: engine.symbol (a.toNat % 4 * 16 + b.toNat / 16) ::
        engine.symbol (b.toNat % 16 * 4 + c.toNat / 64) :: engine.symbol (c.toNat % 64) ::
        encodeBytes rest

/-- `Engine::encode`. -/
def encode (bytes : List UInt8) : String := String.ofList (engine.encodeBytes bytes)

/-- A last group of two symbols. -/
def decodeTwo (w x : Char) : Option (List UInt8) := do
  let w ← engine.value w
  let x ← engine.value x
  if x % 16 = 0 then some [UInt8.ofNat (w * 4 + x / 16)] else none

/-- A last group of three symbols. -/
def decodeThree (w x y : Char) : Option (List UInt8) := do
  let w ← engine.value w
  let x ← engine.value x
  let y ← engine.value y
  if y % 4 = 0 then
    some [UInt8.ofNat (w * 4 + x / 16), UInt8.ofNat (x % 16 * 16 + y / 4)]
  else
    none

/-- A full group, in front of what follows it. -/
def decodeFour (w x y z : Char) (rest : Option (List UInt8)) : Option (List UInt8) := do
  let w ← engine.value w
  let x ← engine.value x
  let y ← engine.value y
  let z ← engine.value z
  let rest ← rest
  some (UInt8.ofNat (w * 4 + x / 16) :: UInt8.ofNat (x % 16 * 16 + y / 4) ::
    UInt8.ofNat (y % 4 * 64 + z) :: rest)

/-- The groups of `Engine::decode`. -/
def decodeChars : List Char → Option (List UInt8)
  | [] => some []
  | [_] => none
  | [w, x] => if engine.padded then none else engine.decodeTwo w x
  | [w, x, y] => if engine.padded then none else engine.decodeThree w x y
  | w :: x :: y :: z :: rest =>
      if engine.padded && z == '=' && rest.isEmpty then
        if y = '=' then engine.decodeTwo w x else engine.decodeThree w x y
      else
        engine.decodeFour w x y z (decodeChars rest)

/-- `Engine::decode`, with `none` for the error. -/
def decode (text : String) : Option (List UInt8) := engine.decodeChars text.toList

/-! ### Reading back what was written -/

/-- The alphabet has a symbol for each value, and `=` is none of them. -/
structure Sound : Prop where
  length : engine.alphabet.length = 64
  nodup : engine.alphabet.Nodup
  noFill : '=' ∉ engine.alphabet

theorem standard_sound : standard.Sound where
  length := by decide
  nodup := by decide
  noFill := by decide

variable {engine}

theorem symbol_eq (h : engine.Sound) {n : Nat} (hn : n < 64) :
    ∃ hn' : n < engine.alphabet.length, engine.symbol n = engine.alphabet[n] := by
  have hn' : n < engine.alphabet.length := by
    rw [h.length]
    exact hn
  exact ⟨hn', List.getD_eq_getElem _ _ hn'⟩

theorem value_symbol (h : engine.Sound) {n : Nat} (hn : n < 64) :
    engine.value (engine.symbol n) = some n := by
  obtain ⟨hn', hsymbol⟩ := symbol_eq h hn
  unfold value
  dsimp only
  rw [hsymbol, h.nodup.idxOf_getElem n hn', if_pos hn']

theorem symbol_ne_fill (h : engine.Sound) {n : Nat} (hn : n < 64) : engine.symbol n ≠ '=' := by
  obtain ⟨hn', hsymbol⟩ := symbol_eq h hn
  intro heq
  refine h.noFill ?_
  rw [← heq, hsymbol]
  exact List.getElem_mem hn'

/-- The bytes of three values put together. -/
theorem ofNat_parts (a : UInt8) {n : Nat} (h : n = a.toNat) : UInt8.ofNat n = a := by
  rw [h, UInt8.ofNat_toNat]

theorem decodeTwo_symbols (h : engine.Sound) (a : UInt8) :
    engine.decodeTwo (engine.symbol (a.toNat / 4)) (engine.symbol (a.toNat % 4 * 16)) =
      some [a] := by
  have ha := a.toNat_lt
  unfold decodeTwo
  rw [value_symbol h (by omega), value_symbol h (by omega)]
  change (if a.toNat % 4 * 16 % 16 = 0 then _ else _) = _
  rw [if_pos (by omega), ofNat_parts a (by omega)]

theorem decodeThree_symbols (h : engine.Sound) (a b : UInt8) :
    engine.decodeThree (engine.symbol (a.toNat / 4))
        (engine.symbol (a.toNat % 4 * 16 + b.toNat / 16)) (engine.symbol (b.toNat % 16 * 4)) =
      some [a, b] := by
  have ha := a.toNat_lt
  have hb := b.toNat_lt
  unfold decodeThree
  rw [value_symbol h (by omega), value_symbol h (by omega), value_symbol h (by omega)]
  change (if b.toNat % 16 * 4 % 4 = 0 then _ else _) = _
  rw [if_pos (by omega), ofNat_parts a (by omega), ofNat_parts b (by omega)]

theorem decodeFour_symbols (h : engine.Sound) (a b c : UInt8) (rest : List UInt8) :
    engine.decodeFour (engine.symbol (a.toNat / 4))
        (engine.symbol (a.toNat % 4 * 16 + b.toNat / 16))
        (engine.symbol (b.toNat % 16 * 4 + c.toNat / 64)) (engine.symbol (c.toNat % 64))
        (some rest) =
      some (a :: b :: c :: rest) := by
  have ha := a.toNat_lt
  have hb := b.toNat_lt
  have hc := c.toNat_lt
  unfold decodeFour
  rw [value_symbol h (by omega), value_symbol h (by omega), value_symbol h (by omega),
    value_symbol h (by omega)]
  change some (_ :: _ :: _ :: rest) = _
  rw [ofNat_parts a (by omega), ofNat_parts b (by omega), ofNat_parts c (by omega)]

theorem decodeChars_encodeBytes (h : engine.Sound) (bytes : List UInt8) :
    engine.decodeChars (engine.encodeBytes bytes) = some bytes := by
  induction bytes using encodeBytes.induct with
  | case1 => rfl
  | case2 a =>
      cases hpadded : engine.padded with
      | true =>
          simp only [encodeBytes, fill, hpadded, if_true, List.cons_append, List.nil_append,
            decodeChars]
          exact decodeTwo_symbols h a
      | false =>
          simp only [encodeBytes, fill, hpadded, Bool.false_eq_true, if_false, List.append_nil,
            decodeChars]
          exact decodeTwo_symbols h a
  | case3 a b =>
      have hb := b.toNat_lt
      cases hpadded : engine.padded with
      | true =>
          have hne := symbol_ne_fill h (show b.toNat % 16 * 4 < 64 by omega)
          simp only [encodeBytes, fill, hpadded, if_true, List.cons_append, List.nil_append,
            decodeChars]
          change (if engine.symbol (b.toNat % 16 * 4) = '=' then _ else _) = _
          rw [if_neg hne]
          exact decodeThree_symbols h a b
      | false =>
          simp only [encodeBytes, fill, hpadded, Bool.false_eq_true, if_false, List.append_nil,
            decodeChars]
          exact decodeThree_symbols h a b
  | case4 a b c rest ih =>
      have hne := symbol_ne_fill h (show c.toNat % 64 < 64 by omega)
      have hfull : ¬ (engine.padded && engine.symbol (c.toNat % 64) == '=' &&
          (engine.encodeBytes rest).isEmpty) = true := by
        rw [beq_eq_false_iff_ne.mpr hne, Bool.and_false, Bool.false_and]
        exact Bool.false_ne_true
      rw [encodeBytes, decodeChars, if_neg hfull, ih]
      exact decodeFour_symbols h a b c rest

/-- **Round trip.** -/
theorem decode_encode (h : engine.Sound) (bytes : List UInt8) :
    engine.decode (engine.encode bytes) = some bytes := by
  unfold decode encode
  rw [String.toList_ofList]
  exact decodeChars_encodeBytes h bytes

end Base64
end Rust
end Artifacts
