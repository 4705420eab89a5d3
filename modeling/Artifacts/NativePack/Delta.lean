import Artifacts.Error
import Artifacts.Rust.Bytes
import Mathlib.Algebra.Ring.Nat

/-!
# Git deltas

A delta names the sizes of its base and of its target and then builds the target out
of copied ranges of the base and inserted bytes.  The cursor of the source stands in
the list of the bytes that are left; a `u64` is a natural number below `2 ^ 64`.

The names of the operands and the texts of the errors are the source's.  That no index is out of
bounds is shown in `DeltaCursor`, the meaning of a delta in `DeltaFormat`.
-/

namespace Artifacts
namespace NativePack

/-- `MAX_ENTRY_BYTES`, one GiB: no entry and no target of a delta may be larger by its header. -/
def maxEntryBytes : Nat := 1 <<< 30

/-- The loop of `read_delta_varint`: the value, and the index behind it. -/
def readDeltaVarintLoop : List UInt8 → Nat → Nat → Nat → Result (Nat × Nat)
  | [], idx, _, _ => .error (.packParse ("delta varint: truncated at offset " ++ toString idx))
  | byte :: rest, idx, shift, value =>
      let value := (value ||| ((byte &&& 0x7f).toNat <<< shift)) % 2 ^ 64
      if byte &&& 0x80 = 0 then
        .ok (value, idx + 1)
      else if 63 < shift + 7 then
        .error (.packParse "delta varint: overflows u64")
      else
        readDeltaVarintLoop rest (idx + 1) (shift + 7) value

/-- `read_delta_varint`: the value, and how many bytes it takes. -/
def readDeltaVarint (bytes : List UInt8) (idx : Nat) : Result (Nat × Nat) :=
  match readDeltaVarintLoop (bytes.drop idx) idx 0 0 with
  | .error e => .error e
  | .ok (value, stop) => .ok (value, stop - idx)

/-- One of the two numbers of a COPY, least byte first.  The byte for `shift` is there
when the operation has the bit `first + shift`. -/
def readCopyField (what : String) (op : UInt8) (first : Nat) :
    List Nat → List UInt8 → Nat → Result (Nat × List UInt8)
  | [], rest, value => .ok (value, rest)
  | shift :: shifts, rest, value =>
      if op.toNat.testBit (first + shift) then
        match rest with
        | [] => .error (.packParse ("delta COPY: truncated " ++ what))
        | byte :: rest =>
            readCopyField what op first shifts rest (value ||| (byte.toNat <<< (shift * 8)))
      else
        readCopyField what op first shifts rest value

/-- The range a COPY takes from the base, and the bytes behind the operation. -/
def readCopy (base : List UInt8) (op : UInt8) (rest : List UInt8) :
    Result (List UInt8 × List UInt8) :=
  match readCopyField "offset" op 0 [0, 1, 2, 3] rest 0 with
  | .error e => .error e
  | .ok (start, rest) =>
      match readCopyField "size" op 4 [0, 1, 2] rest 0 with
      | .error e => .error e
      | .ok (size, rest) =>
          -- a size of zero stands for 0x10000
          let stop := start + (if size = 0 then 0x10000 else size)
          if base.length < stop then
            .error (.packParse ("delta COPY: range " ++ toString start ++ ".." ++ toString stop ++
              " out of base len " ++ toString base.length))
          else
            .ok ((base.take stop).drop start, rest)

/-- The bytes an INSERT brings along, and the bytes behind them. -/
def readInsert (op : UInt8) (rest : List UInt8) : Result (List UInt8 × List UInt8) :=
  let n := (op &&& 0x7f).toNat
  if n = 0 then
    .error (.packParse "delta INSERT: zero-byte op is reserved")
  else if rest.length < n then
    .error (.packParse ("delta INSERT: " ++ toString n ++ " bytes wanted, " ++
      toString rest.length ++ " available"))
  else
    .ok (rest.take n, rest.drop n)

/-- The instruction loop of `apply_delta`.  An operation takes at least one byte, so the
number of bytes bounds the number of operations. -/
def applyOps (base : List UInt8) : Nat → List UInt8 → List UInt8 → Result (List UInt8)
  | 0, _, out => .ok out
  | _ + 1, [], out => .ok out
  | fuel + 1, op :: rest, out =>
      match (if op &&& 0x80 ≠ 0 then readCopy base op rest else readInsert op rest) with
      | .error e => .error e
      | .ok (piece, rest) => applyOps base fuel rest (out ++ piece)

/-- `apply_delta`. The sizes at the front are checked against the base before the instructions are
read, and against the output after the last of them. -/
def applyDelta (base delta : List UInt8) : Result (List UInt8) :=
  match readDeltaVarint delta 0 with
  | .error e => .error e
  | .ok (sourceSize, idx) =>
      if sourceSize ≠ base.length then
        .error (.packParse ("delta source size " ++ toString sourceSize ++ " != base len " ++
          toString base.length))
      else
        match readDeltaVarint delta idx with
        | .error e => .error e
        | .ok (targetSize, consumed) =>
            if maxEntryBytes < targetSize then
              .error (.packParse ("delta target size " ++ toString targetSize ++ " exceeds " ++
                toString maxEntryBytes ++ "-byte cap"))
            else
              match applyOps base delta.length (delta.drop (idx + consumed)) [] with
              | .error e => .error e
              | .ok out =>
                  if out.length ≠ targetSize then
                    .error (.packParse ("delta applied: got " ++ toString out.length ++
                      " bytes, target_size said " ++ toString targetSize))
                  else
                    .ok out

/-- Copy four bytes, insert two. -/
example : applyDelta [10, 11, 12, 13, 14] [5, 6, 0x90, 4, 2, 20, 21] =
    .ok [10, 11, 12, 13, 20, 21] := by decide

end NativePack
end Artifacts
