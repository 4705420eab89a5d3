import Artifacts.Foundation.Frames
import Artifacts.Rust.Bytes
import Artifacts.Rust.Text

/-!
# pkt-line framing

A pkt-line is four hexadecimal digits, which count themselves, and a payload.
Lengths 0, 1 and 2 are markers without payload.  `read` takes one pkt-line off a
buffer, `PktIter` all of them, `writeData` and `writeFlush` append one.

`pktIter` stops behind the first error, as the source does.  The cap on payloads is that of
`write_data`, which cuts longer ones; what is written is read back in `Framing`.
-/

namespace Artifacts
namespace Pkt

open Foundation Rust

def pktLineMaxPayload : Nat := 65516

/-- `FLUSH`, the bytes of `0000`. -/
def flushBytes : List UInt8 := asBytes "0000"

inductive PktLine where
  | flush
  | delim
  | respEnd
  | data (payload : List UInt8)
  deriving DecidableEq, Repr

inductive PktError where
  | truncated
  | badLength
  | shortPayload
  | oversized
  deriving DecidableEq, Repr

/-- `pkt_line::read`: one pkt-line and the remaining tail. -/
def read (buf : List UInt8) : Except PktError (PktLine × List UInt8) :=
  if buf.length < 4 then
    .error .truncated
  else
    match (fromUtf8 (buf.take 4)).bind u16FromStrRadix16 with
    | none => .error .badLength
    | some 0 => .ok (.flush, buf.drop 4)
    | some 1 => .ok (.delim, buf.drop 4)
    | some 2 => .ok (.respEnd, buf.drop 4)
    | some 3 => .error .badLength
    | some n =>
        if pktLineMaxPayload + 4 < n then
          .error .oversized
        else if buf.length < n then
          .error .shortPayload
        else
          .ok (.data ((buf.take n).drop 4), buf.drop n)

/-- `PktIter`: the pkt-lines of a buffer, up to its end or the first error. -/
def pktIter (buf : List UInt8) : List (Except PktError PktLine) :=
  frames read buf

/-- `format!("{n:04x}")`, for a number of at most four digits. -/
def hex04 (n : Nat) : String :=
  String.ofList [Nat.digitChar (n / 4096 % 16), Nat.digitChar (n / 256 % 16),
    Nat.digitChar (n / 16 % 16), Nat.digitChar (n % 16)]

/-- The frame `write_data` appends. A payload over the cap is truncated, as in a
release build. -/
def dataFrame (payload : List UInt8) : List UInt8 :=
  let payload := payload.take pktLineMaxPayload
  asBytes (hex04 (payload.length + 4)) ++ payload

/-- `pkt_line::write_data`: one frame behind what is there. The length of the payload is up to the
caller. -/
def writeData (out payload : List UInt8) : List UInt8 :=
  out ++ dataFrame payload

/-- `pkt_line::write_flush`. -/
def writeFlush (out : List UInt8) : List UInt8 :=
  out ++ flushBytes

/-! ### Reading what was written -/

theorem toDigit16_digitChar {d : Nat} (h : d < 16) : toDigit16 (Nat.digitChar d) = some d := by
  have hall : ∀ d : Fin 16, toDigit16 (Nat.digitChar d) = some d.val := by decide
  exact hall ⟨d, h⟩

theorem digitChar_ne_plus {d : Nat} (h : d < 16) : Nat.digitChar d ≠ '+' := by
  have hall : ∀ d : Fin 16, Nat.digitChar d ≠ '+' := by decide
  exact hall ⟨d, h⟩

theorem utf8Size_digitChar {d : Nat} (h : d < 16) : (Nat.digitChar d).utf8Size = 1 := by
  have hall : ∀ d : Fin 16, (Nat.digitChar d).utf8Size = 1 := by decide
  exact hall ⟨d, h⟩

theorem length_hex04 (n : Nat) : (asBytes (hex04 n)).length = 4 := by
  simp only [length_asBytes, hex04, String.ofList_cons, String.utf8ByteSize_append,
    String.utf8ByteSize_singleton, utf8Size_digitChar (Nat.mod_lt _ (by decide : 0 < 16))]
  rfl

/-- The length prefix reads back as the length. -/
theorem u16FromStrRadix16_hex04 {n : Nat} (h : n < 65536) :
    u16FromStrRadix16 (hex04 n) = some n := by
  have hlt : ∀ m, m % 16 < 16 := fun m => Nat.mod_lt m (by decide)
  have hvalue : ((n / 4096 % 16 * 16 + n / 256 % 16) * 16 + n / 16 % 16) * 16 + n % 16 = n := by
    omega
  have hhead := digitChar_ne_plus (hlt (n / 4096))
  unfold u16FromStrRadix16 hex04
  simp only [String.toList_ofList]
  split
  · simp_all
  · simp_all
  · simp_all
  · simp only [List.foldl_cons, List.foldl_nil, u16Digit, toDigit16_digitChar (hlt _)]
    rw [if_pos (by omega)]
    simp only []
    rw [if_pos (by omega)]
    simp only []
    rw [if_pos (by omega)]
    simp only []
    rw [if_pos (by omega)]
    congr 1
    omega

/-- `read` takes at least the length prefix. -/
theorem read_consuming : Consuming read := by
  intro buf frame rest h
  unfold read at h
  split_ifs at h with hshort
  split at h
  · cases h
  · cases h
    simp only [List.length_drop]
    omega
  · cases h
    simp only [List.length_drop]
    omega
  · cases h
    simp only [List.length_drop]
    omega
  · cases h
  · rename_i n _ _ _ h3 hn
    split_ifs at h
    cases h
    have hpos : n ≠ 0 := by
      rintro rfl
      simp_all
    simp only [List.length_drop]
    omega

@[simp] theorem read_flush (rest : List UInt8) : read (flushBytes ++ rest) = .ok (.flush, rest) := by
  have hunder : fromUtf8 ((flushBytes ++ rest).take 4) = some "0000" := by
    rw [List.take_append_of_le_length (by decide)]
    decide
  have hlen : ¬ (flushBytes ++ rest).length < 4 := by
    have h4 : flushBytes.length = 4 := by decide
    simp [h4]
  have hvalue : u16FromStrRadix16 "0000" = some 0 := by decide
  unfold read
  rw [if_neg hlen, hunder, Option.bind_some, hvalue]
  simp only [Except.ok.injEq, Prod.mk.injEq, true_and]
  exact List.drop_left' (by decide)

/-- **Round trip of one data line.** -/
theorem read_dataFrame (payload rest : List UInt8) :
    read (dataFrame payload ++ rest) = .ok (.data (payload.take pktLineMaxPayload), rest) := by
  obtain ⟨p, hp⟩ : ∃ p, payload.take pktLineMaxPayload = p := ⟨_, rfl⟩
  have hcap : p.length ≤ pktLineMaxPayload := by
    rw [← hp]
    exact List.length_take_le _ _
  have hframe : dataFrame payload = asBytes (hex04 (p.length + 4)) ++ p := by
    simp [dataFrame, hp]
  have hdigits := length_hex04 (p.length + 4)
  have hshort : ¬ (dataFrame payload ++ rest).length < 4 := by
    rw [hframe, List.append_assoc, List.length_append, hdigits]
    omega
  have hunder : (dataFrame payload ++ rest).take 4 = asBytes (hex04 (p.length + 4)) := by
    rw [hframe, List.append_assoc, List.take_left' hdigits]
  have hvalue : u16FromStrRadix16 (hex04 (p.length + 4)) = some (p.length + 4) :=
    u16FromStrRadix16_hex04 (by rw [pktLineMaxPayload] at hcap; omega)
  have hwhole : (dataFrame payload).length = p.length + 4 := by
    rw [hframe, List.length_append, hdigits, Nat.add_comm]
  unfold read
  rw [if_neg hshort, hunder, fromUtf8_asBytes, Option.bind_some, hvalue]
  change (if pktLineMaxPayload + 4 < p.length + 4 then _ else if _ < p.length + 4 then _ else _) = _
  rw [if_neg (by omega), if_neg (by rw [List.length_append, hwhole]; omega)]
  rw [List.take_left' hwhole, List.drop_left' hwhole, hp, hframe, List.drop_left' hdigits]

theorem foldl_writeData (payloads : List (List UInt8)) (out : List UInt8) :
    payloads.foldl writeData out = out ++ payloads.flatMap dataFrame := by
  induction payloads generalizing out with
  | nil => simp
  | cons p payloads ih =>
      rw [List.foldl_cons, ih, writeData, List.flatMap_cons, List.append_assoc]

/-- **Round trip of a pkt-line stream.** Data lines and a closing flush are read
back as they were written. -/
theorem pktIter_writeData (payloads : List (List UInt8)) :
    pktIter (writeFlush (payloads.foldl writeData [])) =
      payloads.map (fun p => .ok (.data (p.take pktLineMaxPayload))) ++ [.ok .flush] := by
  have hread : read flushBytes = .ok (.flush, []) := by
    simpa using read_flush []
  have hflush : pktIter flushBytes = [.ok .flush] := frames_of_read read_consuming hread
  rw [foldl_writeData, List.nil_append, writeFlush, pktIter,
    frames_flatMap read_consuming (fun p _ rest => read_dataFrame p rest)]
  exact congrArg _ hflush

end Pkt
end Artifacts
