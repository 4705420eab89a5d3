import Artifacts.Foundation.Separators
import Artifacts.PktLine.Framing

/-!
# pkt-line streams as bytes

`Frame` says which bytes are a pkt-line, without a reader: four hexadecimal digits that
count themselves and the payload.  `read` takes these frames and, beyond the format, the
ones whose length carries a plus sign.  `Stream` cuts a buffer into frames, and `pktIter`
gives back the lines of any stream at the front of a buffer.

A stream is unique (`stream_unique`), so a parser that reads by `pktIter` can be compared with a
grammar on bytes.  What stands behind the end of a stream does not matter.
-/

namespace Artifacts
namespace Pkt

open Foundation Rust

/-- The bytes behind a prefix that stands for `n`, and the line they are the payload of. -/
inductive Behind : Nat → List UInt8 → PktLine → Prop
  | flush : Behind 0 [] .flush
  | delim : Behind 1 [] .delim
  | respEnd : Behind 2 [] .respEnd
  | data {payload : List UInt8} (hcap : payload.length ≤ pktLineMaxPayload) :
      Behind (payload.length + 4) payload (.data payload)

/-- The bytes are one pkt-line. -/
def Frame (bytes : List UInt8) (line : PktLine) : Prop :=
  ∃ digits payload n, bytes = digits ++ payload ∧ digits.length = 4 ∧
    hexValue digits = some n ∧ Behind n payload line

/-- The bytes are a pkt-line but for a plus sign in the place of the first digit. -/
def SignedFrame (bytes : List UInt8) (line : PktLine) : Prop :=
  ∃ digits payload n, bytes = UInt8.ofNat '+'.toNat :: (digits ++ payload) ∧ digits.length = 3 ∧
    hexValue digits = some n ∧ Behind n payload line

/-- What `read` takes for a pkt-line: a frame, or one with a sign in front of the digits of its
length. -/
def LooseFrame (bytes : List UInt8) (line : PktLine) : Prop :=
  Frame bytes line ∨ SignedFrame bytes line

/-- The bytes are these lines, one frame after the other, and nothing behind the last. `frame` says
what bytes one line may be written as. -/
inductive Stream (frame : List UInt8 → PktLine → Prop) : List UInt8 → List PktLine → Prop
  | nil : Stream frame [] []
  | cons {bytes rest : List UInt8} {line : PktLine} {lines : List PktLine}
      (hframe : frame bytes line) (hrest : Stream frame rest lines) :
      Stream frame (bytes ++ rest) (line :: lines)

/-! ### One frame -/

theorem read_behind {head payload rest : List UInt8} {n : Nat} {line : PktLine}
    (hlen : head.length = 4) (hvalue : (fromUtf8 head).bind u16FromStrRadix16 = some n)
    (h : Behind n payload line) : read (head ++ payload ++ rest) = .ok (line, rest) := by
  have hshort : ¬ (head ++ payload ++ rest).length < 4 := by
    rw [List.append_assoc, List.length_append, hlen]
    omega
  have hunder : (head ++ payload ++ rest).take 4 = head := by
    rw [List.append_assoc, List.take_left' hlen]
  unfold read
  rw [if_neg hshort, hunder, hvalue]
  cases h with
  | flush =>
      show Except.ok (PktLine.flush, (head ++ [] ++ rest).drop 4) = _
      rw [List.append_nil, List.drop_left' hlen]
  | delim =>
      show Except.ok (PktLine.delim, (head ++ [] ++ rest).drop 4) = _
      rw [List.append_nil, List.drop_left' hlen]
  | respEnd =>
      show Except.ok (PktLine.respEnd, (head ++ [] ++ rest).drop 4) = _
      rw [List.append_nil, List.drop_left' hlen]
  | data hcap =>
      have hwhole : (head ++ payload).length = payload.length + 4 := by
        rw [List.length_append, hlen, Nat.add_comm]
      change (if pktLineMaxPayload + 4 < payload.length + 4 then _
        else if (head ++ payload ++ rest).length < payload.length + 4 then _ else _) = _
      rw [if_neg (by omega), if_neg (by rw [List.length_append, hwhole]; omega),
        List.take_left' hwhole, List.drop_left' hwhole, List.drop_left' hlen]

theorem behind_of_read {buf rest : List UInt8} {line : PktLine} (h : read buf = .ok (line, rest)) :
    ∃ head payload n, buf = head ++ payload ++ rest ∧ head.length = 4 ∧
      (fromUtf8 head).bind u16FromStrRadix16 = some n ∧ Behind n payload line := by
  unfold read at h
  split_ifs at h with hshort
  have hfour : (buf.take 4).length = 4 := by
    rw [List.length_take]
    omega
  have hcut : buf = buf.take 4 ++ [] ++ buf.drop 4 := by
    rw [List.append_nil, List.take_append_drop]
  split at h
  · cases h
  · rename_i hvalue
    cases h
    exact ⟨_, _, _, hcut, hfour, hvalue, .flush⟩
  · rename_i hvalue
    cases h
    exact ⟨_, _, _, hcut, hfour, hvalue, .delim⟩
  · rename_i hvalue
    cases h
    exact ⟨_, _, _, hcut, hfour, hvalue, .respEnd⟩
  · cases h
  · rename_i n h0 h1 h2 h3 hvalue
    split_ifs at h with hcap hpayload
    cases h
    have hbig : 4 ≤ n := by
      by_contra hsmall
      obtain rfl | rfl | rfl | rfl : n = 0 ∨ n = 1 ∨ n = 2 ∨ n = 3 := by omega
      · exact h0 rfl
      · exact h1 rfl
      · exact h2 rfl
      · exact h3 rfl
    have hlen : ((buf.take n).drop 4).length + 4 = n := by
      rw [List.length_drop, List.length_take]
      omega
    have hparts : buf.take 4 ++ (buf.take n).drop 4 = buf.take n := by
      rw [← Nat.min_eq_left hbig, ← List.take_take, Nat.min_eq_left hbig, List.take_append_drop]
    refine ⟨buf.take 4, (buf.take n).drop 4, n, ?_, hfour, hvalue, ?_⟩
    · rw [hparts, List.take_append_drop]
    · have hdata : Behind (((buf.take n).drop 4).length + 4) ((buf.take n).drop 4)
          (.data ((buf.take n).drop 4)) := .data (by omega)
      rwa [hlen] at hdata

/-- **What `read` takes**, in bytes. -/
theorem read_iff {buf rest : List UInt8} {line : PktLine} :
    read buf = .ok (line, rest) ↔ ∃ bytes, buf = bytes ++ rest ∧ LooseFrame bytes line := by
  constructor
  · intro h
    obtain ⟨head, payload, n, rfl, hlen, hvalue, hbehind⟩ := behind_of_read h
    refine ⟨head ++ payload, rfl, ?_⟩
    rcases (lengthPrefix_iff hlen).mp hvalue with hhex | ⟨digits, rfl, hhex⟩
    · exact Or.inl ⟨head, payload, n, rfl, hlen, hhex, hbehind⟩
    · exact Or.inr ⟨digits, payload, n, rfl, by simpa using hlen, hhex, hbehind⟩
  · rintro ⟨bytes, rfl, ⟨digits, payload, n, rfl, hlen, hhex, hbehind⟩ |
      ⟨digits, payload, n, rfl, hlen, hhex, hbehind⟩⟩
    · exact read_behind hlen ((lengthPrefix_iff hlen).mpr (Or.inl hhex)) hbehind
    · have hfour : (UInt8.ofNat '+'.toNat :: digits).length = 4 := by
        rw [List.length_cons, hlen]
      rw [← List.cons_append]
      exact read_behind hfour
        ((lengthPrefix_iff hfour).mpr (Or.inr ⟨digits, rfl, hhex⟩)) hbehind

/-! ### Streams -/

theorem Stream.mono {frame frame' : List UInt8 → PktLine → Prop}
    (hsub : ∀ bytes line, frame bytes line → frame' bytes line) {bytes : List UInt8}
    {lines : List PktLine} (h : Stream frame bytes lines) : Stream frame' bytes lines := by
  induction h with
  | nil => exact .nil
  | cons hframe _ ih => exact .cons (hsub _ _ hframe) ih

theorem Stream.loose {bytes : List UInt8} {lines : List PktLine} (h : Stream Frame bytes lines) :
    Stream LooseFrame bytes lines :=
  h.mono fun _ _ => Or.inl

theorem pktIter_of_stream {bytes : List UInt8} {lines : List PktLine}
    (h : Stream LooseFrame bytes lines) (rest : List UInt8) :
    pktIter (bytes ++ rest) = lines.map .ok ++ pktIter rest := by
  induction h with
  | nil => rfl
  | @cons taken more line lines hframe _ ih =>
      have hread : read (taken ++ (more ++ rest)) = .ok (line, more ++ rest) :=
        read_iff.mpr ⟨taken, rfl, hframe⟩
      rw [List.append_assoc, pktIter, frames_of_read read_consuming hread, List.map_cons,
        List.cons_append, ← ih]
      rfl

/-- The first line that `pktIter` gives is read off the front. -/
theorem read_of_pktIter {buf : List UInt8} {line : PktLine}
    {items : List (Except PktError PktLine)} (h : pktIter buf = .ok line :: items) :
    ∃ rest, read buf = .ok (line, rest) ∧ items = pktIter rest := by
  cases hread : read buf with
  | error e =>
      cases buf with
      | nil => cases h
      | cons b buf =>
          rw [pktIter, frames, List.length_cons, readFrames, hread] at h
          cases (List.cons.inj h).1
  | ok result =>
      obtain ⟨line', rest⟩ := result
      rw [pktIter, frames_of_read read_consuming hread] at h
      obtain ⟨hline, hitems⟩ := List.cons.inj h
      cases hline
      exact ⟨rest, rfl, hitems.symm⟩

theorem stream_of_pktIter {buf : List UInt8} {lines : List PktLine}
    {items : List (Except PktError PktLine)} (h : pktIter buf = lines.map .ok ++ items) :
    ∃ bytes rest, buf = bytes ++ rest ∧ Stream LooseFrame bytes lines ∧ items = pktIter rest := by
  induction lines generalizing buf with
  | nil => exact ⟨[], buf, rfl, .nil, h.symm⟩
  | cons line lines ih =>
      obtain ⟨mid, hread, hmid⟩ := read_of_pktIter h
      obtain ⟨taken, rfl, hframe⟩ := read_iff.mp hread
      obtain ⟨bytes, rest, rfl, hstream, hitems⟩ := ih hmid.symm
      exact ⟨taken ++ bytes, rest, (List.append_assoc ..).symm, .cons hframe hstream, hitems⟩

theorem pktIter_eq_nil {buf : List UInt8} (h : pktIter buf = []) : buf = [] := by
  cases buf with
  | nil => rfl
  | cons b buf =>
      rw [pktIter, frames, List.length_cons, readFrames] at h
      split at h <;> cases h

/-- **The first flush decides.** Two streams at the front of one buffer, each with a flush
at its end and nowhere else, are the same. -/
theorem stream_unique {bytes bytes' rest rest' : List UInt8} {init init' : List PktLine}
    (hbuf : bytes ++ rest = bytes' ++ rest') (h : Stream LooseFrame bytes (init ++ [.flush]))
    (h' : Stream LooseFrame bytes' (init' ++ [.flush])) (hinit : .flush ∉ init)
    (hinit' : .flush ∉ init') :
    init = init' ∧ pktIter rest = pktIter rest' := by
  have hiter : (init.map Except.ok : List (Except PktError PktLine)) ++
      .ok .flush :: pktIter rest = init'.map .ok ++ .ok .flush :: pktIter rest' := by
    have hcut := pktIter_of_stream h rest
    rw [hbuf, pktIter_of_stream h'] at hcut
    simpa using hcut.symm
  have hmem : ∀ {lines : List PktLine}, .flush ∉ lines →
      (Except.ok PktLine.flush : Except PktError PktLine) ∉ lines.map .ok := by
    intro lines hlines hflush
    obtain ⟨line, hline, heq⟩ := List.mem_map.mp hflush
    cases heq
    exact hlines hline
  obtain ⟨hlines, hrest⟩ := cut_unique (hmem hinit) (hmem hinit') hiter
  have hinj : Function.Injective (Except.ok : PktLine → Except PktError PktLine) := by
    intro a b hab
    cases hab
    rfl
  exact ⟨List.map_injective_iff.mpr hinj hlines, hrest⟩

end Pkt
end Artifacts
