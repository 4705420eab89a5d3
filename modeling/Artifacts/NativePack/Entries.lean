import Artifacts.NativePack.Delta
import Artifacts.NativePack.Loose
import Mathlib.Data.List.Pairwise

/-!
# The entries of a pack

`parsePack` reads the header of a pack and then one entry after another, each with the
offset it starts at.  The zlib decoder is a parameter: it is given the bytes behind the
entry's header and the declared size, and returns the inflated body and the number of
bytes it took.

`Pack` is a list of entries at distinct offsets, and `parsePack_apart` says that what is parsed is
one.  Kinds, sizes and distances are read as in the source; checksums are not looked at.
-/

namespace Artifacts
namespace NativePack

open Rust

/-- What an entry's header says it is. A delta names its base by id or by its distance; which object
that is, the parser does not ask. -/
inductive ParsedKind where
  | direct (kind : ObjectKind)
  | refDelta (baseOid : Vector UInt8 20)
  | ofsDelta (baseOffsetDelta : Nat)

/-- One entry: where it begins in the pack, what it is, and what its zlib stream holds. For a delta,
`data` is the instruction stream. -/
structure ParsedEntry where
  offset : Nat
  kind : ParsedKind
  data : List UInt8

/-- The entries of one pack: at one offset there is one entry. -/
structure Pack where
  entries : List ParsedEntry
  apart : ∀ e ∈ entries, ∀ e' ∈ entries, e.offset = e'.offset → e = e'

/-- `decompress_zlib`. -/
abbrev DecompressZlib := List UInt8 → Nat → Result (List UInt8 × Nat)

/-! ### Numbers -/

/-- The continuation loop of `parse_entry_header`: the size and the header's length. -/
def parseEntryHeaderLoop : List UInt8 → UInt8 → Nat → Nat → Nat → Result (Nat × Nat)
  | [], byte, idx, _, size =>
      if byte &&& 0x80 = 0 then .ok (size, idx)
      else .error (.packParse "truncated entry header (size continuation)")
  | next :: rest, byte, idx, shift, size =>
      if byte &&& 0x80 = 0 then
        .ok (size, idx)
      else
        let size := (size ||| ((next &&& 0x7f).toNat <<< shift)) % 2 ^ 64
        if 63 < shift + 7 then .error (.packParse "entry header size overflows u64")
        else parseEntryHeaderLoop rest next (idx + 1) (shift + 7) size

/-- `parse_entry_header`: the type code, the declared size and the header's length. -/
def parseEntryHeader : List UInt8 → Result (Nat × Nat × Nat)
  | [] => .error (.packParse "empty header buffer")
  | first :: rest =>
      match parseEntryHeaderLoop rest first 1 4 (first &&& 0xf).toNat with
      | .error e => .error e
      | .ok (size, headerLen) => .ok (((first >>> 4) &&& 7).toNat, size, headerLen)

/-- The continuation loop of `parse_ofs_delta_offset`. -/
def parseOfsDeltaOffsetLoop : List UInt8 → UInt8 → Nat → Nat → Result (Nat × Nat)
  | [], byte, idx, value =>
      if byte &&& 0x80 = 0 then .ok (value, idx)
      else .error (.packParse "truncated OFS_DELTA offset (continuation)")
  | next :: rest, byte, idx, value =>
      if byte &&& 0x80 = 0 then
        .ok (value, idx)
      else if value + 1 = 2 ^ 64 then
        .error (.packParse "OFS_DELTA offset overflow")
      else
        -- `checked_shl` checks the shift only: bits beyond the 64th are lost
        parseOfsDeltaOffsetLoop rest next (idx + 1)
          (((value + 1) <<< 7) % 2 ^ 64 ||| (next &&& 0x7f).toNat)

/-- `parse_ofs_delta_offset`: the offset, and how many bytes it takes. -/
def parseOfsDeltaOffset : List UInt8 → Result (Nat × Nat)
  | [] => .error (.packParse "empty OFS_DELTA buffer")
  | first :: rest => parseOfsDeltaOffsetLoop rest first 1 (first &&& 0x7f).toNat

/-- `u32::from_be_bytes`. -/
def fromBeBytes (bytes : List UInt8) : Nat :=
  bytes.foldl (fun n b => n * 256 + b.toNat) 0

/-! ### The entry loop -/

/-- The kind of entry `i` from its type code, and the cursor behind what belongs to it. -/
def parseKind (pack : List UInt8) (i cursor : Nat) : Nat → Result (ParsedKind × Nat)
  | 1 => .ok (.direct .commit, cursor)
  | 2 => .ok (.direct .tree, cursor)
  | 3 => .ok (.direct .blob, cursor)
  | 4 => .ok (.direct .tag, cursor)
  | 7 =>
      if h : (((pack.drop cursor).take 20).toArray).size = 20 then
        .ok (.refDelta ⟨((pack.drop cursor).take 20).toArray, h⟩, cursor + 20)
      else
        .error (.packParse ("entry " ++ toString i ++ ": truncated REF_DELTA base OID at offset " ++
          toString cursor))
  | 6 =>
      match parseOfsDeltaOffset (pack.drop cursor) with
      | .error e =>
          .error (.packParse ("entry " ++ toString i ++ ": OFS_DELTA base-offset parse at " ++
            toString cursor ++ ": " ++ e.display))
      | .ok (baseOffsetDelta, consumed) => .ok (.ofsDelta baseOffsetDelta, cursor + consumed)
  | other =>
      .error (.packParse ("entry " ++ toString i ++ ": unknown object type " ++ toString other))

/-- The loop over the entries of `parse_pack`, for so many entries from number `i` on. -/
def parseEntries (decompressZlib : DecompressZlib) (pack : List UInt8) :
    Nat → Nat → Nat → Result (List ParsedEntry)
  | 0, _, _ => .ok []
  | more + 1, i, start =>
      match parseEntryHeader (pack.drop start) with
      | .error e =>
          .error (.packParse ("entry " ++ toString i ++ " at offset " ++ toString start ++
            ": header parse: " ++ e.display))
      | .ok (kindByte, declaredSize, headerLen) =>
          if maxEntryBytes < declaredSize then
            .error (.packParse ("entry " ++ toString i ++ ": declared size " ++
              toString declaredSize ++ " exceeds " ++ toString maxEntryBytes ++ "-byte cap"))
          else
            match parseKind pack i (start + headerLen) kindByte with
            | .error e => .error e
            | .ok (kind, cursor) =>
                match decompressZlib (pack.drop cursor) declaredSize with
                | .error e =>
                    .error (.packParse ("entry " ++ toString i ++ " at offset " ++ toString start ++
                      ": zlib decompress: " ++ e.display))
                | .ok (data, compressedLen) =>
                    match parseEntries decompressZlib pack more (i + 1)
                        (cursor + compressedLen) with
                    | .error e => .error e
                    | .ok entries => .ok (⟨start, kind, data⟩ :: entries)

/-- `parse_pack`. It reads as many entries as the header announces; the trailer behind them is not
looked at. -/
def parsePack (decompressZlib : DecompressZlib) (pack : List UInt8) :
    Result (List ParsedEntry) :=
  if pack.length < 12 then
    .error (.packParse ("pack too short for header: " ++ toString pack.length ++ " bytes"))
  else if pack.take 4 ≠ asBytes "PACK" then
    .error (.packParse "missing PACK magic at offset 0")
  else
    let version := fromBeBytes ((pack.drop 4).take 4)
    if version ≠ 2 then
      .error (.packParse ("unsupported pack version: " ++ toString version))
    else
      parseEntries decompressZlib pack (fromBeBytes ((pack.drop 8).take 4)) 0 12

/-! ### Offsets -/

theorem parseEntryHeaderLoop_pos {rest : List UInt8} {byte : UInt8} {idx shift size : Nat}
    {result : Nat × Nat} (h : parseEntryHeaderLoop rest byte idx shift size = .ok result) :
    idx ≤ result.2 := by
  induction rest generalizing byte idx shift size with
  | nil =>
      unfold parseEntryHeaderLoop at h
      split_ifs at h
      cases h
      exact Nat.le_refl idx
  | cons next rest ih =>
      unfold parseEntryHeaderLoop at h
      split_ifs at h
      · cases h
        exact Nat.le_refl idx
      · exact Nat.le_of_succ_le (ih h)

theorem parseEntryHeader_pos {bytes : List UInt8} {kind size headerLen : Nat}
    (h : parseEntryHeader bytes = .ok (kind, size, headerLen)) : 0 < headerLen := by
  cases bytes with
  | nil => cases h
  | cons first rest =>
      simp only [parseEntryHeader] at h
      cases hloop : parseEntryHeaderLoop rest first 1 4 (first &&& 0xf).toNat with
      | error e =>
          rw [hloop] at h
          cases h
      | ok result =>
          rw [hloop] at h
          cases h
          exact parseEntryHeaderLoop_pos hloop

theorem parseKind_le {pack : List UInt8} {i cursor kindByte : Nat} {result : ParsedKind × Nat}
    (h : parseKind pack i cursor kindByte = .ok result) : cursor ≤ result.2 := by
  unfold parseKind at h
  split at h
  · cases h
    exact Nat.le_refl cursor
  · cases h
    exact Nat.le_refl cursor
  · cases h
    exact Nat.le_refl cursor
  · cases h
    exact Nat.le_refl cursor
  · split_ifs at h
    cases h
    exact Nat.le_add_right cursor 20
  · split at h
    · cases h
    · cases h
      exact Nat.le_add_right cursor _
  · cases h

/-- The entries start at ever larger offsets. -/
theorem parseEntries_offsets {decompressZlib : DecompressZlib}
    {pack : List UInt8} {more i start : Nat} {entries : List ParsedEntry}
    (h : parseEntries decompressZlib pack more i start = .ok entries) :
    (∀ e ∈ entries, start ≤ e.offset) ∧ entries.Pairwise fun e e' => e.offset < e'.offset := by
  induction more generalizing i start entries with
  | zero =>
      cases h
      exact ⟨nofun, List.Pairwise.nil⟩
  | succ more ih =>
      unfold parseEntries at h
      split at h
      · cases h
      rename_i kindByte declaredSize headerLen hheader
      split_ifs at h
      split at h
      · cases h
      rename_i kind cursor hkind
      split at h
      · cases h
      rename_i data compressedLen _
      split at h
      · cases h
      rename_i rest hrest
      cases h
      obtain ⟨hfrom, hsorted⟩ := ih hrest
      have hpos := parseEntryHeader_pos hheader
      have hcursor := parseKind_le hkind
      have hnext : ∀ e ∈ rest, start < e.offset := by
        intro e he
        have := hfrom e he
        simp only [] at hcursor
        omega
      refine ⟨fun e he => ?_, List.pairwise_cons.mpr ⟨hnext, hsorted⟩⟩
      rcases List.mem_cons.mp he with rfl | he
      · exact Nat.le_refl start
      · exact Nat.le_of_lt (hnext e he)

/-- **What `parse_pack` returns is a pack.** -/
theorem parsePack_apart {decompressZlib : DecompressZlib}
    {bytes : List UInt8} {entries : List ParsedEntry}
    (h : parsePack decompressZlib bytes = .ok entries) :
    ∃ pack : Pack, pack.entries = entries := by
  have hsorted : entries.Pairwise fun e e' => e.offset < e'.offset := by
    unfold parsePack at h
    split_ifs at h
    simp only [] at h
    split_ifs at h
    exact (parseEntries_offsets h).2
  refine ⟨⟨entries, fun e he e' he' heq => ?_⟩, rfl⟩
  by_contra hne
  have hapart : entries.Pairwise fun e e' => e.offset ≠ e'.offset :=
    hsorted.imp fun hlt => Nat.ne_of_lt hlt
  have : Std.Symm fun e e' : ParsedEntry => e.offset ≠ e'.offset := ⟨fun _ _ h => Ne.symm h⟩
  exact hapart.forall he he' hne heq

end NativePack
end Artifacts
