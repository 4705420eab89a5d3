import Artifacts.NativePack.Entries

/-!
# Inflating the entries of a pack

`decompressZlib` feeds a streaming zlib decoder until it reports the end of the stream.  The
decoder is a parameter; `StreamDecoder` says of it that it keeps to its buffers and that the
end of a stream does not depend on how it is fed.  The entries of a pack that `parsePack`
accepts follow each other from byte 12 on.  Whether an entry has as many bytes as its
header declares, and what follows the last one, is not looked at.

* `Ends` and `Feeds` are runs of the decoder, and `inflateLoop` is one of them.
* `Tiled` is what a pack should be, `FullFrom` the part of it that the parser does not check.

The hash in the trailer is not checked by the source, so nothing is said of it.
-/

namespace Artifacts
namespace NativePack

open Rust

/-! ### The decoder -/

/-- `flate2::Status`. -/
inductive Status where
  | ok
  | bufError
  | streamEnd
  deriving DecidableEq, Repr

/-- What one call of the decoder does. The decoder is a state that is handed on to the next call. -/
structure Inflated (δ : Type) where
  decoder : δ
  /-- The number of input bytes it took. -/
  taken : Nat
  /-- The bytes it put into the output buffer. -/
  given : List UInt8
  status : Status

/-- `flate2::Decompress`: a call gets the input that is left and the room in the output
buffer. -/
structure Decompress where
  State : Type
  new : State
  decompress : State → List UInt8 → Nat → Except String (Inflated State)

/-- The output buffer before a call: always with some room. -/
def grow (out : List UInt8) (used : Nat) : List UInt8 :=
  if out.length ≤ used then
    out ++ List.replicate (max (used + 4096) (out.length + 1) - out.length) 0
  else
    out

/-- The output buffer after a call. -/
def putAt (out : List UInt8) (used : Nat) (given : List UInt8) : List UInt8 :=
  out.take used ++ given ++ out.drop (used + given.length)

/-- The loop of `decompress_zlib`.  A turn that takes nothing and gives nothing ends it, so
the lengths of input and output bound the number of turns. -/
def inflateLoop (z : Decompress) (bytes : List UInt8) (maxOut : Nat) :
    Nat → z.State → Nat → List UInt8 → Nat → Result (List UInt8 × Nat)
  | 0, _, _, _, _ => .error (.packParse "zlib stalled (no progress on Ok/BufError)")
  | turns + 1, decoder, totalIn, out, totalOut =>
      let out := grow out totalOut
      match z.decompress decoder (bytes.drop totalIn) (out.length - totalOut) with
      | .error e => .error (.packParse ("zlib: " ++ e))
      | .ok step =>
          let out := putAt out totalOut step.given
          let consumed := totalIn + step.taken
          let produced := totalOut + step.given.length
          if maxOut < produced then
            .error (.packParse ("decompressed entry exceeds " ++ toString maxOut ++
              "-byte declared size"))
          else
            match step.status with
            | .streamEnd => .ok (out.take produced, consumed)
            | .ok | .bufError =>
                if totalIn < consumed ∨ totalOut < produced then
                  inflateLoop z bytes maxOut turns step.decoder consumed out produced
                else
                  .error (.packParse "zlib stalled (no progress on Ok/BufError)")

/-- `decompress_zlib`: the content of the stream at the front, and how many bytes it took. The fuel
is more than the turns that the two lengths allow. -/
def decompressZlib (z : Decompress) (bytes : List UInt8) (maxOut : Nat) :
    Result (List UInt8 × Nat) :=
  inflateLoop z bytes maxOut (bytes.length + maxOut + 1) z.new 0 [] 0

/-! ### Streams -/

/-- A state of the decoder in the middle of a stream, what it took and what it gave. -/
inductive Feeds (z : Decompress) (bytes : List UInt8) : z.State → Nat → List UInt8 → Prop where
  | start : Feeds z bytes z.new 0 []
  | call {decoder : z.State} {taken room : Nat} {given : List UInt8} {step : Inflated z.State} :
      Feeds z bytes decoder taken given →
      z.decompress decoder (bytes.drop taken) room = .ok step → step.status ≠ .streamEnd →
      Feeds z bytes step.decoder (taken + step.taken) (given ++ step.given)

/-- Fed with `bytes`, the decoder gets to the end of its stream: so many bytes, with this
content. -/
def Ends (z : Decompress) (bytes : List UInt8) (taken : Nat) (given : List UInt8) : Prop :=
  ∃ decoder before out room step, Feeds z bytes decoder before out ∧
    z.decompress decoder (bytes.drop before) room = .ok step ∧ step.status = .streamEnd ∧
    taken = before + step.taken ∧ given = out ++ step.given

/-- A streaming decoder: it keeps to its buffers, and the stream at the front of some bytes (its
length and its content) does not depend on how the decoder is fed. How it decodes is not asked, nor
that it ever ends. -/
structure StreamDecoder (z : Decompress) (inflate : List UInt8 → Option (Nat × List UInt8)) :
    Prop where
  within : ∀ decoder input room step, z.decompress decoder input room = .ok step →
    step.taken ≤ input.length ∧ step.given.length ≤ room
  stream : ∀ bytes taken given, Ends z bytes taken given → inflate bytes = some (taken, given)

theorem lt_length_grow (out : List UInt8) (used : Nat) : used < (grow out used).length := by
  unfold grow
  split_ifs with h
  · rw [List.length_append, List.length_replicate]
    omega
  · omega

theorem take_grow {out : List UInt8} {used : Nat} (h : used ≤ out.length) :
    (grow out used).take used = out.take used := by
  unfold grow
  split_ifs
  · exact List.take_append_of_le_length h
  · rfl

/-- The part of the buffer that is in use, after a call. -/
theorem take_putAt {out given : List UInt8} {used : Nat} (h : used ≤ out.length) :
    (putAt out used given).take (used + given.length) = out.take used ++ given := by
  have hlength : (out.take used ++ given).length = used + given.length := by
    rw [List.length_append, List.length_take, Nat.min_eq_left h]
  unfold putAt
  rw [← hlength]
  exact List.take_left

theorem le_length_putAt {out given : List UInt8} {used : Nat} (h : used ≤ out.length) :
    used + given.length ≤ (putAt out used given).length := by
  unfold putAt
  rw [List.length_append, List.length_append, List.length_take, Nat.min_eq_left h]
  omega

section Turn

variable {z : Decompress} {bytes : List UInt8} {maxOut : Nat} {decoder : z.State}
  {totalIn totalOut : Nat} {out : List UInt8} {step : Inflated z.State}
  (hstep : z.decompress decoder (bytes.drop totalIn) ((grow out totalOut).length - totalOut) =
    .ok step)

include hstep

/-- The turn that reaches the end of the stream. -/
theorem inflateLoop_of_end (turns : Nat) (hsmall : ¬ maxOut < totalOut + step.given.length)
    (hend : step.status = .streamEnd) :
    inflateLoop z bytes maxOut (turns + 1) decoder totalIn out totalOut =
      .ok ((putAt (grow out totalOut) totalOut step.given).take (totalOut + step.given.length),
        totalIn + step.taken) := by
  simp only [inflateLoop, hstep, if_neg hsmall, hend]

/-- A turn in the middle of the stream. -/
theorem inflateLoop_of_middle (turns : Nat) (hsmall : ¬ maxOut < totalOut + step.given.length)
    (hmiddle : step.status ≠ .streamEnd) :
    inflateLoop z bytes maxOut (turns + 1) decoder totalIn out totalOut =
      if totalIn < totalIn + step.taken ∨ totalOut < totalOut + step.given.length then
        inflateLoop z bytes maxOut turns step.decoder (totalIn + step.taken)
          (putAt (grow out totalOut) totalOut step.given) (totalOut + step.given.length)
      else
        .error (.packParse "zlib stalled (no progress on Ok/BufError)") := by
  simp only [inflateLoop, hstep, if_neg hsmall]
  cases hstatus : step.status with
  | ok => rfl
  | bufError => rfl
  | streamEnd => exact absurd hstatus hmiddle

/-- A turn that gives too much. -/
theorem inflateLoop_of_large (turns : Nat) (hlarge : maxOut < totalOut + step.given.length) :
    inflateLoop z bytes maxOut (turns + 1) decoder totalIn out totalOut =
      .error (.packParse ("decompressed entry exceeds " ++ toString maxOut ++
        "-byte declared size")) := by
  simp only [inflateLoop, hstep, if_pos hlarge]

end Turn

/-- **What `decompress_zlib` returns is the stream at the front of the input.** -/
theorem inflateLoop_ends {z : Decompress} {bytes : List UInt8} {maxOut turns : Nat}
    {decoder : z.State} {totalIn totalOut consumed : Nat} {out data : List UInt8}
    (hfeeds : Feeds z bytes decoder totalIn (out.take totalOut)) (hused : totalOut ≤ out.length)
    (h : inflateLoop z bytes maxOut turns decoder totalIn out totalOut = .ok (data, consumed)) :
    Ends z bytes consumed data := by
  induction turns generalizing decoder totalIn totalOut out with
  | zero => cases h
  | succ turns ih =>
      have hroom : totalOut ≤ (grow out totalOut).length :=
        Nat.le_of_lt (lt_length_grow out totalOut)
      rw [← take_grow hused] at hfeeds
      cases hstep : z.decompress decoder (bytes.drop totalIn)
          ((grow out totalOut).length - totalOut) with
      | error e =>
          simp only [inflateLoop, hstep] at h
          cases h
      | ok step =>
          by_cases hlarge : maxOut < totalOut + step.given.length
          · rw [inflateLoop_of_large hstep turns hlarge] at h
            cases h
          · by_cases hend : step.status = .streamEnd
            · rw [inflateLoop_of_end hstep turns hlarge hend] at h
              cases h
              exact ⟨decoder, totalIn, _, _, step, hfeeds, hstep, hend, rfl, take_putAt hroom⟩
            · have hnext := hfeeds.call hstep hend
              rw [← take_putAt hroom] at hnext
              rw [inflateLoop_of_middle hstep turns hlarge hend] at h
              split_ifs at h
              exact ih hnext (le_length_putAt hroom) h

theorem decompressZlib_ends {z : Decompress} {bytes data : List UInt8} {maxOut consumed : Nat}
    (h : decompressZlib z bytes maxOut = .ok (data, consumed)) : Ends z bytes consumed data :=
  inflateLoop_ends Feeds.start (Nat.le_refl 0) h

/-! ### The entries of an accepted pack -/

/-- Where an entry lies, by the header at its offset and the stream behind it. -/
structure EntrySpan where
  declared : Nat
  /-- The size of the stream's content. -/
  inflated : Nat
  /-- Where the entry ends. -/
  stop : Nat
  deriving DecidableEq, Repr

/-- The entry that starts at an offset. -/
def entrySpan (inflate : List UInt8 → Option (Nat × List UInt8)) (pack : List UInt8)
    (start : Nat) : Option EntrySpan :=
  match parseEntryHeader (pack.drop start) with
  | .error _ => none
  | .ok (kindByte, declared, headerLen) =>
      match parseKind pack 0 (start + headerLen) kindByte with
      | .error _ => none
      | .ok (_, body) =>
          match inflate (pack.drop body) with
          | none => none
          | some (taken, given) => some ⟨declared, given.length, body + taken⟩

/-- The entries begin at `start`, each where the one before it ended, the last one ends 20
bytes before the end of the pack, and each has the size its header declares. -/
def TiledFrom (inflate : List UInt8 → Option (Nat × List UInt8)) (pack : List UInt8) :
    Nat → List ParsedEntry → Prop
  | start, [] => start + 20 = pack.length
  | start, e :: entries => e.offset = start ∧ ∃ span, entrySpan inflate pack start = some span ∧
      e.data.length = span.declared ∧ TiledFrom inflate pack span.stop entries

/-- As many entries as the header counts, and they tile the body. -/
def Tiled (inflate : List UInt8 → Option (Nat × List UInt8)) (pack : List UInt8)
    (entries : List ParsedEntry) : Prop :=
  entries.length = fromBeBytes ((pack.drop 8).take 4) ∧ TiledFrom inflate pack 12 entries

/-- So many streams from an offset on have the declared sizes, and 20 bytes are left. -/
def FullFrom (inflate : List UInt8 → Option (Nat × List UInt8)) (pack : List UInt8) :
    Nat → Nat → Prop
  | 0, start => start + 20 = pack.length
  | more + 1, start => ∃ span, entrySpan inflate pack start = some span ∧
      span.inflated = span.declared ∧ FullFrom inflate pack more span.stop

/-- The cursor and whether it is there do not depend on the entry's number. -/
theorem parseKind_number {pack : List UInt8} {i cursor kindByte : Nat}
    {result : ParsedKind × Nat} (h : parseKind pack i cursor kindByte = .ok result) :
    parseKind pack 0 cursor kindByte = .ok result := by
  unfold parseKind at h ⊢
  split at h
  · exact h
  · exact h
  · exact h
  · exact h
  · split_ifs at h ⊢
    exact h
  · split at h
    · cases h
    · exact h
  · cases h

/-- **One entry**: what `parse_pack` makes of it is what lies there. -/
theorem entrySpan_of_parse {z : Decompress}
    {inflate : List UInt8 → Option (Nat × List UInt8)} (hz : StreamDecoder z inflate)
    {pack data : List UInt8} {i start kindByte declared headerLen body consumed : Nat}
    {kind : ParsedKind} (hheader : parseEntryHeader (pack.drop start) =
      .ok (kindByte, declared, headerLen))
    (hkind : parseKind pack i (start + headerLen) kindByte = .ok (kind, body))
    (hdata : decompressZlib z (pack.drop body) declared = .ok (data, consumed)) :
    entrySpan inflate pack start = some ⟨declared, data.length, body + consumed⟩ := by
  have hstream := hz.stream _ _ _ (decompressZlib_ends hdata)
  rw [entrySpan, hheader]
  simp only [parseKind_number hkind, hstream]

theorem tiledFrom_iff {z : Decompress} {inflate : List UInt8 → Option (Nat × List UInt8)}
    (hz : StreamDecoder z inflate) {pack : List UInt8} {more i start : Nat}
    {entries : List ParsedEntry}
    (h : parseEntries (decompressZlib z) pack more i start = .ok entries) :
    entries.length = more ∧
      (TiledFrom inflate pack start entries ↔ FullFrom inflate pack more start) := by
  induction more generalizing i start entries with
  | zero =>
      cases h
      exact ⟨rfl, Iff.rfl⟩
  | succ more ih =>
      unfold parseEntries at h
      split at h
      · cases h
      rename_i kindByte declared headerLen hheader
      split_ifs at h
      split at h
      · cases h
      rename_i kind body hkind
      split at h
      · cases h
      rename_i data consumed hdata
      split at h
      · cases h
      rename_i rest hrest
      cases h
      obtain ⟨hlength, hiff⟩ := ih hrest
      have hspan := entrySpan_of_parse hz hheader hkind hdata
      refine ⟨by rw [List.length_cons, hlength], ?_⟩
      constructor
      · rintro ⟨-, span, hspan', hsize, htiled⟩
        obtain rfl := Option.some.inj (hspan.symm.trans hspan')
        exact ⟨_, hspan, hsize, hiff.mp htiled⟩
      · rintro ⟨span, hspan', hsize, hfull⟩
        obtain rfl := Option.some.inj (hspan.symm.trans hspan')
        exact ⟨rfl, _, hspan, hsize, hiff.mpr hfull⟩

/-- **When the entries of an accepted pack tile it.** Exactly when every stream has the size its
header declares, and 20 bytes are left behind the last one. The pack is any that `parse_pack`
accepts. Of the zlib decoder nothing is used but `StreamDecoder`: that it keeps to its buffers, and
that the stream at the front of some bytes does not depend on how it is fed. -/
theorem parse_pack_tiles_iff (z : Decompress)
    (inflate : List UInt8 → Option (Nat × List UInt8)) (hz : StreamDecoder z inflate)
    (pack : List UInt8) (entries : List ParsedEntry)
    (h : parsePack (decompressZlib z) pack = .ok entries) :
    Tiled inflate pack entries ↔
      FullFrom inflate pack (fromBeBytes ((pack.drop 8).take 4)) 12 := by
  have hloop : parseEntries (decompressZlib z) pack (fromBeBytes ((pack.drop 8).take 4)) 0 12 =
      .ok entries := by
    unfold parsePack at h
    split_ifs at h
    simp only [] at h
    split_ifs at h
    exact h
  obtain ⟨hlength, hiff⟩ := tiledFrom_iff hz hloop
  exact ⟨fun htiled => hiff.mp htiled.2, fun hfull => ⟨hlength, hiff.mpr hfull⟩⟩

/-! ### A blob and a delta -/

/-- A decoder that knows some streams and what they inflate to. -/
def fixedDecoder (known : List (List UInt8 × List UInt8)) : Decompress where
  State := Unit
  new := ()
  decompress _ input room :=
    match known.find? fun s => s.1.isPrefixOf input with
    | none => .error "corrupt deflate stream"
    | some s =>
        if s.2.length ≤ room then .ok ⟨(), s.1.length, s.2, .streamEnd⟩
        else .error "corrupt deflate stream"

def fixedInflate (known : List (List UInt8 × List UInt8)) (bytes : List UInt8) :
    Option (Nat × List UInt8) :=
  (known.find? fun s => s.1.isPrefixOf bytes).map fun s => (s.1.length, s.2)

theorem fixedDecoder_ok {known : List (List UInt8 × List UInt8)} {decoder : Unit}
    {input : List UInt8} {room : Nat} {step : Inflated Unit}
    (h : (fixedDecoder known).decompress decoder input room = .ok step) :
    ∃ s, known.find? (fun s => s.1.isPrefixOf input) = some s ∧ s.2.length ≤ room ∧
      step = ⟨(), s.1.length, s.2, .streamEnd⟩ := by
  simp only [fixedDecoder] at h
  split at h
  · cases h
  · rename_i s hfound
    split_ifs at h with hroom
    cases h
    exact ⟨s, hfound, hroom, rfl⟩

theorem fixedDecoder_stream (known : List (List UInt8 × List UInt8)) :
    StreamDecoder (fixedDecoder known) (fixedInflate known) where
  within := by
    intro decoder input room step h
    obtain ⟨s, hfound, hroom, rfl⟩ := fixedDecoder_ok h
    have hbegins := List.find?_some hfound
    exact ⟨(List.isPrefixOf_iff_prefix.mp hbegins).length_le, hroom⟩
  stream := by
    rintro bytes taken given ⟨decoder, before, out, room, step, hfeeds, hstep, -, rfl, rfl⟩
    cases hfeeds with
    | start =>
        obtain ⟨s, hfound, -, rfl⟩ := fixedDecoder_ok hstep
        rw [List.drop_zero] at hfound
        unfold fixedInflate
        rw [hfound]
        simp
    | call _ hcall hmiddle =>
        -- its first call ends the stream, if it answers at all
        obtain ⟨s, -, -, rfl⟩ := fixedDecoder_ok hcall
        exact absurd rfl hmiddle

theorem decompress_fixed {known : List (List UInt8 × List UInt8)} {input : List UInt8}
    {s : List UInt8 × List UInt8} (hfound : known.find? (fun s => s.1.isPrefixOf input) = some s)
    (hsmall : s.2.length ≤ 16) {declared : Nat} (h : s.2.length ≤ declared) :
    decompressZlib (fixedDecoder known) input declared = .ok (s.2, s.1.length) := by
  have hroom : s.2.length ≤ (grow [] 0).length - 0 := by
    unfold grow
    rw [List.length_nil, if_pos (Nat.le_refl 0), List.nil_append, List.length_replicate]
    omega
  have hstep : (fixedDecoder known).decompress (fixedDecoder known).new (input.drop 0)
      ((grow [] 0).length - 0) = .ok ⟨(), s.1.length, s.2, .streamEnd⟩ := by
    simp only [fixedDecoder, List.drop_zero, hfound, if_pos hroom]
  have hfits : ¬ declared < 0 + s.2.length := by omega
  rw [decompressZlib, inflateLoop_of_end hstep _ hfits rfl]
  exact congrArg₂ (fun data taken => Except.ok (data, taken)) (take_putAt (Nat.zero_le _))
    (Nat.zero_add _)

/-- The zlib stream of the two bytes of `hi`, in a stored block. -/
def hiStream : List UInt8 :=
  [0x78, 0x01, 0x01, 0x02, 0x00, 0xfd, 0xff, 0x68, 0x69, 0x01, 0x3b, 0x00, 0xd2]

/-- A delta that puts an exclamation mark behind them. -/
def exclaim : List UInt8 := [2, 3, 0x90, 2, 1, 0x21]

def exclaimStream : List UInt8 :=
  [0x78, 0x01, 0x01, 0x06, 0x00, 0xf9, 0xff] ++ exclaim ++ [0x02, 0x8a, 0x00, 0xba]

def exclaimPack : List UInt8 :=
  [0x50, 0x41, 0x43, 0x4b, 0, 0, 0, 2, 0, 0, 0, 2, 0x32] ++ hiStream ++ [0x66, 0x0e] ++
    exclaimStream ++ List.replicate 20 0

def exclaimKnown : List (List UInt8 × List UInt8) :=
  [(hiStream, [0x68, 0x69]), (exclaimStream, exclaim)]

/-- Under the sizes that the streams have, blob and delta fill the pack. -/
theorem parse_pack_tiles_exclaim :
    parsePack (decompressZlib (fixedDecoder exclaimKnown)) exclaimPack =
        .ok [⟨12, .direct .blob, [0x68, 0x69]⟩, ⟨26, .ofsDelta 14, exclaim⟩] ∧
      Tiled (fixedInflate exclaimKnown) exclaimPack
        [⟨12, .direct .blob, [0x68, 0x69]⟩, ⟨26, .ofsDelta 14, exclaim⟩] := by
  have hblob : decompressZlib (fixedDecoder exclaimKnown) (exclaimPack.drop 13) 2 =
      .ok ([0x68, 0x69], 13) :=
    @decompress_fixed exclaimKnown _ (hiStream, [0x68, 0x69]) rfl (by decide) 2 (by decide)
  have hdelta : decompressZlib (fixedDecoder exclaimKnown) (exclaimPack.drop 28) 6 =
      .ok (exclaim, 17) :=
    @decompress_fixed exclaimKnown _ (exclaimStream, exclaim) rfl (by decide) 6 (by decide)
  have hheader : parseEntryHeader (exclaimPack.drop 12) = .ok (3, 2, 1) := rfl
  have hheader' : parseEntryHeader (exclaimPack.drop 26) = .ok (6, 6, 1) := rfl
  have hkind : parseKind exclaimPack 1 27 6 = .ok (.ofsDelta 14, 28) := rfl
  have hloop : parseEntries (decompressZlib (fixedDecoder exclaimKnown)) exclaimPack 2 0 12 =
      .ok [⟨12, .direct .blob, [0x68, 0x69]⟩, ⟨26, .ofsDelta 14, exclaim⟩] := by
    rw [parseEntries, hheader]
    simp only [if_neg (by decide : ¬ maxEntryBytes < 2), parseKind, hblob]
    rw [parseEntries, hheader']
    simp only [if_neg (by decide : ¬ maxEntryBytes < 6), hkind, hdelta, parseEntries]
  have hparse : parsePack (decompressZlib (fixedDecoder exclaimKnown)) exclaimPack =
      .ok [⟨12, .direct .blob, [0x68, 0x69]⟩, ⟨26, .ofsDelta 14, exclaim⟩] := by
    have hmagic : exclaimPack.take 4 = asBytes "PACK" := by decide +kernel
    have hversion : fromBeBytes ((exclaimPack.drop 4).take 4) = 2 := rfl
    have hcount : fromBeBytes ((exclaimPack.drop 8).take 4) = 2 := rfl
    have hlong : ¬ exclaimPack.length < 12 := by decide +kernel
    rw [parsePack, if_neg hlong, if_neg (not_not.mpr hmagic)]
    simp only [hversion, hcount]
    rw [if_neg (not_not.mpr rfl)]
    exact hloop
  refine ⟨hparse, (parse_pack_tiles_iff (fixedDecoder exclaimKnown) (fixedInflate exclaimKnown)
    (fixedDecoder_stream exclaimKnown) _ _ hparse).mpr ?_⟩
  exact ⟨⟨2, 2, 26⟩, rfl, rfl, ⟨6, 6, 45⟩, rfl, rfl, rfl⟩

/-! ### A pack with one blob -/

/-- A decoder that knows the stream of `hi`. -/
def hiDecoder : Decompress where
  State := Unit
  new := ()
  decompress _ input room :=
    if hiStream.isPrefixOf input && 2 ≤ room then
      .ok ⟨(), 13, [0x68, 0x69], .streamEnd⟩
    else
      .error "corrupt deflate stream"

def hiInflate (bytes : List UInt8) : Option (Nat × List UInt8) :=
  if hiStream.isPrefixOf bytes then some (13, [0x68, 0x69]) else none

theorem hiDecoder_stream : StreamDecoder hiDecoder hiInflate where
  within := by
    intro decoder input room step h
    simp only [hiDecoder] at h
    split_ifs at h with hfits
    cases h
    obtain ⟨hbegins, hroom⟩ := Bool.and_eq_true_iff.mp hfits
    exact ⟨(List.isPrefixOf_iff_prefix.mp hbegins).length_le, of_decide_eq_true hroom⟩
  stream := by
    rintro bytes taken given ⟨decoder, before, out, room, step, hfeeds, hstep, -, rfl, rfl⟩
    cases hfeeds with
    | start =>
        simp only [hiDecoder, List.drop_zero] at hstep
        split_ifs at hstep with hfits
        cases hstep
        exact if_pos (Bool.and_eq_true_iff.mp hfits).1
    | call _ hcall hmiddle =>
        -- its first call ends the stream, if it answers at all
        simp only [hiDecoder] at hcall
        split_ifs at hcall
        cases hcall
        exact absurd rfl hmiddle

/-- A pack of one blob with this stream, under a header that declares so many bytes. -/
def hiPack (declared : UInt8) : List UInt8 :=
  [0x50, 0x41, 0x43, 0x4b, 0, 0, 0, 2, 0, 0, 0, 1, 0x30 + declared] ++ hiStream ++
    List.replicate 20 0

theorem decompress_hiStream (rest : List UInt8) {declared : Nat} (h : 2 ≤ declared) :
    decompressZlib hiDecoder (hiStream ++ rest) declared = .ok ([0x68, 0x69], 13) := by
  have hroom : ∃ room, (grow [] 0).length - 0 = room ∧ 2 ≤ room := by
    refine ⟨_, rfl, ?_⟩
    unfold grow
    rw [List.length_nil, if_pos (Nat.le_refl 0), List.nil_append, List.length_replicate]
    omega
  obtain ⟨room, hgrow, hroom⟩ := hroom
  have hfits : (hiStream.isPrefixOf (hiStream ++ rest) && decide (2 ≤ room)) = true :=
    Bool.and_eq_true_iff.mpr
      ⟨List.isPrefixOf_iff_prefix.mpr (List.prefix_append hiStream rest), decide_eq_true hroom⟩
  have hstep : hiDecoder.decompress hiDecoder.new ((hiStream ++ rest).drop 0)
      ((grow [] 0).length - 0) = .ok ⟨(), 13, [0x68, 0x69], .streamEnd⟩ := by
    rw [hgrow, List.drop_zero]
    exact if_pos hfits
  have hsmall : ¬ declared < 0 + ([0x68, 0x69] : List UInt8).length := Nat.not_lt.mpr h
  rw [decompressZlib, inflateLoop_of_end hstep _ hsmall rfl]
  exact congrArg (fun data => Except.ok (data, 13)) (take_putAt (Nat.zero_le _))

theorem parse_hiPack {inflated : DecompressZlib} {declared : UInt8}
    (hheader : parseEntryHeader ((hiPack declared).drop 12) = .ok (3, declared.toNat, 1))
    (hsize : ¬ maxEntryBytes < declared.toNat)
    (hdata : inflated ((hiPack declared).drop 13) declared.toNat = .ok ([0x68, 0x69], 13)) :
    parsePack inflated (hiPack declared) = .ok [⟨12, .direct .blob, [0x68, 0x69]⟩] := by
  have hloop : parseEntries inflated (hiPack declared) 1 0 12 =
      .ok [⟨12, .direct .blob, [0x68, 0x69]⟩] := by
    rw [parseEntries, hheader]
    simp only [if_neg hsize, parseKind, hdata, parseEntries]
  have hfront : (hiPack declared).take 4 = [0x50, 0x41, 0x43, 0x4b] := rfl
  have hmagic : (hiPack declared).take 4 = asBytes "PACK" := by
    rw [hfront]
    decide +kernel
  have hlength : ¬ (hiPack declared).length < 12 := by simp [hiPack]
  have hversion : fromBeBytes (((hiPack declared).drop 4).take 4) = 2 := rfl
  have hcount : fromBeBytes (((hiPack declared).drop 8).take 4) = 1 := rfl
  rw [parsePack, if_neg hlength, if_neg (not_not.mpr hmagic)]
  simp only [hversion, hcount]
  exact hloop

/-- Declared with three, it is accepted as well, and has two. -/
theorem parse_pack_accepts_short :
    StreamDecoder hiDecoder hiInflate ∧
      parsePack (decompressZlib hiDecoder) (hiPack 3) =
        .ok [⟨12, .direct .blob, [0x68, 0x69]⟩] ∧
      ¬ Tiled hiInflate (hiPack 3) [⟨12, .direct .blob, [0x68, 0x69]⟩] := by
  refine ⟨hiDecoder_stream, parse_hiPack rfl (by decide)
    (decompress_hiStream (List.replicate 20 0) (by decide)), ?_⟩
  rintro ⟨-, -, span, hspan, hsize, -⟩
  have hfound : entrySpan hiInflate (hiPack 3) 12 = some ⟨3, 2, 26⟩ := rfl
  obtain rfl := Option.some.inj (hfound.symm.trans hspan)
  cases hsize

end NativePack
end Artifacts
