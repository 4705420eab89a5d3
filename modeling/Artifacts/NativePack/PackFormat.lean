import Artifacts.NativePack.Generate
import Artifacts.NativePack.Inflate
import Artifacts.NativePack.Varints

/-!
# Writing a pack

`encodePack` lays out a pack the way git senders do: a header with the number of entries,
each entry as its type and size, what names its base if it is a delta, and a zlib stream of
its data, and a trailer.  `parsePack` reads such a pack back, whatever the streams are and
however the decoder cuts them up, and refuses a pack that breaks off before its trailer.

`Inflates` ties the stream of an entry to its data, so any compressor will do.  What the
trailer should be, a hash of the rest, is not part of the format here, as `parsePack` does not
look at it.
-/

namespace Artifacts
namespace NativePack

open Foundation Varint Rust

/-! ### The layout -/

/-- `u32::to_be_bytes`. -/
def toBeBytes (n : Nat) : List UInt8 :=
  [UInt8.ofNat (n / 2 ^ 24), UInt8.ofNat (n / 2 ^ 16), UInt8.ofNat (n / 2 ^ 8), UInt8.ofNat n]

/-- The type code of an entry. -/
def ParsedKind.code : ParsedKind → Nat
  | .direct .commit => 1
  | .direct .tree => 2
  | .direct .blob => 3
  | .direct .tag => 4
  | .ofsDelta _ => 6
  | .refDelta _ => 7

/-- What stands between the header of an entry and its stream. -/
def ParsedKind.base : ParsedKind → List UInt8
  | .direct _ => []
  | .refDelta baseOid => baseOid.toList
  | .ofsDelta baseOffsetDelta => ofsEncode baseOffsetDelta

/-- An entry as it is sent: its data within the limit of one entry, and a stream of it. -/
structure SentEntry where
  kind : ParsedKind
  data : List UInt8
  stream : List UInt8
  small : data.length ≤ maxEntryBytes
  near : ∀ delta, kind = .ofsDelta delta → delta < 2 ^ 64

def SentEntry.encode (e : SentEntry) : List UInt8 :=
  headerEncode e.kind.code e.data.length ++ e.kind.base ++ e.stream

def encodeEntries (sent : List SentEntry) : List UInt8 := sent.flatMap SentEntry.encode

/-- A pack of these entries, with whatever trailer: it is not looked at. -/
def encodePack (sent : List SentEntry) (trailer : List UInt8) : List UInt8 :=
  asBytes "PACK" ++ toBeBytes 2 ++ toBeBytes sent.length ++ encodeEntries sent ++ trailer

/-- The entries with the offsets they start at. -/
def placeFrom : Nat → List SentEntry → List ParsedEntry
  | _, [] => []
  | start, e :: sent => ⟨start, e.kind, e.data⟩ :: placeFrom (start + e.encode.length) sent

@[simp] theorem length_placeFrom (start : Nat) (sent : List SentEntry) :
    (placeFrom start sent).length = sent.length := by
  induction sent generalizing start with
  | nil => rfl
  | cons e sent ih => simp [placeFrom, ih]

/-- An entry that is read was sent. -/
theorem mem_placeFrom {start : Nat} {sent : List SentEntry} {p : ParsedEntry}
    (h : p ∈ placeFrom start sent) : ∃ e ∈ sent, p.kind = e.kind ∧ p.data = e.data := by
  induction sent generalizing start with
  | nil => cases h
  | cons e sent ih =>
      rcases List.mem_cons.mp h with rfl | hlater
      · exact ⟨e, List.mem_cons_self, rfl, rfl⟩
      · obtain ⟨e', he', hsame⟩ := ih hlater
        exact ⟨e', List.mem_cons_of_mem e he', hsame⟩

/-! ### Streams that are all there -/

/-- What zlib promises of a stream: whatever lies behind it, a call in the middle of the
stream that finds some room gives the next bytes of its content and takes bytes of no other
stream; it reports the end with the last of them, and gets on until then.  A stream that
breaks off has no end. -/
structure Inflates (z : Decompress) (stream data : List UInt8) : Prop where
  call : ∀ rest decoder taken given room, Feeds z (stream ++ rest) decoder taken given →
    0 < room → ∃ step, z.decompress decoder ((stream ++ rest).drop taken) room = .ok step ∧
      taken + step.taken ≤ stream.length ∧ given ++ step.given <+: data ∧
      (step.status = .streamEnd →
        taken + step.taken = stream.length ∧ given ++ step.given = data) ∧
      (step.status ≠ .streamEnd → 0 < step.taken ∨ 0 < step.given.length)
  cut : ∀ front taken given, front <+: stream → front ≠ stream → ¬ Ends z front taken given

section Streams

variable {z : Decompress} {stream data : List UInt8}

/-- What is left to take and to give bounds the turns of the loop. -/
theorem inflateLoop_of_inflates (h : Inflates z stream data) (rest : List UInt8) {turns : Nat}
    {decoder : z.State} {totalIn totalOut : Nat} {out : List UInt8}
    (hfeeds : Feeds z (stream ++ rest) decoder totalIn (out.take totalOut))
    (hused : totalOut ≤ out.length)
    (hturns : stream.length + data.length < totalIn + totalOut + turns)
    (hin : totalIn ≤ stream.length) (hout : totalOut ≤ data.length) :
    inflateLoop z (stream ++ rest) data.length turns decoder totalIn out totalOut =
      .ok (data, stream.length) := by
  induction turns generalizing decoder totalIn totalOut out with
  | zero => omega
  | succ turns ih =>
      have hroom := lt_length_grow out totalOut
      have hgrown : totalOut ≤ (grow out totalOut).length := Nat.le_of_lt hroom
      rw [← take_grow hused] at hfeeds
      obtain ⟨step, hstep, htaken, hgiven, hend, hmiddle⟩ :=
        h.call rest decoder totalIn _ _ hfeeds (Nat.sub_pos_of_lt hroom)
      have hlength : totalOut + step.given.length ≤ data.length := by
        have hle := hgiven.length_le
        rwa [List.length_append, List.length_take, Nat.min_eq_left hgrown] at hle
      by_cases hstatus : step.status = .streamEnd
      · obtain ⟨hall, hdata⟩ := hend hstatus
        rw [inflateLoop_of_end hstep turns (by omega) hstatus, take_putAt hgrown, hdata, hall]
      · have hprogress := hmiddle hstatus
        have hnext := hfeeds.call hstep hstatus
        rw [← take_putAt hgrown] at hnext
        rw [inflateLoop_of_middle hstep turns (by omega) hstatus, if_pos (by omega)]
        exact ih hnext (le_length_putAt hgrown) (by omega) htaken hlength

/-- `decompress_zlib` reads a stream and stops behind it. -/
theorem decompressZlib_of_inflates (h : Inflates z stream data) (rest : List UInt8) :
    decompressZlib z (stream ++ rest) data.length = .ok (data, stream.length) := by
  refine inflateLoop_of_inflates h rest ?_ (Nat.zero_le _) ?_ (Nat.zero_le _) (Nat.zero_le _)
  · exact Feeds.start
  · rw [List.length_append]
    omega

/-- `decompress_zlib` fails on a stream that breaks off. -/
theorem decompressZlib_of_cut (h : Inflates z stream data) {front : List UInt8}
    (hfront : front <+: stream) (hne : front ≠ stream) (maxOut : Nat) :
    ∃ e, decompressZlib z front maxOut = .error e := by
  cases hresult : decompressZlib z front maxOut with
  | error e => exact ⟨e, rfl⟩
  | ok result => exact absurd (decompressZlib_ends hresult) (h.cut front _ _ hfront hne)

end Streams

/-! ### Reading one entry -/

theorem code_lt (kind : ParsedKind) : kind.code < 8 := by
  cases kind with
  | direct kind => cases kind <;> decide
  | refDelta baseOid => exact (by decide : 7 < 8)
  | ofsDelta delta => exact (by decide : 6 < 8)

theorem drop_of_drop {pack front rest : List UInt8} {start : Nat}
    (h : pack.drop start = front ++ rest) : pack.drop (start + front.length) = rest := by
  rw [← List.drop_drop, h, List.drop_left]

theorem parseKind_of_base {pack : List UInt8} {cursor : Nat} {rest : List UInt8}
    {kind : ParsedKind} (hnear : ∀ delta, kind = .ofsDelta delta → delta < 2 ^ 64)
    (h : pack.drop cursor = kind.base ++ rest) (i : Nat) :
    parseKind pack i cursor kind.code = .ok (kind, cursor + kind.base.length) := by
  cases kind with
  | direct kind => cases kind <;> rfl
  | refDelta baseOid =>
      have htake : ((pack.drop cursor).take 20).toArray = baseOid.toArray := by
        rw [h]
        have hfront : (baseOid.toList ++ rest).take 20 = baseOid.toList :=
          List.take_left' (by simp)
        change ((baseOid.toList ++ rest).take 20).toArray = _
        rw [hfront]
        rfl
      have hsize : (((pack.drop cursor).take 20).toArray).size = 20 := by
        rw [htake]
        exact baseOid.size_toArray
      simp only [ParsedKind.code, parseKind, dif_pos hsize]
      have hbase : (⟨((pack.drop cursor).take 20).toArray, hsize⟩ : Vector UInt8 20) = baseOid := by
        cases baseOid
        simp only [Vector.mk.injEq]
        exact htake
      rw [hbase]
      simp [ParsedKind.base]
  | ofsDelta delta =>
      simp only [ParsedKind.code, parseKind, h, ParsedKind.base, ofs_roundTrip (hnear delta rfl)]

/-- The loop reads the entries that lie at its cursor. -/
theorem parseEntries_encode {z : Decompress} {sent : List SentEntry}
    (hz : ∀ e ∈ sent, Inflates z e.stream e.data) {pack trailer : List UInt8} {start : Nat}
    (h : pack.drop start = encodeEntries sent ++ trailer) (i : Nat) :
    parseEntries (decompressZlib z) pack sent.length i start = .ok (placeFrom start sent) := by
  induction sent generalizing start i with
  | nil => rfl
  | cons e sent ih =>
      have hcut : pack.drop start = headerEncode e.kind.code e.data.length ++
          (e.kind.base ++ (e.stream ++ (encodeEntries sent ++ trailer))) := by
        rw [h, encodeEntries, List.flatMap_cons, SentEntry.encode, encodeEntries]
        simp only [List.append_assoc]
      have hbase := drop_of_drop hcut
      have hstream := drop_of_drop hbase
      have hrest := drop_of_drop hstream
      have hsize : e.data.length < 2 ^ 60 :=
        Nat.lt_of_le_of_lt e.small (by decide)
      have hheader := (header_roundTrip_iff (code_lt e.kind) e.data.length
        (e.kind.base ++ (e.stream ++ (encodeEntries sent ++ trailer)))).mpr hsize
      rw [← hcut] at hheader
      have hkind := parseKind_of_base e.near hbase i
      have hdata := decompressZlib_of_inflates (hz e List.mem_cons_self)
        (encodeEntries sent ++ trailer)
      rw [← hstream] at hdata
      have htail := ih (fun e' he' => hz e' (List.mem_cons_of_mem e he')) hrest (i + 1)
      have hlength : e.encode.length =
          (headerEncode e.kind.code e.data.length).length + e.kind.base.length +
            e.stream.length := by
        rw [SentEntry.encode, List.length_append, List.length_append]
      rw [List.length_cons, parseEntries, hheader]
      simp only [if_neg (Nat.not_lt.mpr e.small), hkind, hdata, htail]
      rw [placeFrom, hlength, ← Nat.add_assoc, ← Nat.add_assoc]

/-! ### Entries that break off -/

/-- Where bytes that are the front of two parts break off. -/
theorem prefix_append_cases {bytes first second : List UInt8} (h : bytes <+: first ++ second) :
    (bytes <+: first ∧ bytes ≠ first) ∨ ∃ rest, bytes = first ++ rest ∧ rest <+: second := by
  rcases List.prefix_or_prefix_of_prefix h (List.prefix_append first second) with
    hshort | ⟨rest, rfl⟩
  · by_cases heq : bytes = first
    · exact Or.inr ⟨[], by rw [heq, List.append_nil], List.nil_prefix⟩
    · exact Or.inl ⟨hshort, heq⟩
  · exact Or.inr ⟨rest, rfl, (List.prefix_append_right_inj first).mp h⟩

theorem parseEntryHeader_of_cut {kind n : Nat} (hkind : kind < 8) {bytes : List UInt8}
    (h : bytes <+: headerEncode kind n) (hne : bytes ≠ headerEncode kind n) :
    ∃ e, parseEntryHeader bytes = .error e := by
  have hword := front_headerEncode hkind n []
  rw [List.append_nil] at hword
  have heq := parseEntryHeader_eq bytes
  rw [front_eq_none_of_cut hword h hne] at heq
  exact heq

theorem parseKind_of_cut {pack bytes : List UInt8} {cursor : Nat} {kind : ParsedKind}
    (h : pack.drop cursor = bytes) (hcut : bytes <+: kind.base) (hne : bytes ≠ kind.base)
    (i : Nat) : ∃ e, parseKind pack i cursor kind.code = .error e := by
  cases kind with
  | direct kind =>
      -- nothing to break off
      exact absurd (List.prefix_nil.mp hcut) hne
  | refDelta baseOid =>
      have hsize : ¬ (((pack.drop cursor).take 20).toArray).size = 20 := by
        intro hfull
        have hle := hcut.length_le
        have hlong : baseOid.toList.length = 20 := by simp
        simp only [h, List.size_toArray, List.length_take] at hfull
        simp only [ParsedKind.base] at hle hcut hne
        exact hne (hcut.eq_of_length (by omega))
      simp only [ParsedKind.code, parseKind, dif_neg hsize]
      exact ⟨_, rfl⟩
  | ofsDelta delta =>
      have hword := front_ofsEncode delta []
      rw [List.append_nil] at hword
      have hnone := front_eq_none_of_cut hword hcut hne
      have herror : ∃ e, parseOfsDeltaOffset bytes = .error e := by
        cases bytes with
        | nil => exact ⟨_, rfl⟩
        | cons first rest =>
            have heq := parseOfsDeltaOffset_eq first rest
            rw [hnone] at heq
            exact heq
      obtain ⟨e, he⟩ := herror
      simp only [ParsedKind.code, parseKind]
      rw [h, he]
      exact ⟨_, rfl⟩

/-- The loop fails on entries that break off, wherever that is. -/
theorem parseEntries_of_cut {z : Decompress} {sent : List SentEntry}
    (hz : ∀ e ∈ sent, Inflates z e.stream e.data) {pack : List UInt8} {start : Nat}
    (hcut : pack.drop start <+: encodeEntries sent) (hne : pack.drop start ≠ encodeEntries sent)
    (i : Nat) : ∃ e, parseEntries (decompressZlib z) pack sent.length i start = .error e := by
  induction sent generalizing start i with
  | nil => exact absurd (List.prefix_nil.mp hcut) hne
  | cons e sent ih =>
      have hparts : encodeEntries (e :: sent) = headerEncode e.kind.code e.data.length ++
          (e.kind.base ++ (e.stream ++ encodeEntries sent)) := by
        rw [encodeEntries, List.flatMap_cons, SentEntry.encode, encodeEntries]
        simp only [List.append_assoc]
      rw [hparts] at hcut hne
      have hsmall := Nat.not_lt.mpr e.small
      have hsize : e.data.length < 2 ^ 60 := Nat.lt_of_le_of_lt e.small (by decide)
      rw [List.length_cons, parseEntries]
      -- the cut is in the header, in the name of the base, in the stream, or further on
      rcases prefix_append_cases hcut with ⟨hheader, hshort⟩ | ⟨body, hbody, hbehind⟩
      · obtain ⟨err, herr⟩ := parseEntryHeader_of_cut (code_lt e.kind) hheader hshort
        simp only [herr]
        exact ⟨_, rfl⟩
      have hheader := (header_roundTrip_iff (code_lt e.kind) e.data.length body).mpr hsize
      rw [← hbody] at hheader
      have hbase := drop_of_drop hbody
      simp only [hheader, if_neg hsmall]
      rcases prefix_append_cases hbehind with ⟨hfront, hshort⟩ | ⟨behind, rfl, hstreams⟩
      · obtain ⟨err, herr⟩ := parseKind_of_cut hbase hfront hshort i
        simp only [herr]
        exact ⟨_, rfl⟩
      have hkind := parseKind_of_base e.near hbase i
      have hstream := drop_of_drop hbase
      simp only [hkind, hstream]
      rcases prefix_append_cases hstreams with ⟨hfront, hshort⟩ | ⟨rest, rfl, hentries⟩
      · obtain ⟨err, herr⟩ := decompressZlib_of_cut (hz e List.mem_cons_self) hfront hshort
          e.data.length
        simp only [herr]
        exact ⟨_, rfl⟩
      have hdata := decompressZlib_of_inflates (hz e List.mem_cons_self) rest
      have hrest := drop_of_drop hstream
      have hlater : rest ≠ encodeEntries sent := by
        intro heq
        rw [hbody, heq] at hne
        exact hne rfl
      obtain ⟨err, herr⟩ := ih (fun e' he' => hz e' (List.mem_cons_of_mem e he'))
        (by rw [hrest]; exact hentries) (by rw [hrest]; exact hlater) (i + 1)
      simp only [hdata, herr]
      exact ⟨_, rfl⟩

/-! ### The header of a pack -/

theorem fromBeBytes_toBeBytes {n : Nat} (h : n < 2 ^ 32) : fromBeBytes (toBeBytes n) = n := by
  simp only [fromBeBytes, toBeBytes, List.foldl_cons, List.foldl_nil, UInt8.toNat_ofNat']
  omega

theorem magic_bytes : asBytes "PACK" = [0x50, 0x41, 0x43, 0x4b] := by decide +kernel

/-- Behind a header `parse_pack` reads so many entries from byte 12 on. -/
theorem parsePack_of_header (decompress : DecompressZlib) {count : Nat} (hcount : count < 2 ^ 32)
    (body : List UInt8) :
    parsePack decompress (asBytes "PACK" ++ toBeBytes 2 ++ toBeBytes count ++ body) =
      parseEntries decompress (asBytes "PACK" ++ toBeBytes 2 ++ toBeBytes count ++ body)
        count 0 12 := by
  have hversion : fromBeBytes (toBeBytes 2) = 2 := by decide
  have hnumber := fromBeBytes_toBeBytes hcount
  rw [magic_bytes]
  generalize htwo : toBeBytes 2 = two at hversion ⊢
  have hlongTwo : two.length = 4 := by
    rw [← htwo]
    rfl
  generalize hn : toBeBytes count = number at hnumber ⊢
  have hlongNumber : number.length = 4 := by
    rw [← hn]
    rfl
  generalize hpack : ([0x50, 0x41, 0x43, 0x4b] : List UInt8) ++ two ++ number ++ body = pack
  have hlength : ¬ pack.length < 12 := by
    simp only [← hpack, List.length_append, hlongTwo, hlongNumber, List.length_cons]
    omega
  have hfront : pack.take 4 = asBytes "PACK" := by
    rw [magic_bytes, ← hpack]
    rfl
  have hsecond : (pack.drop 4).take 4 = two := by
    have hdrop : pack.drop 4 = two ++ (number ++ body) := by
      rw [← hpack]
      simp
    rw [hdrop, List.take_left' hlongTwo]
  have hthird : (pack.drop 8).take 4 = number := by
    have hdrop : pack.drop 8 = number ++ body := by
      have h8 : 8 = ([0x50, 0x41, 0x43, 0x4b] ++ two : List UInt8).length := by simp [hlongTwo]
      rw [← hpack, h8, List.append_assoc, List.drop_left]
    rw [hdrop, List.take_left' hlongNumber]
  rw [parsePack, if_neg hlength, if_neg (not_not.mpr hfront)]
  simp only [hsecond, hthird, hversion, hnumber, ne_eq, not_true_eq_false, if_false]

/-- **What is written is read back**: the kinds and the data of the entries, in order, each
at the offset where it was written. -/
theorem parsePack_encodePack (z : Decompress) (sent : List SentEntry)
    (hcount : sent.length < 2 ^ 32) (hz : ∀ e ∈ sent, Inflates z e.stream e.data)
    (trailer : List UInt8) :
    parsePack (decompressZlib z) (encodePack sent trailer) = .ok (placeFrom 12 sent) := by
  have hbody : (encodePack sent trailer).drop 12 = encodeEntries sent ++ trailer := by
    have hfront : 12 = (asBytes "PACK" ++ toBeBytes 2 ++ toBeBytes sent.length).length := by
      rw [magic_bytes]
      rfl
    rw [encodePack, List.append_assoc, hfront, List.drop_left]
  have hread := parseEntries_encode hz hbody 0
  rw [encodePack, List.append_assoc] at hread ⊢
  rw [parsePack_of_header _ hcount, hread]

/-- A pack that breaks off before its trailer is refused. -/
theorem parsePack_of_cut (z : Decompress) (sent : List SentEntry)
    (hcount : sent.length < 2 ^ 32) (hz : ∀ e ∈ sent, Inflates z e.stream e.data)
    {bytes : List UInt8} (hcut : bytes <+: encodePack sent []) (hne : bytes ≠ encodePack sent []) :
    ∃ e, parsePack (decompressZlib z) bytes = .error e := by
  have hparts : encodePack sent [] =
      asBytes "PACK" ++ toBeBytes 2 ++ toBeBytes sent.length ++ encodeEntries sent := by
    rw [encodePack, List.append_nil]
  have hlength : (asBytes "PACK" ++ toBeBytes 2 ++ toBeBytes sent.length).length = 12 := by
    rw [magic_bytes]
    rfl
  rw [hparts] at hcut hne
  rcases prefix_append_cases hcut with ⟨hfront, hshort⟩ | ⟨body, rfl, hentries⟩
  · -- not even a header
    have hless : bytes.length < 12 := by
      have hle := hfront.length_le
      by_contra hlong
      exact hshort (hfront.eq_of_length (by omega))
    rw [parsePack, if_pos hless]
    exact ⟨_, rfl⟩
  · have hdrop : (asBytes "PACK" ++ toBeBytes 2 ++ toBeBytes sent.length ++ body).drop 12 =
        body := by
      rw [← hlength, List.drop_left]
    rw [parsePack_of_header _ hcount]
    refine parseEntries_of_cut hz ?_ ?_ 0
    · rw [hdrop]
      exact hentries
    · rw [hdrop]
      rintro rfl
      exact hne rfl

/-! ### Stored blocks -/

/-- The checksum at the end of a zlib stream. -/
def adler32 (data : List UInt8) : Nat :=
  let (a, b) := data.foldl (fun (a, b) byte =>
    ((a + byte.toNat) % 65521, (b + (a + byte.toNat) % 65521) % 65521)) (1, 0)
  b * 2 ^ 16 + a

/-- The zlib stream of some bytes in one stored block, which holds less than `2 ^ 16`. -/
def storedStream (data : List UInt8) : List UInt8 :=
  [0x78, 0x01, 0x01, UInt8.ofNat (data.length % 256), UInt8.ofNat (data.length / 256),
    UInt8.ofNat (255 - data.length % 256), UInt8.ofNat (255 - data.length / 256)] ++
    (data ++ toBeBytes (adler32 data))

/-- A decoder for such streams.  Its state is what it gave; it takes the whole stream with
the last of its content. -/
def storedDecoder : Decompress where
  State := Nat
  new := 0
  decompress given input room :=
    match input with
    | 0x78 :: 0x01 :: 0x01 :: low :: high :: _ :: _ :: block =>
        let size := low.toNat + 256 * high.toNat
        if block.length < size + 4 then .error "corrupt deflate stream"
        else if size ≤ given + room then
          .ok ⟨size, size + 11, (block.take size).drop given, .streamEnd⟩
        else
          .ok ⟨given + room, 0, ((block.take size).drop given).take room, .ok⟩
    | _ => .error "corrupt deflate stream"

theorem length_storedStream (data : List UInt8) : (storedStream data).length = data.length + 11 := by
  simp [storedStream, toBeBytes]

theorem storedDecoder_call {data : List UInt8} (hshort : data.length < 2 ^ 16)
    (rest : List UInt8) (given room : Nat) :
    storedDecoder.decompress given (storedStream data ++ rest) room =
      if data.length ≤ given + room then
        .ok ⟨data.length, data.length + 11, data.drop given, .streamEnd⟩
      else
        .ok ⟨given + room, 0, (data.drop given).take room, .ok⟩ := by
  have hsize : (UInt8.ofNat (data.length % 256)).toNat +
      256 * (UInt8.ofNat (data.length / 256)).toNat = data.length := by
    simp only [UInt8.toNat_ofNat']
    omega
  have hblock : (data ++ toBeBytes (adler32 data) ++ rest).take data.length = data := by
    rw [List.append_assoc, List.take_left]
  have henough : ¬ (data ++ toBeBytes (adler32 data) ++ rest).length < data.length + 4 := by
    simp only [List.length_append, toBeBytes, List.length_cons]
    omega
  simp only [storedDecoder, storedStream, List.cons_append, List.nil_append, hsize, hblock,
    if_neg henough]

/-- Until the stream ends nothing is taken, and the state counts what was given. -/
theorem feeds_storedDecoder {data rest : List UInt8} (hshort : data.length < 2 ^ 16)
    {decoder : storedDecoder.State} {taken : Nat} {given : List UInt8}
    (h : Feeds storedDecoder (storedStream data ++ rest) decoder taken given) :
    taken = 0 ∧ given = data.take decoder := by
  induction h with
  | start => exact ⟨rfl, rfl⟩
  | @call decoder taken room given step _ hstep hmiddle ih =>
      obtain ⟨rfl, rfl⟩ := ih
      have hcall := storedDecoder_call hshort rest decoder room
      rw [List.drop_zero, hcall] at hstep
      split_ifs at hstep with hend
      · cases hstep
        exact absurd rfl hmiddle
      · cases hstep
        exact ⟨rfl, List.take_add.symm⟩

/-- Without its last byte such a stream cannot even be begun. -/
theorem storedDecoder_cut {data front : List UInt8} (hshort : data.length < 2 ^ 16)
    (hfront : front <+: storedStream data) (hne : front ≠ storedStream data) (given room : Nat) :
    storedDecoder.decompress given front room = .error "corrupt deflate stream" := by
  have hless : front.length < data.length + 11 := by
    have hle := hfront.length_le
    rw [length_storedStream] at hle
    by_contra hlong
    exact hne (hfront.eq_of_length (by rw [length_storedStream]; omega))
  have hsize : (UInt8.ofNat (data.length % 256)).toNat +
      256 * (UInt8.ofNat (data.length / 256)).toNat = data.length := by
    simp only [UInt8.toNat_ofNat']
    omega
  simp only [storedDecoder]
  split
  · rename_i low high _ _ block
    rw [storedStream, List.cons_append, List.cons_append, List.cons_append, List.cons_append] at hfront
    simp only [List.cons_prefix_cons, true_and] at hfront
    obtain ⟨rfl, hfront⟩ := hfront
    rw [List.cons_append] at hfront
    obtain ⟨rfl, -⟩ := List.cons_prefix_cons.mp hfront
    rw [hsize, if_pos]
    simp only [List.length_cons] at hless
    omega
  · rfl

theorem not_ends_storedDecoder {data front : List UInt8} (hshort : data.length < 2 ^ 16)
    (hfront : front <+: storedStream data) (hne : front ≠ storedStream data) (taken : Nat)
    (given : List UInt8) : ¬ Ends storedDecoder front taken given := by
  have hstart : ∀ {decoder : storedDecoder.State} {taken : Nat} {given : List UInt8},
      Feeds storedDecoder front decoder taken given → taken = 0 := by
    intro decoder taken given h
    induction h with
    | start => rfl
    | @call decoder taken room given step _ hstep _ ih =>
        have hcall := storedDecoder_cut hshort hfront hne decoder room
        rw [ih, List.drop_zero, hcall] at hstep
        cases hstep
  rintro ⟨decoder, before, out, room, step, hfeeds, hstep, -⟩
  have hcall := storedDecoder_cut hshort hfront hne decoder room
  rw [hstart hfeeds, List.drop_zero, hcall] at hstep
  cases hstep

theorem inflates_storedStream {data : List UInt8} (hshort : data.length < 2 ^ 16) :
    Inflates storedDecoder (storedStream data) data where
  cut front taken given hfront hne := not_ends_storedDecoder hshort hfront hne taken given
  call rest decoder taken given room hfeeds hroom := by
    obtain ⟨rfl, rfl⟩ := feeds_storedDecoder hshort hfeeds
    have hcall := storedDecoder_call hshort rest decoder room
    have hwhole : ∀ k : Nat, data.take k ++ data.drop k <+: data := by
      intro k
      rw [List.take_append_drop]
    have hnext : ∀ k : Nat, data.take k ++ (data.drop k).take room <+: data := by
      intro k
      rw [← List.take_add]
      exact List.take_prefix _ _
    have hmore : ∀ k : Nat, ¬ data.length ≤ k + room → 0 < ((data.drop k).take room).length := by
      intro k hk
      rw [List.length_take, List.length_drop]
      omega
    rw [List.drop_zero, hcall, length_storedStream]
    split_ifs with hend
    · refine ⟨_, rfl, ?_, hwhole decoder, fun _ => ?_, fun hmiddle => absurd rfl hmiddle⟩
      · show 0 + (data.length + 11) ≤ data.length + 11
        omega
      · show 0 + (data.length + 11) = data.length + 11 ∧ data.take decoder ++ data.drop decoder = data
        exact ⟨by omega, List.take_append_drop _ _⟩
    · exact ⟨_, rfl, Nat.zero_le _, hnext decoder, nofun, fun _ => Or.inr (hmore decoder hend)⟩

/-! ### Written and read -/

/-- A decoder finds one stream in front of some bytes. -/
theorem Inflates.unique {z : Decompress} {stream stream' data rest rest' : List UInt8}
    (h : Inflates z stream data) (h' : Inflates z stream' data)
    (hsame : stream ++ rest = stream' ++ rest') : stream = stream' ∧ rest = rest' := by
  have hread := decompressZlib_of_inflates h rest
  rw [hsame, decompressZlib_of_inflates h' rest'] at hread
  have hlength : stream.length = stream'.length := (Prod.mk.inj (Except.ok.inj hread)).2.symm
  exact List.append_inj hsame hlength

/-- Entries that are read alike, from the same bytes, were sent alike. -/
theorem encodeEntries_inj {z : Decompress} {start : Nat} {sent sent' : List SentEntry}
    {trailer trailer' : List UInt8} (hz : ∀ e ∈ sent, Inflates z e.stream e.data)
    (hz' : ∀ e ∈ sent', Inflates z e.stream e.data)
    (hread : placeFrom start sent = placeFrom start sent')
    (h : encodeEntries sent ++ trailer = encodeEntries sent' ++ trailer') :
    sent = sent' ∧ trailer = trailer' := by
  induction sent generalizing start sent' with
  | nil =>
      cases sent' with
      | nil => exact ⟨rfl, h⟩
      | cons e' sent' => cases hread
  | cons e sent ih =>
      cases sent' with
      | nil => cases hread
      | cons e' sent' =>
          obtain ⟨kind, data, stream, small, near⟩ := e
          obtain ⟨kind', data', stream', small', near'⟩ := e'
          have hentry := List.cons.inj hread
          obtain ⟨-, rfl, rfl⟩ := ParsedEntry.mk.inj hentry.1
          simp only [encodeEntries, List.flatMap_cons, SentEntry.encode, List.append_assoc] at h
          have hbytes := List.append_cancel_left (List.append_cancel_left h)
          have hstream : Inflates z stream data := hz _ List.mem_cons_self
          have hstream' : Inflates z stream' data := hz' _ List.mem_cons_self
          obtain ⟨rfl, hrest⟩ := hstream.unique hstream' hbytes
          obtain ⟨rfl, rfl⟩ := ih (fun e he => hz e (List.mem_cons_of_mem _ he))
            (fun e he => hz' e (List.mem_cons_of_mem _ he)) hentry.2 hrest
          exact ⟨rfl, rfl⟩

/-- **The pack format.** What is written is read back, entry for entry, at the offsets where
it was written and whatever the trailer; so no bytes are two packs.  A pack that breaks off
before its trailer is refused, wherever it breaks off.  The data of an entry is within the
limit of `MAX_ENTRY_BYTES`, and its stream is one that the decoder inflates to that data. -/
theorem pack_roundTrip (z : Decompress) (sent : List SentEntry) (hcount : sent.length < 2 ^ 32)
    (hz : ∀ e ∈ sent, Inflates z e.stream e.data) (trailer : List UInt8) :
    parsePack (decompressZlib z) (encodePack sent trailer) = .ok (placeFrom 12 sent) ∧
      (∀ sent' trailer', sent'.length < 2 ^ 32 → (∀ e ∈ sent', Inflates z e.stream e.data) →
        encodePack sent trailer = encodePack sent' trailer' → sent = sent' ∧ trailer = trailer') ∧
      ∀ bytes, bytes <+: encodePack sent [] → bytes ≠ encodePack sent [] →
        ∃ e, parsePack (decompressZlib z) bytes = .error e := by
  refine ⟨parsePack_encodePack z sent hcount hz trailer, ?_, ?_⟩
  · intro sent' trailer' hcount' hz' hsame
    have hread := parsePack_encodePack z sent hcount hz trailer
    rw [hsame, parsePack_encodePack z sent' hcount' hz' trailer'] at hread
    have hplaced : placeFrom 12 sent = placeFrom 12 sent' := (Except.ok.inj hread).symm
    have hlength : sent.length = sent'.length := by
      rw [← length_placeFrom 12 sent, hplaced, length_placeFrom]
    simp only [encodePack, hlength, List.append_assoc] at hsame
    exact encodeEntries_inj hz hz' hplaced (List.append_cancel_left (List.append_cancel_left
      (List.append_cancel_left hsame)))
  · exact fun bytes hcut hne => parsePack_of_cut z sent hcount hz hcut hne

/-- A blob, and a delta against it that names it by its distance. -/
def sentPair : List SentEntry :=
  [⟨.direct .blob, [1, 2, 3], storedStream [1, 2, 3], by decide, nofun⟩,
    ⟨.ofsDelta 15, [3, 4, 0x90, 3, 1, 9], storedStream [3, 4, 0x90, 3, 1, 9], by decide, by
      intro delta h
      cases h
      decide⟩]

theorem inflates_sentPair : ∀ e ∈ sentPair, Inflates storedDecoder e.stream e.data := by
  intro e he
  rcases List.mem_pair.mp he with rfl | rfl
  · exact inflates_storedStream (by decide)
  · exact inflates_storedStream (by decide)

theorem pack_roundTrip_pair :
    parsePack (decompressZlib storedDecoder) (encodePack sentPair (List.replicate 20 0)) =
        .ok [⟨12, .direct .blob, [1, 2, 3]⟩, ⟨27, .ofsDelta 15, [3, 4, 0x90, 3, 1, 9]⟩] ∧
      ∃ e, parsePack (decompressZlib storedDecoder) (asBytes "PACK") = .error e := by
  obtain ⟨hread, -, hcut⟩ := pack_roundTrip storedDecoder sentPair (by decide) inflates_sentPair
    (List.replicate 20 0)
  have hlength : (asBytes "PACK").length < (encodePack sentPair []).length := by
    simp [encodePack, magic_bytes, toBeBytes]
  refine ⟨hread, hcut (asBytes "PACK") ?_ ?_⟩
  · rw [encodePack, List.append_assoc, List.append_assoc, List.append_assoc]
    exact List.prefix_append _ _
  · intro heq
    rw [← heq] at hlength
    omega

end NativePack
end Artifacts
