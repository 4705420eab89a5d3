import Artifacts.GitWire.Fetch
import Artifacts.NativePack.Generate
import Artifacts.Rust.Lossy
import Artifacts.SmartHttp.PushReport

/-!
# Payloads in side bands

A fetch answers with a pack, a push with a report.  Both are cut into chunks that fit a
pkt-line together with their band byte.  `nativeV2FetchResponse` is the fetch handler; its
pack comes from gix, or from `git pack-objects` where gix fails.  The client puts the
frames of band 1 together again and has the payload, whatever its length.

`Demultiplexes` is the view of the client.  Progress and errors on the bands 2 and 3 do not
occur, as the handlers send none.  Whether the pack is the right one is not asked here.
-/

namespace Artifacts
namespace GitWire

open NativePack Pkt Refs Rust SmartHttp

/-! ### The fetch handler -/

/-- The input of `git pack-objects --revs`: what is wanted, and what the client has. -/
def revsInput (wants haves : List String) : String :=
  String.join (wants.map (fun w => w ++ "\n") ++ haves.map fun h => "^" ++ h ++ "\n")

/-- `generate_pack_via_pack_objects`.  `packObjects` is the subprocess: whether it
succeeded, and what it wrote to stdout and stderr. -/
def generatePackViaPackObjects
    (packObjects : List UInt8 → Result (Bool × List UInt8 × List UInt8))
    (wants haves : List String) : Result (List UInt8) :=
  match packObjects (asBytes (revsInput wants haves)) with
  | .error e => .error e
  | .ok (success, pack, err) =>
      if !success then
        .error (.other ("pack-objects failed: " ++ trim (fromUtf8Lossy err)))
      else
        .ok pack

/-- The response that carries a pack. -/
def fetchResponse (pack : List UInt8) : Response where
  status := 200
  contentType := "application/x-git-upload-pack-result"
  cacheControl := "no-cache"
  body := writeFlush (((chunks sidebandChunk pack).map fun chunk => 1 :: chunk).foldl writeData
    (writeData [] (asBytes "packfile\n")))

section Handler

variable (printable : Char → Bool) (gix : Gix)
  (packObjects : List UInt8 → Result (Bool × List UInt8 × List UInt8))

/-- The pack of a fetch: natively, or else by the subprocess. -/
def fetchPack (repoPath : String) (req : V2FetchRequest) : Result (List UInt8) :=
  match generatePack printable gix repoPath req.wants req.haves with
  | .ok pack => .ok pack
  | .error _ => generatePackViaPackObjects packObjects req.wants req.haves

/-- `native_v2_fetch_response`: the pack, cut into pieces that fit a frame each, on the first side
band. An error leaves no half of a response behind. -/
def nativeV2FetchResponse (repoPath : String) (req : V2FetchRequest) : Result Response :=
  match fetchPack printable gix packObjects repoPath req with
  | .error e => .error e
  | .ok pack => .ok (fetchResponse pack)

end Handler

/-! ### Taking the bands apart -/

/-- The pkt-lines are data frames of band 1 and then one flush; without their band bytes
the frames make up the payload. -/
def Demultiplexes (lines : List (Except PktError PktLine)) (payload : List UInt8) : Prop :=
  ∃ frames : List (List UInt8),
    lines = frames.map (fun frame => .ok (.data (1 :: frame))) ++ [.ok .flush] ∧
      frames.flatten = payload

/-- **Chunks and their band.** Behind any data lines, the chunks of a payload are read back
frame by frame, and put together they are the payload. -/
theorem demultiplexes_chunks (lead : List (List UInt8)) (payload : List UInt8) :
    ∃ lines, pktIter (writeFlush (((chunks sidebandChunk payload).map
        fun chunk => 1 :: chunk).foldl writeData (lead.foldl writeData []))) =
          lead.map (fun line => .ok (.data (line.take pktLineMaxPayload))) ++ lines ∧
      Demultiplexes lines payload := by
  refine ⟨(chunks sidebandChunk payload).map (fun chunk => .ok (.data (1 :: chunk))) ++
    [.ok .flush], ?_, chunks sidebandChunk payload, rfl, flatten_chunks (by decide) payload⟩
  rw [← List.foldl_append, pktIter_writeData, List.map_append, List.append_assoc, List.map_map]
  congr 2
  apply List.map_congr_left
  intro chunk hchunk
  show Except.ok (PktLine.data ((1 :: chunk).take pktLineMaxPayload)) = _
  rw [take_banded hchunk]

/-- A response in side bands is the report of the response without them. -/
theorem demultiplexes_frameReport (report : List UInt8) :
    Demultiplexes (pktIter (frameReport true report)) (frameReport false report) := by
  obtain ⟨lines, hread, hlines⟩ := demultiplexes_chunks [] report
  rw [List.map_nil, List.nil_append] at hread
  show Demultiplexes (pktIter (writeFlush _)) report
  rw [List.foldl_nil] at hread
  rwa [hread]

/-- What the two forms of one push have in common. -/
theorem nativeReceivePackResponse_sideband {σ : Type} (printable : Char → Bool) (env : PackEnv)
    (store : RefStore σ) (repoId : String) (req : ReceivePackRequest) (s : σ) :
    ∃ (report : Result (List UInt8)) (s' : σ), ∀ sideband,
      nativeReceivePackResponse printable env store repoId
          { req with hasSideband64k := sideband } s =
        (report.map fun lines => { status := 200
                                   contentType := "application/x-git-receive-pack-result"
                                   cacheControl := "no-cache"
                                   body := frameReport sideband lines }, s') := by
  cases hunpack : unpackOutcome env repoId req with
  | error e =>
      refine ⟨.error e, s, fun sideband => ?_⟩
      have hsame : unpackOutcome env repoId { req with hasSideband64k := sideband } = .error e :=
        hunpack
      unfold nativeReceivePackResponse
      rw [hsame]
      rfl
  | ok unpack =>
      refine ⟨.ok (buildReport (unpackLine unpack ::
        (updateLines printable store repoId env unpack req s).1)),
        (updateLines printable store repoId env unpack req s).2, fun sideband => ?_⟩
      have hsame : unpackOutcome env repoId { req with hasSideband64k := sideband } =
        .ok unpack := hunpack
      unfold nativeReceivePackResponse
      rw [hsame]
      rfl

/-- The body that carries a pack: the line `packfile`, the pack in band 1, and a flush. -/
theorem pktIter_fetchResponse (pack : List UInt8) :
    ∃ lines, pktIter (fetchResponse pack).body = .ok (.data (asBytes "packfile\n")) :: lines ∧
      Demultiplexes lines pack := by
  obtain ⟨lines, hread, hlines⟩ := demultiplexes_chunks [asBytes "packfile\n"] pack
  refine ⟨lines, ?_, hlines⟩
  have hfits : (asBytes "packfile\n").take pktLineMaxPayload = asBytes "packfile\n" :=
    List.take_of_length_le (by decide)
  rw [List.map_singleton, hfits] at hread
  exact hread

/-- **Side bands lose nothing.** The body of a fetch response is the line `packfile`, then
frames of band 1 that make up the pack, then a flush.  A push answers the same with and
without side bands: the frames of band 1 make up the report that is sent without them. -/
theorem side_bands_transparent {σ : Type} (printable : Char → Bool) (gix : Gix)
    (packObjects : List UInt8 → Result (Bool × List UInt8 × List UInt8)) (repoPath : String)
    (fetch : V2FetchRequest) (env : PackEnv) (store : RefStore σ) (repoId : String)
    (push : ReceivePackRequest) (s : σ) :
    (match nativeV2FetchResponse printable gix packObjects repoPath fetch,
        fetchPack printable gix packObjects repoPath fetch with
      | .ok response, .ok pack =>
          ∃ lines, pktIter response.body = .ok (.data (asBytes "packfile\n")) :: lines ∧
            Demultiplexes lines pack
      | .error e, .error e' => e = e'
      | _, _ => False) ∧
    match (nativeReceivePackResponse printable env store repoId
        { push with hasSideband64k := true } s).1,
      (nativeReceivePackResponse printable env store repoId
        { push with hasSideband64k := false } s).1 with
    | .ok banded, .ok plain => Demultiplexes (pktIter banded.body) plain.body
    | .error e, .error e' => e = e'
    | _, _ => False := by
  constructor
  · unfold nativeV2FetchResponse
    cases fetchPack printable gix packObjects repoPath fetch with
    | error e => exact rfl
    | ok pack => exact pktIter_fetchResponse pack
  · obtain ⟨report, s', hboth⟩ :=
      nativeReceivePackResponse_sideband printable env store repoId push s
    rw [hboth true, hboth false]
    -- an error of the unpack leaves the handler before a report is built
    cases report with
    | error e => exact rfl
    | ok lines => exact demultiplexes_frameReport lines

end GitWire
end Artifacts
