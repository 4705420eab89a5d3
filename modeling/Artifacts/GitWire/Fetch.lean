import Artifacts.GitWire.LsRefs

/-!
# The v2 fetch request

`parseV2Fetch` reads the body of a v2 fetch.  An argument it does not know is no error:
the request is marked, and `isSimple` keeps it off the native path.

`isHex40_of_parseV2Fetch` and `firstLine_of_parseV2Fetch` say what every parsed request has.  Which
bodies are accepted is the subject of `OneCommand`.
-/

namespace Artifacts
namespace GitWire

open Pkt Rust

structure V2FetchRequest where
  wants : List String
  haves : List String
  done : Bool
  hasUnsupported : Bool
  noProgress : Bool
  deriving DecidableEq, Repr

def V2FetchRequest.empty : V2FetchRequest := ⟨[], [], false, false, false⟩

/-- Requests the native path handles. -/
def V2FetchRequest.isSimple (req : V2FetchRequest) : Bool := req.done && !req.hasUnsupported

/-- What is behind a prefix, if the text starts with it. -/
def stripPrefix (s pat : String) : Option String :=
  if startsWith s pat then some (String.ofList (s.toList.drop pat.toList.length)) else none

/-- The effect of one argument line. -/
def noteFetchArgument (req : V2FetchRequest) (s : String) : Option V2FetchRequest :=
  match stripPrefix s "want " with
  | some oid => if isHex40 oid then some { req with wants := req.wants ++ [oid] } else none
  | none =>
      match stripPrefix s "have " with
      | some oid => if isHex40 oid then some { req with haves := req.haves ++ [oid] } else none
      | none =>
          if s = "done" then some { req with done := true }
          else if s = "no-progress" then some { req with noProgress := true }
          else if s = "thin-pack" ∨ s = "ofs-delta" ∨ s = "include-tag" then some req
          else some { req with hasUnsupported := true }

/-- The argument lines, up to the flush. -/
def readFetchArguments (req : V2FetchRequest) :
    List (Except PktError PktLine) → Option V2FetchRequest
  | .ok .flush :: _ => some req
  | .ok (.data d) :: rest =>
      match (lineText d).bind (noteFetchArgument req) with
      | none => none
      | some req' => readFetchArguments req' rest
  | _ => none

/-- The capability lines, up to the delimiter. -/
def readFetchCapabilities : List (Except PktError PktLine) → Option V2FetchRequest
  | .ok .delim :: rest => readFetchArguments .empty rest
  | .ok (.data d) :: rest =>
      match lineText d with
      | none => none
      | some s => if isKnownCapability s then readFetchCapabilities rest else none
  | _ => none

/-- `parse_v2_fetch`. It gives nothing for a body that is not a fetch it can read, and such a
request goes to git; it never fails. -/
def parseV2Fetch (body : List UInt8) : Option V2FetchRequest :=
  match pktIter body with
  | .ok (.data d) :: rest =>
      match lineText d with
      | none => none
      | some s => if s = "command=fetch" then readFetchCapabilities rest else none
  | _ => none

/-! ### One command a body -/

/-- The text of the first line of a body. -/
def firstLine (body : List UInt8) : Option String :=
  match pktIter body with
  | .ok (.data d) :: _ => lineText d
  | _ => none

theorem firstLine_of_parseV2Fetch {body : List UInt8} {req : V2FetchRequest}
    (h : parseV2Fetch body = some req) : firstLine body = some "command=fetch" := by
  unfold parseV2Fetch at h
  split at h
  · split at h
    · cases h
    · rename_i hiter _ s hline
      split_ifs at h with hcommand
      unfold firstLine
      rw [hiter, ← hcommand]
      exact hline
  · cases h

theorem firstLine_of_parseLsRefsOnly {body : List UInt8} {args : LsRefsArgs}
    (h : parseLsRefsOnly body = some args) : firstLine body = some "command=ls-refs" := by
  unfold parseLsRefsOnly at h
  split at h
  · split at h
    · cases h
    · rename_i hiter _ s hline
      split_ifs at h with hcommand
      unfold firstLine
      rw [hiter, ← hcommand]
      exact hline
  · cases h

/-- No body is a fetch and an ls-refs, so the order in which they are tried is of no
matter. -/
theorem parseV2Fetch_of_lsRefs {body : List UInt8} {args : LsRefsArgs}
    (h : parseLsRefsOnly body = some args) : parseV2Fetch body = none := by
  cases hfetch : parseV2Fetch body with
  | none => rfl
  | some req =>
      have hsame := (firstLine_of_parseLsRefsOnly h).symm.trans (firstLine_of_parseV2Fetch hfetch)
      exact absurd hsame (by decide)

/-- Every id a parsed fetch holds is well formed. -/
theorem isHex40_of_parseV2Fetch {body : List UInt8} {req : V2FetchRequest}
    (h : parseV2Fetch body = some req) : ∀ oid ∈ req.wants ++ req.haves, isHex40 oid = true := by
  -- one line keeps it
  have hnote : ∀ {acc acc' : V2FetchRequest} {s : String}, noteFetchArgument acc s = some acc' →
      (∀ oid ∈ acc.wants ++ acc.haves, isHex40 oid = true) →
        ∀ oid ∈ acc'.wants ++ acc'.haves, isHex40 oid = true := by
    intro acc acc' s hs hacc oid hoid
    have hold := hacc oid
    unfold noteFetchArgument at hs
    split at hs
    · split_ifs at hs with hhex
      cases hs
      grind
    · split at hs
      · split_ifs at hs with hhex
        cases hs
        grind
      · split_ifs at hs <;> cases hs <;> exact hold hoid
  have hargs : ∀ (items : List (Except PktError PktLine)) (acc : V2FetchRequest),
      (∀ oid ∈ acc.wants ++ acc.haves, isHex40 oid = true) →
        readFetchArguments acc items = some req →
          ∀ oid ∈ req.wants ++ req.haves, isHex40 oid = true := by
    intro items
    induction items with
    | nil =>
        intro acc _ hread
        cases hread
    | cons item items ih =>
        intro acc hacc hread
        unfold readFetchArguments at hread
        split at hread
        · cases hread
          exact hacc
        · split at hread
          · cases hread
          · rename_i hline
            obtain ⟨s, -, hs⟩ := Option.bind_eq_some_iff.mp hline
            rename_i hitems _ _
            obtain ⟨-, rfl⟩ := List.cons.inj hitems
            exact ih _ (hnote hs hacc) hread
        · cases hread
  have hcaps : ∀ items : List (Except PktError PktLine), readFetchCapabilities items = some req →
      ∀ oid ∈ req.wants ++ req.haves, isHex40 oid = true := by
    intro items
    induction items with
    | nil =>
        intro hread
        cases hread
    | cons item items ih =>
        intro hread
        unfold readFetchCapabilities at hread
        split at hread
        · exact hargs _ .empty (by simp [V2FetchRequest.empty]) hread
        · rename_i hitems
          obtain ⟨-, rfl⟩ := List.cons.inj hitems
          split at hread
          · cases hread
          · split_ifs at hread
            exact ih hread
        · cases hread
  unfold parseV2Fetch at h
  split at h
  · split at h
    · cases h
    · split_ifs at h
      exact hcaps _ h
  · cases h

end GitWire
end Artifacts
