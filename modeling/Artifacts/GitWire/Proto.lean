import Artifacts.PktLine

/-!
# Parsing a receive-pack body

`parseReceivePackBody` reads the ref-update lines of a push up to the flush-pkt
that ends them; everything behind the flush is the pack.  `none` means that the
request falls through to `git receive-pack`.

The loop runs on the bytes that are left, so it has the length of the body for its bound
(`parseLoop_eq_of_le`).  What a client writes is read back in `PushBody`.
-/

namespace Artifacts
namespace GitWire

open Pkt Rust

/-- One ref-update command: `<old-oid> <new-oid> <refname>`. -/
structure RefUpdate where
  old : String
  new : String
  name : String
  deriving DecidableEq, Repr

namespace RefUpdate

/-- `RefUpdate::ZERO`, the marker of an absent ref. -/
def zero : String := "0000000000000000000000000000000000000000"

def isCreate (u : RefUpdate) : Bool := u.old == zero

def isDelete (u : RefUpdate) : Bool := u.new == zero

end RefUpdate

/-- Parsed shape of a smart-HTTP push body. -/
structure ReceivePackRequest where
  updates : List RefUpdate
  hasReportStatus : Bool
  hasSideband64k : Bool
  hasUnsupported : Bool
  pack : List UInt8
  deriving DecidableEq, Repr

/-- Requests the native path handles. -/
def ReceivePackRequest.isSimple (req : ReceivePackRequest) : Bool :=
  if !req.hasReportStatus then false
  else if req.hasUnsupported then false
  else if req.updates.isEmpty then false
  else true

/-- `is_hex40`: forty hexadecimal digits of either case. -/
def isHex40 (s : String) : Bool :=
  (asBytes s).length == 40 && (asBytes s).all fun b =>
    (48 ≤ b && b ≤ 57) || (97 ≤ b && b ≤ 102) || (65 ≤ b && b ≤ 70)

/-- The effect of one capability of the first line. -/
def noteCapability (req : ReceivePackRequest) (c : String) : ReceivePackRequest :=
  if c = "" then req
  else if c = "report-status" ∨ c = "report-status-v2" then { req with hasReportStatus := true }
  else if c = "side-band-64k" then { req with hasSideband64k := true }
  else if c = "ofs-delta" ∨ c = "delete-refs" ∨ c = "no-thin" ∨ c = "quiet" then req
  else if c = "atomic" ∨ c = "push-options" ∨ c = "push-cert" then
    { req with hasUnsupported := true }
  else if startsWith c "agent=" || startsWith c "session-id=" || startsWith c "object-format=" then
    req
  else { req with hasUnsupported := true }

/-- One ref-update line without its newline: the command, and the capabilities
behind a NUL if there is one. -/
def parseUpdateLine (s : String) : Option (RefUpdate × Option String) :=
  let (head, caps) :=
    match splitOnce s '\x00' with
    | some (h, c) => (h, some c)
    | none => (s, none)
  match splitn 3 head ' ' with
  | [old, new, name] =>
      if !isHex40 old || !isHex40 new then none else some (⟨old, new, name⟩, caps)
  | _ => none

/-- What a parsed line adds to the request. -/
def addUpdate (first : Bool) (req : ReceivePackRequest) (u : RefUpdate)
    (caps : Option String) : ReceivePackRequest :=
  let req := { req with updates := req.updates ++ [u] }
  if first then
    match caps with
    | some caps => (split caps ' ').foldl noteCapability req
    | none => { req with hasUnsupported := true }
  else
    req

/-- The loop of `parse_receive_pack_body`. Each round reads one pkt-line, so the
length of the buffer is fuel enough. -/
def parseLoop : Nat → Bool → ReceivePackRequest → List UInt8 → Option ReceivePackRequest
  | 0, _, _, _ => none
  | fuel + 1, first, req, buf =>
      match read buf with
      | .error _ => none
      | .ok (.flush, rest) => some { req with pack := rest }
      | .ok (.delim, _) => none
      | .ok (.respEnd, _) => none
      | .ok (.data d, rest) =>
          match (fromUtf8 d).bind fun s => parseUpdateLine (trimEndMatches s '\n') with
          | none => none
          | some (u, caps) => parseLoop fuel false (addUpdate first req u caps) rest

/-- `parse_receive_pack_body`. What follows the flush is the pack, whatever it holds; the fuel is
the length of the body, and every line takes some of it. -/
def parseReceivePackBody (body : List UInt8) : Option ReceivePackRequest :=
  parseLoop body.length true
    { updates := [], hasReportStatus := false, hasSideband64k := false,
      hasUnsupported := false, pack := [] } body

/-! ### Properties of the parser -/

/-- Fuel beyond the length of the buffer changes nothing: the loop stops before
it runs out. -/
theorem parseLoop_eq_of_le {fuel fuel' : Nat} {first : Bool} {req : ReceivePackRequest}
    {buf : List UInt8} (hfuel : buf.length ≤ fuel) (hfuel' : buf.length ≤ fuel') :
    parseLoop fuel first req buf = parseLoop fuel' first req buf := by
  have hempty : ∀ fuel first req, parseLoop fuel first req [] = none := by
    intro fuel first req
    cases fuel <;> rfl
  induction fuel generalizing fuel' first req buf with
  | zero =>
      obtain rfl : buf = [] := List.length_eq_zero_iff.mp (by omega)
      rw [hempty, hempty]
  | succ fuel ih =>
      cases fuel' with
      | zero =>
          obtain rfl : buf = [] := List.length_eq_zero_iff.mp (by omega)
          rw [hempty, hempty]
      | succ fuel' =>
          rw [parseLoop, parseLoop]
          cases hread : read buf with
          | error e => rfl
          | ok result =>
              obtain ⟨line, rest⟩ := result
              have hlt : rest.length < buf.length := read_consuming _ _ _ hread
              cases line with
              | flush => rfl
              | delim => rfl
              | respEnd => rfl
              | data d =>
                  simp only [ih (show rest.length ≤ fuel by omega)
                    (show rest.length ≤ fuel' by omega)]

@[simp] theorem updates_noteCapability (req : ReceivePackRequest) (c : String) :
    (noteCapability req c).updates = req.updates := by
  unfold noteCapability
  split_ifs <;> rfl

@[simp] theorem updates_addUpdate (first : Bool) (req : ReceivePackRequest) (u : RefUpdate)
    (caps : Option String) : (addUpdate first req u caps).updates = req.updates ++ [u] := by
  have hfold : ∀ (cs : List String) (req : ReceivePackRequest),
      (cs.foldl noteCapability req).updates = req.updates := by
    intro cs
    induction cs with
    | nil => exact fun req => rfl
    | cons c cs ih =>
        intro req
        rw [List.foldl_cons, ih, updates_noteCapability]
  unfold addUpdate
  cases first with
  | false => rfl
  | true =>
      cases caps with
      | none => rfl
      | some caps => exact hfold _ _

theorem isHex40_of_parseUpdateLine {s : String} {u : RefUpdate} {caps : Option String}
    (h : parseUpdateLine s = some (u, caps)) : isHex40 u.old = true ∧ isHex40 u.new = true := by
  unfold parseUpdateLine at h
  split at h
  split at h
  · split_ifs at h with hhex
    cases h
    simpa using hhex
  · cases h

/-- What holds of the update of every line that is read holds of every parsed update. -/
theorem forall_updates {P : RefUpdate → Prop}
    (hP : ∀ buf d rest s u caps, read buf = .ok (.data d, rest) → fromUtf8 d = some s →
      parseUpdateLine (trimEndMatches s '\n') = some (u, caps) → P u)
    {body : List UInt8} {req : ReceivePackRequest} (h : parseReceivePackBody body = some req) :
    ∀ u ∈ req.updates, P u := by
  have hloop : ∀ fuel first (acc : ReceivePackRequest) buf, (∀ u ∈ acc.updates, P u) →
      parseLoop fuel first acc buf = some req → ∀ u ∈ req.updates, P u := by
    intro fuel
    induction fuel with
    | zero =>
        intro first acc buf hacc hparse
        cases hparse
    | succ fuel ih =>
        intro first acc buf hacc hparse
        unfold parseLoop at hparse
        split at hparse
        · cases hparse
        · cases hparse
          exact hacc
        · cases hparse
        · cases hparse
        · rename_i d rest hread
          split at hparse
          · cases hparse
          · rename_i u caps hline
            refine ih false _ _ ?_ hparse
            obtain ⟨s, hs, hu⟩ := Option.bind_eq_some_iff.mp hline
            intro v hv
            rw [updates_addUpdate, List.mem_append, List.mem_singleton] at hv
            rcases hv with hv | rfl
            · exact hacc v hv
            · exact hP _ _ _ _ _ _ hread hs hu
  exact hloop _ _ _ _ (by simp) h

/-- **What is accepted is well formed**: both oids of every parsed update are
forty hexadecimal digits. -/
theorem isHex40_of_parseReceivePackBody {body : List UInt8} {req : ReceivePackRequest}
    (h : parseReceivePackBody body = some req) :
    ∀ u ∈ req.updates, isHex40 u.old = true ∧ isHex40 u.new = true :=
  forall_updates (fun _ _ _ _ _ _ _ _ hline => isHex40_of_parseUpdateLine hline) h

end GitWire
end Artifacts
