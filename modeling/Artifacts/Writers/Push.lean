import Artifacts.Writers.Asks

/-!
# Pushes as writers

`push` is the native receive-pack handler, one operation at a time: the pack, the
connectivity check, and then each ref update by itself.  Run alone it answers what
`nativeReceivePackResponse` answers.

The pack is taken in one operation, as its objects are not looked at by the other writers.
-/

namespace Artifacts
namespace Writers

open Foundation GitWire Refs SmartHttp

/-- The compare-and-swap loop, with the lines of the report. -/
def pushUpdates : List RefUpdate → Program Op Op.Answer (List String)
  | [] => .ret []
  | u :: us =>
      .ask (.refUpdate u) fun outcome =>
        (pushUpdates us).bind fun lines => .ret (updateLine u outcome :: lines)

/-- The lines behind the unpack line. -/
def pushLines (unpack : Except String Unit) (req : ReceivePackRequest) :
    Program Op Op.Answer (List String) :=
  match unpack with
  | .ok _ =>
      .ask (.connectivity unpack req) fun connected =>
        match connected with
        | .error _ =>
            .ret (req.updates.map fun u => "ng " ++ u.name ++ " missing necessary objects\n")
        | .ok _ => pushUpdates req.updates
  | .error _ => .ret (req.updates.map fun u => "ng " ++ u.name ++ " unpacker error\n")

def pushResponse (req : ReceivePackRequest) (unpack : Except String Unit)
    (lines : List String) : Response where
  status := 200
  contentType := "application/x-git-receive-pack-result"
  cacheControl := "no-cache"
  body := frameReport req.hasSideband64k (buildReport (unpackLine unpack :: lines))

/-- `native_receive_pack_response`, as a writer: each update is an operation of its own, with others
in between. -/
def push (req : ReceivePackRequest) : Writer Response :=
  .ask (.unpack req) fun outcome =>
    match outcome with
    | .error e => .ret (.error e)
    | .ok unpack => (pushLines unpack req).bind fun lines => .ret (.ok (pushResponse req unpack lines))

section Alone

variable {σ : Type} (site : Site σ)

theorem run_pushUpdates (updates : List RefUpdate) (s : σ) :
    (pushUpdates updates).run site.handle s =
      applyLines site.printable site.refs site.repoId.text s updates := by
  induction updates generalizing s with
  | nil => rfl
  | cons u us ih =>
      rw [pushUpdates, Program.run_ask, Program.run_bind, ih, applyLines]
      rfl

/-- What the handler finds: the checks of the tips come after the pack. -/
def Site.pushEnv (s : σ) (req : ReceivePackRequest) : PackEnv :=
  { site.packEnv s with
    revListCheckConnected := (site.packEnv (site.unpacked s req)).revListCheckConnected }

theorem run_pushLines (s : σ) (unpack : Except String Unit) (req : ReceivePackRequest) :
    (pushLines unpack req).run site.handle (site.unpacked s req) =
      updateLines site.printable site.refs site.repoId.text (site.pushEnv s req) unpack req
        (site.unpacked s req) := by
  cases unpack with
  | error msg => rfl
  | ok u =>
      have hconnected : (site.handle (.connectivity (.ok u) req) (site.unpacked s req)).1 =
          SmartHttp.connectivity (site.pushEnv s req) (.ok u) req := rfl
      rw [pushLines, Program.run_ask, hconnected]
      unfold updateLines
      dsimp only
      cases SmartHttp.connectivity (site.pushEnv s req) (.ok u) req with
      | error msg => rfl
      | ok v => exact run_pushUpdates site req.updates (site.unpacked s req)

/-- **A push alone** is the native handler. -/
theorem run_push (s : σ) (req : ReceivePackRequest) :
    (push req).run site.handle s =
      nativeReceivePackResponse site.printable (site.pushEnv s req) site.refs site.repoId.text req
        (site.unpacked s req) := by
  have hunpack : (site.handle (.unpack req) s).1 =
      unpackOutcome (site.pushEnv s req) site.repoId.text req := rfl
  rw [push, Program.run_ask, hunpack]
  unfold nativeReceivePackResponse
  cases unpackOutcome (site.pushEnv s req) site.repoId.text req with
  | error e => rfl
  | ok unpack =>
      dsimp only
      rw [Program.run_bind]
      have hlines := run_pushLines site s unpack req
      show (Except.ok (pushResponse req unpack
          ((pushLines unpack req).run site.handle (site.unpacked s req)).1),
        ((pushLines unpack req).run site.handle (site.unpacked s req)).2) = _
      rw [hlines]
      rfl

end Alone
end Writers
end Artifacts
