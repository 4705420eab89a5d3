import Artifacts.Foundation.Interleaving
import Artifacts.Writers.Landings
import Artifacts.Writers.SmallGit

/-!
# Writers side by side

Commits, merges and pushes take their steps in any order.  The compare-and-swap sees to it
that the branch still has the tip a call started from, and what the call has learnt sees to
it that this tip is an ancestor of the new one.

Only a push can break this: an update from nothing to nothing deletes a branch without a
look at its tip.

* `Sound` is the invariant: what a call has learnt is still true of the objects, as objects are
  never removed here.
* `AboutToDelete` is the one step that is excluded.
* `Reported` says that a success was a swap that landed.

Collections of garbage take no turns in this; they are in `Keeps`.
-/

namespace Artifacts
namespace Writers

open Foundation GitWire Refs Rust SmartHttp

/-- A call under way. -/
abbrev Place := Underway Op Op.Answer Reply

section Runs

variable {σ κ : Type}

/-- The call `k` goes on by one operation. -/
def Site.turn [DecidableEq κ] (site : Site σ) (c : Calls κ σ Place) (k : κ) : Calls κ σ Place :=
  c.move (fun _ _ s p => p.step site.handle s) (fun e : Empty => e.elim) (.call k ())

/-- All calls are at their beginning. -/
def beginAll (cfg : Config) (requests : κ → Request) (s : σ) : Calls κ σ Place :=
  ⟨s, fun k => ⟨[], (requests k).program cfg⟩⟩

/-! ### In order -/

variable (site : Site σ) (view : RepoView σ)

/-- An operation that has moved a ref found there what its call took it to have. -/
def LandsInOrder (req : Request) (past : Past) (s s' : σ) : (op : Op) → op.Answer → Prop
  | .casUpdate refName expected new, answer =>
      answer = .ok .updated →
        req.Tip past refName.text expected ∧
          view.ref s site.repoId refName.text = expected ∧
          view.ref s' site.repoId refName.text = some new
  | .refUpdate u, answer =>
      answer = .ok () → startsWith u.name "refs/" = true →
        (view.ref s site.repoId u.name).map Oid.text = if u.isCreate then none else some u.old
  | _, _ => True

/-- Every tip is an ancestor of the tip its ref has afterwards. -/
def KeepsTips (s s' : σ) : Prop :=
  ∀ name tip, view.ref s site.repoId name = some tip →
    ∃ tip', view.ref s' site.repoId name = some tip' ∧ view.Ancestor s' tip tip'

/-- The next step of `k` lands in order, and a commit or a merge loses no tip in it. -/
def InOrder (requests : κ → Request) (c : Calls κ σ Place) (k : κ) : Prop :=
  match (c.place k).rest with
  | .ret _ => True
  | .ask op _ =>
      LandsInOrder site view (requests k) (c.place k).past c.shared (site.handle op c.shared).2
          op (site.handle op c.shared).1 ∧
        ((requests k).target ≠ none → KeepsTips site view c.shared (site.handle op c.shared).2)

/-- A push is about to apply an update from nothing to nothing to a ref that is there. -/
def AboutToDelete (c : Calls κ σ Place) (k : κ) : Prop :=
  match (c.place k).rest with
  | .ask (.refUpdate u) _ => ZeroToZero u ∧ view.ref c.shared site.repoId u.name ≠ none
  | _ => False

/-- Every call that has returned has done what it reports. Calls that are under way report nothing
yet. -/
def Reported (requests : κ → Request) (c : Calls κ σ Place) : Prop :=
  ∀ k reply, (c.place k).rest = .ret reply → Accounted (c.place k).past (requests k) reply

/-! ### What a run keeps -/

variable {site view} {plain : σ → Prop} {cfg : Config} {requests : κ → Request}
  {c : Calls κ σ Place} {k : κ}

/-- What holds of a call at its place, in the repository as it is now. -/
def Sound (view : RepoView σ) (plain : σ → Prop) (req : Request) (s : σ) (p : Place) : Prop :=
  plain s ∧ Facts view s p.past ∧
    p.rest.Keeps AnyAnswer req.Good (fun past reply => Accounted past req reply) p.past

theorem Facts.mono {s s' : σ} {past : Past} (h : view.Extends s s') (hfacts : Facts view s past) :
    Facts view s' past := fun event hmem => (hfacts event hmem).mono h

/-- A step keeps the repository plain and loses no commit. -/
theorem step_extends (hgit : SoundGit site view plain) {s : σ} (hs : plain s) (p : Place) :
    plain (p.step site.handle s).1 ∧ view.Extends s (p.step site.handle s).1 := by
  cases hrest : p.rest with
  | ret reply =>
      rw [Underway.step_of_ret hrest]
      exact ⟨hs, fun _ _ h => h⟩
  | ask op next =>
      rw [Underway.step_of_ask hrest]
      exact hgit.keeps op s hs

theorem Sound.step (hgit : SoundGit site view plain) {req : Request} {s : σ} {p : Place}
    (h : Sound view plain req s p) :
    Sound view plain req (p.step site.handle s).1 (p.step site.handle s).2 := by
  obtain ⟨hs, hfacts, hkeeps⟩ := h
  obtain ⟨hs', hextends⟩ := step_extends hgit hs p
  refine ⟨hs', ?_, Underway.keeps_step (fun _ => trivial) hkeeps⟩
  cases hrest : p.rest with
  | ret reply =>
      rw [Underway.step_of_ret hrest]
      exact hfacts
  | ask op next =>
      rw [Underway.step_of_ask hrest] at hextends ⊢
      refine List.forall_mem_cons.mpr ⟨?_, hfacts.mono hextends⟩
      exact fact_handle hgit hs op

/-- **The invariant.** Whoever takes the next step, what every call has learnt stays true. -/
theorem sound_turn [DecidableEq κ] (hgit : SoundGit site view plain)
    (h : ∀ k, Sound view plain (requests k) c.shared (c.place k)) (j : κ) :
    ∀ k, Sound view plain (requests k) (site.turn c j).shared ((site.turn c j).place k) := by
  refine Calls.move_keeps (A := fun k => Sound view plain (requests k)) ?_ ?_ ?_ h (.call j ())
  · exact fun k _ s p hp => hp.step hgit
  · intro k j _ s p q _ hp hq
    obtain ⟨hs, hfacts, hkeeps⟩ := hp
    obtain ⟨hs', hextends⟩ := step_extends hgit hs q
    exact ⟨hs', hfacts.mono hextends, hkeeps⟩
  · exact fun _ e => e.elim

theorem sound_beginAll {s : σ} (hs : plain s) (k : κ) :
    Sound view plain (requests k) (beginAll cfg requests s).shared
      ((beginAll cfg requests s).place k) :=
  ⟨hs, fun _ hmem => (List.not_mem_nil hmem).elim, (requests k).program_keeps cfg⟩

theorem startsWith_branchRef (branch : String) : startsWith (branchRef branch) "refs/" = true := by
  show ("refs/".toList).isPrefixOf ("refs/heads/" ++ branch).toList = true
  rw [String.toList_append]
  rfl

/-- The branch of a commit or a merge is a ref. -/
theorem startsWith_target {req : Request} {name : String} (h : req.target = some name) :
    startsWith name "refs/" = true := by
  cases req with
  | commit admitted body =>
      obtain rfl := Option.some.inj h
      exact startsWith_branchRef _
  | merge admitted body =>
      obtain rfl := Option.some.inj h
      exact startsWith_branchRef _
  | push r => cases h

theorem keepsTips_of_refs {s s' : σ}
    (h : ∀ name, view.ref s' site.repoId name = view.ref s site.repoId name) :
    KeepsTips site view s s' :=
  fun name tip htip => ⟨tip, (h name).trans htip, .refl⟩

/-- The swap of a commit or a merge. -/
theorem casUpdate_inOrder (hgit : SoundGit site view plain) {req : Request} {s : σ} {past : Past}
    (hs : plain s) (hfacts : Facts view s past) {refName : RefName} {expected : Option Oid}
    {new : Oid} (hgood : req.Good past (.casUpdate refName expected new)) :
    let result := site.handle (.casUpdate refName expected new) s
    LandsInOrder site view req past s result.2 (.casUpdate refName expected new) result.1 ∧
      KeepsTips site view s result.2 := by
  obtain ⟨htarget, htip, hseen, hderived⟩ := hgood
  obtain ⟨hnew, hancestor⟩ := hderived.descends hgit hs hfacts
  obtain ⟨hframe, hlands⟩ := casUpdate_lands hgit hs (startsWith_target htarget) expected new
    (fun t ht => (hseen t ht).nonzero hfacts) hnew
  refine ⟨fun hupdated => ⟨htip, hlands (Or.inl hupdated)⟩, fun name tip hbefore => ?_⟩
  have hextends := (hgit.keeps (.casUpdate refName expected new) s hs).2
  by_cases hmoved : view.ref (site.handle (.casUpdate refName expected new) s).2 site.repoId name =
      view.ref s site.repoId name
  · exact ⟨tip, hmoved.trans hbefore, .refl⟩
  · -- the only ref that can have moved is the one that was swapped
    have hname : name = refName.text := by
      by_contra hother
      exact hmoved (hframe site.repoId name fun h => hother h.2)
    subst hname
    obtain ⟨hexpected, hafter⟩ := hlands (Or.inr hmoved)
    refine ⟨new, hafter, (hancestor tip ?_).mono hextends⟩
    exact hexpected.symm.trans hbefore

/-- **One step.** A sound call lands in order, unless it is about to delete. -/
theorem inOrder_of_sound (hgit : SoundGit site view plain)
    (h : Sound view plain (requests k) c.shared (c.place k))
    (hsafe : ¬ AboutToDelete site view c k) : InOrder site view requests c k := by
  obtain ⟨hs, hfacts, hkeeps⟩ := h
  unfold InOrder
  unfold AboutToDelete at hsafe
  cases hrest : (c.place k).rest with
  | ret reply => trivial
  | ask op next =>
      have hgood := Underway.good_of_ask hrest hkeeps
      rw [hrest] at hsafe
      cases op with
      | casUpdate refName expected new =>
          obtain ⟨hlands, htips⟩ := casUpdate_inOrder hgit hs hfacts hgood
          exact ⟨hlands, fun _ => htips⟩
      | refUpdate u =>
          refine ⟨fun hdone hunder => refUpdate_lands hgit hs hunder hdone hsafe, fun htarget => ?_⟩
          -- only pushes ask for it
          cases hreq : requests k with
          | push r =>
              rw [hreq] at htarget
              exact absurd rfl htarget
          | commit admitted body =>
              rw [hreq] at hgood
              exact hgood.elim
          | merge admitted body =>
              rw [hreq] at hgood
              exact hgood.elim
      | _ => exact ⟨trivial, fun _ => keepsTips_of_refs (hgit.quiet _ _ (by trivial) hs)⟩

theorem reported_of_sound (h : ∀ k, Sound view plain (requests k) c.shared (c.place k)) :
    Reported requests c := by
  intro k reply hrest
  obtain ⟨-, -, hkeeps⟩ := h k
  rw [hrest] at hkeeps
  exact hkeeps

/-- **No update is lost between writers.**  However commits, merges and pushes take turns, as
long as no push applies an update from nothing to nothing to a ref that is there: every swap
that succeeds found the tip its call started from; a commit or a merge leaves every tip an
ancestor of the tip after it; and a call that reports success has landed. -/
theorem writers_in_order [DecidableEq κ] (site : Site σ) (view : RepoView σ) (plain : σ → Prop)
    (hgit : SoundGit site view plain) (cfg : Config) (requests : κ → Request) (s : σ)
    (hs : plain s) (turns : List κ)
    (hsafe : EveryStep site.turn (fun c k => ¬ AboutToDelete site view c k)
      (beginAll cfg requests s) turns) :
    EveryStep site.turn (InOrder site view requests) (beginAll cfg requests s) turns ∧
      EveryState site.turn (Reported requests) (beginAll cfg requests s) turns := by
  have hbegin : ∀ k, Sound view plain (requests k) (beginAll cfg requests s).shared
      ((beginAll cfg requests s).place k) := fun k => sound_beginAll hs k
  have hkeep : ∀ c : Calls κ σ Place, ∀ j,
      (∀ k, Sound view plain (requests k) c.shared (c.place k)) →
        ∀ k, Sound view plain (requests k) (site.turn c j).shared ((site.turn c j).place k) :=
    fun c j h => sound_turn hgit h j
  constructor
  · exact everyStep_of_invariant hkeep (fun c k h hk => inOrder_of_sound hgit (h k) hk) hbegin hsafe
  · exact everyState_of_invariant (fun c h => reported_of_sound h) hkeep hbegin turns

/-- Pushes without updates from nothing to nothing delete nothing unseen. -/
theorem not_aboutToDelete [DecidableEq κ] {s : σ}
    (hupdates : ∀ k r, requests k = .push r → ∀ u ∈ r.updates, ¬ ZeroToZero u) (turns : List κ) :
    EveryStep site.turn (fun c k => ¬ AboutToDelete site view c k) (beginAll cfg requests s)
      turns := by
  let Asked (k : κ) (p : Place) : Prop :=
    p.rest.Keeps AnyAnswer (requests k).Good (fun _ _ => True) p.past
  have hkeep : ∀ c : Calls κ σ Place, ∀ j, (∀ k, Asked k (c.place k)) →
      ∀ k, Asked k ((site.turn c j).place k) := by
    intro c j h
    exact Calls.move_keeps_place (A := Asked)
      (fun k _ s p hp => Underway.keeps_step (fun _ => trivial) hp) h (.call j ())
  have hstep : ∀ c : Calls κ σ Place, ∀ k, (∀ k, Asked k (c.place k)) → True →
      ¬ AboutToDelete site view c k := by
    intro c k h _ hdelete
    unfold AboutToDelete at hdelete
    cases hrest : (c.place k).rest with
    | ret reply =>
        rw [hrest] at hdelete
        exact hdelete
    | ask op next =>
        rw [hrest] at hdelete
        have hgood := Underway.good_of_ask hrest (h k)
        cases op with
        | refUpdate u =>
            cases hreq : requests k with
            | push r =>
                rw [hreq] at hgood
                exact hupdates k r hreq u hgood hdelete.1
            | commit admitted body =>
                rw [hreq] at hgood
                exact hgood.elim
            | merge admitted body =>
                rw [hreq] at hgood
                exact hgood.elim
        | _ => exact hdelete
  refine everyStep_of_invariant hkeep hstep (fun k => ?_) (everyStep_of_forall fun _ _ => trivial)
  exact ((requests k).program_keeps cfg).mono fun _ _ _ => trivial

end Runs

/-! ### A small history -/

def rootOid : Oid := ⟨"1111111111111111111111111111111111111111", by decide⟩
def topicOid : Oid := ⟨"2222222222222222222222222222222222222222", by decide⟩
def newTree : Oid := ⟨"3333333333333333333333333333333333333333", by decide⟩
def newCommit : Oid := ⟨"4444444444444444444444444444444444444444", by decide⟩

/-- `main` is at the root, and `topic` one commit ahead. -/
def smallHistory : SmallRepo where
  refs := fun key =>
    if key = ("demo-1", "refs/heads/main") then some rootOid
    else if key = ("demo-1", "refs/heads/topic") then some topicOid
    else none
  commits := [⟨topicOid, emptyTree, [rootOid]⟩, ⟨rootOid, emptyTree, []⟩]
  supply := [newTree, newCommit]

theorem smallHistory_plain : smallHistory.Plain := by
  refine ⟨⟨by decide, by decide, by decide, by decide, by decide, by decide, trivial⟩, ?_⟩
  intro key oid href
  simp only [smallHistory] at href
  split_ifs at href
  · obtain rfl := Option.some.inj href
    decide
  · obtain rfl := Option.some.inj href
    decide

def smallConfig : Config where
  printable := printableAscii
  gitDir := "repos/demo-1.git"
  maxCommitBlobBytes := 1000
  base64Error := fun _ => "invalid base64"

/-- A merge of `topic` into `main`, a commit on top of it, and a push that takes `topic` back. -/
def threeWriters : Fin 3 → Request
  | 0 => .merge (.ok ())
      { sourceBranch := "topic", targetBranch := "main", strategy := .auto, message := none
        author := none }
  | 1 => .commit (.ok ())
      { branch := "main", parent := some topicOid, message := "Second", author := none
        changes := [] }
  | 2 => .push
      { updates := [⟨topicOid.text, rootOid.text, "refs/heads/topic"⟩], hasReportStatus := true
        hasSideband64k := false, hasUnsupported := false, pack := [] }

def roundRobin : List (Fin 3) := (List.replicate 9 [0, 1, 2]).flatten

/-- The merge goes first, and the commit lands on what it has moved `main` to. -/
theorem writers_in_order_roundRobin :
    (EveryStep smallSite.turn (InOrder smallSite smallView.toRepoView threeWriters)
        (beginAll smallConfig threeWriters smallHistory) roundRobin ∧
      EveryState smallSite.turn (Reported threeWriters)
        (beginAll smallConfig threeWriters smallHistory) roundRobin) ∧
    (roundRobin.foldl smallSite.turn (beginAll smallConfig threeWriters smallHistory)).shared.refs
      ("demo-1", "refs/heads/main") = some newCommit := by
  refine ⟨writers_in_order smallSite smallView.toRepoView SmallRepo.Plain SmallRepo.sound
    smallConfig threeWriters smallHistory smallHistory_plain roundRobin
    (not_aboutToDelete ?_ roundRobin), by decide +kernel⟩
  intro k r hreq u hu
  match k, hreq with
  | 2, hreq =>
      obtain rfl := Request.push.inj hreq
      obtain rfl := List.mem_singleton.mp hu
      exact fun hzero => absurd hzero.1 (by decide)

/-- An update from nothing to nothing, of a branch. -/
def zeroPush : Request :=
  .push
    { updates := [⟨RefUpdate.zero, RefUpdate.zero, "refs/heads/main"⟩], hasReportStatus := true
      hasSideband64k := false, hasUnsupported := false, pack := [] }

/-- It deletes the branch, though it takes it to be absent. -/
theorem push_deletes_unseen :
    SoundGit smallSite smallView.toRepoView SmallRepo.Plain ∧ smallHistory.Plain ∧
      ¬ EveryStep smallSite.turn (InOrder smallSite smallView.toRepoView fun _ : Unit => zeroPush)
        (beginAll smallConfig (fun _ => zeroPush) smallHistory) [(), (), ()] := by
  refine ⟨SmallRepo.sound, smallHistory_plain, ?_⟩
  rintro ⟨-, -, ⟨hlands, -⟩, -⟩
  have habsent := hlands rfl rfl
  revert habsent
  decide +kernel

end Writers
end Artifacts
