import Artifacts.Writers.Contract
import Artifacts.Writers.Push

/-!
# What a writer relies on when it lands

A commit or a merge moves its branch with a compare-and-swap at the end.  By then it has
learnt, from the answers of git and gix, that the new tip descends from the one it expects.
Such answers stay true while others write to the repository, because commits are never
rewritten: this is what makes the swap safe however late it comes.

* `Fact` is something learnt that stays true, and `Good` what a request may ask, given its past.
* `…_keeps` lemmas go through the three programs once.
* `casUpdate_lands` and `refUpdate_lands` are what a swap then does to the tips.

Nothing is assumed of the order in which others take their turns.
-/

namespace Artifacts
namespace Writers

open Foundation GitWire Refs Rust SmartHttp
open Relation (ReflTransGen)

/-! ### What a call learns -/

/-- What an answer still says in the state `s`, however long ago it was given: what was learned of
commits. Where a ref was may have changed since. -/
def Fact {σ : Type} (view : RepoView σ) (s : σ) : (op : Op) → op.Answer → Prop
  | .git (.showRef _) _, answer =>
      ∀ out err, answer = .ok (0, out, err) → utf8Trimmed out ≠ .ok zeroOid.text
  | .git (.isAncestor x y) _, answer =>
      ∀ out err, answer = .ok (0, out, err) →
        ∀ a d : Oid, a.text = x → d.text = y → view.Ancestor s a d
  | .git (.commitTree _ t _ _) _, answer =>
      ∀ out err, answer = .ok (0, out, err) →
        ∀ target commit : Oid, target.text = t → utf8Trimmed out = .ok commit.text →
          ∃ ps, view.parents s commit = some ps ∧ target ∈ ps
  | .gix (.writeObject commit), answer =>
      ∀ id, answer = .ok id → view.parents s id = some commit.parents
  | .objectExists oid, answer => answer = .ok true → oid ≠ zeroOid
  | _, _ => True

section Facts

variable {σ : Type} {site : Site σ} {view : RepoView σ} {plain : σ → Prop}

theorem Fact.mono {s s' : σ} (h : view.Extends s s') {op : Op} {answer : op.Answer}
    (hfact : Fact view s op answer) : Fact view s' op answer := by
  cases op with
  | git command env =>
      cases command with
      | showRef name => exact hfact
      | isAncestor x y =>
          exact fun out err hout a d ha hd => (hfact out err hout a d ha hd).mono h
      | revParseTree commit => trivial
      | mergeTree target source => trivial
      | commitTree tree t source message =>
          intro out err hout target commit ht hcommit
          obtain ⟨ps, hps, hmem⟩ := hfact out err hout target commit ht hcommit
          exact ⟨ps, h _ _ hps, hmem⟩
  | gix call =>
      cases call with
      | writeObject commit => exact fun id hid => h _ _ (hfact id hid)
      | _ => trivial
  | objectExists oid => exact hfact
  | systemTime => trivial
  | casUpdate refName expected newSha => trivial
  | unpack req => trivial
  | connectivity unpack req => trivial
  | refUpdate u => trivial

/-- An answer is true when it is given. -/
theorem fact_handle (hgit : SoundGit site view plain) {s : σ} (hs : plain s) (op : Op) :
    Fact view (site.handle op s).2 op (site.handle op s).1 := by
  have hextends := (hgit.keeps op s hs).2
  cases op with
  | git command env =>
      cases command with
      | showRef name => exact fun out err hout => hgit.showRef s env name out err hs hout
      | isAncestor x y =>
          rintro out err hout a d rfl rfl
          exact (hgit.isAncestor s env a d out err hs hout).mono hextends
      | revParseTree commit => trivial
      | mergeTree target source => trivial
      | commitTree tree t source message =>
          rintro out err hout target commit rfl hcommit
          exact hgit.commitTree s env tree target commit source message out err hs hout hcommit
  | gix call =>
      cases call with
      | writeObject commit => exact fun id hid => hgit.writeObject s commit id hs hid
      | _ => trivial
  | objectExists oid =>
      rintro hpresent rfl
      exact hgit.objectExists_zero s hs hpresent
  | systemTime => trivial
  | casUpdate refName expected newSha => trivial
  | unpack req => trivial
  | connectivity unpack req => trivial
  | refUpdate u => trivial

end Facts

/-! ### Requests -/

inductive Request where
  | commit (admitted : Result Unit) (body : CommitBody)
  | merge (admitted : Result Unit) (body : MergeBody)
  | push (req : ReceivePackRequest)

inductive Reply where
  | commit (result : Result CommitResult)
  | merge (result : Result MergeResult)
  | push (result : Result Response)

/-- The call that serves a request. -/
def Request.program (cfg : Config) : Request → Program Op Op.Answer Reply
  | .commit admitted body => (createCommit cfg admitted body).bind fun r => .ret (.commit r)
  | .merge admitted body => (mergeBranches cfg body admitted).bind fun r => .ret (.merge r)
  | .push req => (Writers.push req).bind fun r => .ret (.push r)

/-- The operations a call has asked for, and their answers, the latest first. -/
abbrev Past := List (Event Op Op.Answer)

/-- What the latest `show-ref` of a ref has read. -/
def lastRead : Past → String → Option (Option String)
  | [], _ => none
  | ⟨.git (.showRef name) _, answer⟩ :: past, ref =>
      if name = ref then (readShowRef answer).toOption else lastRead past ref
  | _ :: past, ref => lastRead past ref

/-- The branch a call lands on. -/
def Request.target : Request → Option String
  | .commit _ body => some (branchRef body.branch)
  | .merge _ body => some (branchRef body.targetBranch)
  | .push _ => none

/-- The value that a call takes the ref to have: the parent the caller gave, or the tip
the call read. -/
def Request.Tip (past : Past) (ref : String) (expected : Option Oid) : Request → Prop
  | .commit _ body => expected = body.parent
  | .merge _ _ => lastRead past ref = some (expected.map Oid.text)
  | .push _ => False

/-- Some `show-ref` has read this id. -/
def WasRead (past : Past) (sha : String) : Prop :=
  ∃ ref env out err, ⟨.git (.showRef ref) env, .ok (0, out, err)⟩ ∈ past ∧
    utf8Trimmed out = .ok sha

/-- The object was looked up, or is the value that a ref had. -/
def Seen (past : Past) (oid : Oid) : Prop :=
  ⟨.objectExists oid, .ok true⟩ ∈ past ∨ WasRead past oid.text

/-- How the new tip has come from the one that is expected. -/
inductive Derived (past : Past) (expected : Option Oid) (new : Oid) : Prop where
  /-- It was written by gix, with the expected tip as its only parent. -/
  | written (commit : Commit) (hparents : commit.parents = expected.toList)
      (hwrite : ⟨.gix (.writeObject commit), .ok new⟩ ∈ past)
  /-- It was read, and git said that it descends from the expected tip, if there is one. -/
  | forward (hread : WasRead past new.text)
      (hancestor : ∀ t ∈ expected, ∃ env out err,
        ⟨.git (.isAncestor t.text new.text) env, .ok (0, out, err)⟩ ∈ past)
  /-- It was written by `commit-tree`, with the expected tip among its parents. -/
  | joined (target : Oid) (htarget : expected = some target) (tree source message : String)
      (env : List (String × String)) (out err : List UInt8)
      (hwrite : ⟨.git (.commitTree tree target.text source message) env, .ok (0, out, err)⟩ ∈ past)
      (hnew : utf8Trimmed out = .ok new.text)

/-- What a call may ask for, given its past. -/
def Request.Good (req : Request) (past : Past) : Op → Prop
  | .casUpdate refName expected new =>
      req.target = some refName.text ∧ req.Tip past refName.text expected ∧
        (∀ t ∈ expected, Seen past t) ∧ Derived past expected new
  | .refUpdate u =>
      match req with
      | .push r => u ∈ r.updates
      | _ => False
  | _ => True

/-- The compare-and-swap of a call has succeeded. -/
def Landed (past : Past) (ref : String) : Prop :=
  ∃ (refName : RefName) (expected : Option Oid) (new : Oid), refName.text = ref ∧
    ⟨.casUpdate refName expected new, .ok .updated⟩ ∈ past

/-- A merge found its source contained in the target. -/
def FoundContained (past : Past) : Prop :=
  ∃ source target env out err, ⟨.git (.isAncestor source target) env, .ok (0, out, err)⟩ ∈ past

/-- What a call has done when it reports success. A merge of what is contained already moves nothing
and succeeds. -/
def Accounted (past : Past) : Request → Reply → Prop
  | .commit _ body, .commit (.ok _) => Landed past (branchRef body.branch)
  | .merge _ body, .merge (.ok _) => Landed past (branchRef body.targetBranch) ∨ FoundContained past
  | _, _ => True

/-- No restriction on the answers. -/
def AnyAnswer (op : Op) (_ : op.Answer) : Prop := True

/-! ### Rules for the steps of a writer -/

section Rules

variable {Good : Past → Op → Prop} {α β : Type} {Post : Past → Result β → Prop} {past : Past}
  {f : α → Writer β}

theorem keeps_lift (herr : ∀ past e, Post past (.error e)) {r : Result α}
    (h : ∀ a, r = .ok a → (f a).Keeps AnyAnswer Good Post past) :
    ((lift r).andThen f).Keeps AnyAnswer Good Post past := by
  cases r with
  | error e => exact herr past e
  | ok a => exact h a rfl

theorem keeps_askGit (herr : ∀ past e, Post past (.error e)) {command : GitCommand}
    {read : GitOutput → Result α} (hgood : Good past (.git command []))
    (h : ∀ output a, read output = .ok a →
      (f a).Keeps AnyAnswer Good Post (⟨.git command [], output⟩ :: past)) :
    ((askGit command read).andThen f).Keeps AnyAnswer Good Post past := by
  refine ⟨hgood, fun output _ => ?_⟩
  show ((lift (read output)).andThen f).Keeps AnyAnswer Good Post _
  exact keeps_lift herr fun a ha => h output a ha

theorem keeps_askGix (herr : ∀ past e, Post past (.error e)) {call : GixCall}
    {answer : call.Answer → Except String α} {what : String} (hgood : Good past (.gix call))
    (h : ∀ output a, answer output = .ok a →
      (f a).Keeps AnyAnswer Good Post (⟨.gix call, output⟩ :: past)) :
    ((askGix call answer what).andThen f).Keeps AnyAnswer Good Post past := by
  refine ⟨hgood, fun output _ => ?_⟩
  cases hanswer : answer output with
  | error e =>
      dsimp only
      rw [hanswer]
      exact herr _ _
  | ok a =>
      dsimp only
      rw [hanswer]
      exact h output a hanswer

theorem keeps_casBranch (herr : ∀ past e, Post past (.error e)) {f : Unit → Writer β}
    {branch : String} {refName : RefName} {expected : Option Oid} {new : Oid}
    (hgood : Good past (.casUpdate refName expected new))
    (h : (f ()).Keeps AnyAnswer Good Post (⟨.casUpdate refName expected new, .ok .updated⟩ :: past)) :
    ((casBranch branch refName expected new).andThen f).Keeps AnyAnswer Good Post past := by
  refine ⟨hgood, fun outcome _ => ?_⟩
  cases outcome with
  | error e => exact herr _ e
  | ok outcome =>
      cases outcome with
      | updated => exact h
      | conflict current => exact herr _ _

/-- A part of a writer that asks for nothing but quiet operations. -/
theorem keeps_quietly (herr : ∀ past e, Post past (.error e)) {P : Op → Prop}
    (hgood : ∀ past op, P op → Good past op) {p : Writer α} (hp : p.Asks P)
    (h : ∀ past' a, past <:+ past' → (f a).Keeps AnyAnswer Good Post past') :
    (p.andThen f).Keeps AnyAnswer Good Post past := by
  rw [Program.keeps_andThen]
  refine (Program.keeps_of_asks hgood hp past).mono fun past' result hpast => ?_
  cases result with
  | error e => exact herr past' e
  | ok a => exact h past' a hpast

end Rules

/-! ### Commits -/

theorem Request.good_of_quiet (req : Request) (past : Past) (op : Op) (h : Quiet op) :
    req.Good past op := by
  cases op with
  | casUpdate refName expected newSha => exact h.elim
  | refUpdate u => exact h.elim
  | _ => trivial

theorem askGix_asks {α : Type} {P : Op → Prop} (call : GixCall)
    (answer : call.Answer → Except String α) (what : String) (h : P (.gix call)) :
    (askGix call answer what).Asks P := by
  refine ⟨h, fun output => ?_⟩
  dsimp only
  cases answer output with
  | error e => trivial
  | ok a => trivial

theorem askGix_quiet {α : Type} (call : GixCall) (answer : call.Answer → Except String α)
    (what : String) : (askGix call answer what).Asks Quiet :=
  askGix_asks call answer what trivial

theorem baseTree_quiet (parent : Option Oid) : (baseTree parent).Asks Quiet := by
  cases parent with
  | none => trivial
  | some oid =>
      exact (askGix_quiet _ _ _).andThen fun _ => askGix_quiet _ _ _

theorem editChanges_quiet (editor : TreeEditor) (changes : List PreparedChange) :
    (editChanges editor changes).Asks Quiet := by
  induction changes generalizing editor with
  | nil => trivial
  | cons change changes ih =>
      cases change with
      | write path bytes kind =>
          refine (askGix_quiet _ _ _).andThen fun blobId => ?_
          exact (askGix_quiet _ _ _).andThen fun _ => ih _
      | delete path => exact (askGix_quiet _ _ _).andThen fun _ => ih _

section Keeping

variable {cfg : Config} {req : Request}

/-- **The builder** writes a commit on the parent it was given. -/
theorem buildAndWriteCommit_keeps (input : BuildCommitInput) (past : Past) :
    (buildAndWriteCommit cfg input).Keeps AnyAnswer req.Good
      (fun past' result => ∀ built, result = .ok built →
        past <:+ past' ∧ ∃ commit : Commit, commit.parents = input.parent.toList ∧
          ⟨.gix (.writeObject commit), .ok built.1⟩ ∈ past') past := by
  have herr : ∀ (past' : Past) (e : Error) (built : Oid × Oid), Except.error e = .ok built →
      past <:+ past' ∧ ∃ commit : Commit, commit.parents = input.parent.toList ∧
        ⟨.gix (.writeObject commit), .ok built.1⟩ ∈ past' := fun _ _ _ h => nomatch h
  unfold buildAndWriteCommit
  refine keeps_quietly herr req.good_of_quiet (askGix_quiet _ _ _) fun past₁ _ h₁ => ?_
  refine keeps_quietly herr req.good_of_quiet (baseTree_quiet _) fun past₂ base h₂ => ?_
  refine keeps_quietly herr req.good_of_quiet (askGix_quiet _ _ _) fun past₃ _ h₃ => ?_
  refine keeps_quietly herr req.good_of_quiet (editChanges_quiet _ _) fun past₄ editor h₄ => ?_
  refine keeps_quietly herr req.good_of_quiet (askGix_quiet _ _ _) fun past₅ tree h₅ => ?_
  refine ⟨trivial, fun now _ => ?_⟩
  refine keeps_askGix herr (by trivial) fun output commit houtput => ?_
  rintro built hbuilt
  cases hbuilt
  have houtput' : output = .ok commit := houtput
  refine ⟨?_, commitObject input tree now, rfl, ?_⟩
  · exact ((((h₁.trans h₂).trans h₃).trans h₄).trans h₅).trans
      ((List.suffix_cons _ _).trans (List.suffix_cons _ _))
  · rw [houtput']
    exact List.mem_cons_self

theorem createCommit_keeps (admitted : Result Unit) (body : CommitBody) :
    (createCommit cfg admitted body).Keeps AnyAnswer (Request.commit admitted body).Good
      (fun past result => Accounted past (.commit admitted body) (.commit result)) [] := by
  have herr : ∀ (past : Past) (e : Error),
      Accounted past (.commit admitted body) (.commit (.error e)) := fun _ _ => trivial
  unfold createCommit
  refine keeps_lift herr fun _ _ => ?_
  split_ifs with hname
  · trivial
  refine keeps_lift herr fun _ _ => ?_
  -- the parent is there, if the caller gave one
  rw [Program.keeps_andThen]
  have hparent : (checkParent body.parent).Keeps AnyAnswer (Request.commit admitted body).Good
      (fun past result => ∀ u, result = .ok u →
        ∀ p ∈ body.parent, ⟨.objectExists p, .ok true⟩ ∈ past) [] := by
    cases body.parent with
    | none => exact fun _ _ p hp => nomatch hp
    | some oid =>
        refine ⟨trivial, fun present _ => ?_⟩
        cases present with
        | error e => exact fun _ h => nomatch h
        | ok there =>
            cases there with
            | false => exact fun _ h => nomatch h
            | true =>
                rintro _ _ p hp
                obtain rfl := Option.some.inj hp
                exact List.mem_cons_self
  refine hparent.mono fun past result hthere => ?_
  cases result with
  | error e => exact herr _ _
  | ok u =>
      refine keeps_lift herr fun changes _ => ?_
      rw [Program.keeps_andThen]
      refine (buildAndWriteCommit_keeps (commitInput body changes) past).mono
        fun past' result hbuilt => ?_
      cases result with
      | error e => exact herr _ _
      | ok built =>
          obtain ⟨hpast, commit, hparents, hwrite⟩ := hbuilt built rfl
          refine keeps_lift herr fun refName hrefName => ?_
          have href : branchRef body.branch = refName.text := RefName.tryFrom_eq_ok.mp hrefName
          refine keeps_casBranch herr ⟨congrArg some href, rfl, ?_, ?_⟩ ?_
          · exact fun p hp => Or.inl (hpast.subset (hthere u rfl p hp))
          · exact .written commit hparents hwrite
          · exact ⟨refName, body.parent, built.1, href.symm, List.mem_cons_self⟩

/-! ### Merges -/

theorem readShowRef_eq_some {output : GitOutput} {sha : String}
    (h : readShowRef output = .ok (some sha)) :
    ∃ out err, output = .ok (0, out, err) ∧ utf8Trimmed out = .ok sha := by
  cases output with
  | error e => cases h
  | ok output =>
      obtain ⟨rc, out, err⟩ := output
      unfold readShowRef at h
      dsimp only at h
      split_ifs at h with hrc hone
      · subst hrc
        refine ⟨out, err, rfl, ?_⟩
        cases hout : utf8Trimmed out with
        | error e =>
            rw [hout] at h
            cases h
        | ok text =>
            rw [hout] at h
            cases h
            rfl
      · cases h

theorem readIsAncestor_eq_true {output : GitOutput} (h : readIsAncestor output = .ok true) :
    ∃ out err, output = .ok (0, out, err) := by
  cases output with
  | error e => cases h
  | ok output =>
      obtain ⟨rc, out, err⟩ := output
      unfold readIsAncestor at h
      dsimp only at h
      split_ifs at h with hrc hone
      · subst hrc
        exact ⟨out, err, rfl⟩
      · cases h

theorem readCommitTree_eq_ok {output : GitOutput} {sha : String}
    (h : readCommitTree output = .ok sha) :
    ∃ out err, output = .ok (0, out, err) ∧ utf8Trimmed out = .ok sha := by
  cases output with
  | error e => cases h
  | ok output =>
      obtain ⟨rc, out, err⟩ := output
      unfold readCommitTree at h
      dsimp only at h
      split_ifs at h with hrc
      exact ⟨out, err, by rw [not_not.mp hrc], h⟩

theorem WasRead.mono {past past' : Past} {sha : String} (hpast : past ⊆ past')
    (h : WasRead past sha) : WasRead past' sha := by
  obtain ⟨ref, env, out, err, hmem, hout⟩ := h
  exact ⟨ref, env, out, err, hpast hmem, hout⟩

theorem wasRead_of_lastRead {past : Past} {ref sha : String}
    (h : lastRead past ref = some (some sha)) : WasRead past sha := by
  induction past with
  | nil => cases h
  | cons event past ih =>
      have hlater : lastRead past ref = some (some sha) → WasRead (event :: past) sha :=
        fun hlast => (ih hlast).mono (List.subset_cons_self _ _)
      unfold lastRead at h
      split at h
      · rename_i hnil
        cases hnil
      · rename_i name env answer past' hcons
        obtain ⟨rfl, rfl⟩ := List.cons.inj hcons
        split_ifs at h with hname
        · cases hread : readShowRef answer with
          | error e =>
              rw [hread] at h
              cases h
          | ok read =>
              rw [hread] at h
              obtain rfl : read = some sha := Option.some.inj h
              obtain ⟨out, err, rfl, hout⟩ := readShowRef_eq_some hread
              exact ⟨name, env, out, err, List.mem_cons_self, hout⟩
        · exact hlater h
      · rename_i hcons
        obtain ⟨-, rfl⟩ := List.cons.inj hcons
        exact hlater h

variable {admitted : Result Unit} {body : MergeBody} {past : Past} {sourceSha : String}

theorem accounted_error (past : Past) (e : Error) :
    Accounted past (.merge admitted body) (.merge (.error e)) := trivial

theorem reportContained_keeps {targetSha : String} (hfound : FoundContained past) :
    (reportContained body sourceSha targetSha).Keeps AnyAnswer (Request.merge admitted body).Good
      (fun past result => Accounted past (.merge admitted body) (.merge result)) past := by
  refine keeps_askGit accounted_error (by trivial) fun output tree _ => Or.inr ?_
  obtain ⟨source, target, env, out, err, hmem⟩ := hfound
  exact ⟨source, target, env, out, err, List.mem_cons_of_mem _ hmem⟩

theorem fastForward_keeps {targetSha : Option String}
    (hread : lastRead past (branchRef body.targetBranch) = some targetSha)
    (hsource : WasRead past sourceSha)
    (hancestor : ∀ t ∈ targetSha, ∃ env out err,
      ⟨.git (.isAncestor t sourceSha) env, .ok (0, out, err)⟩ ∈ past) :
    (fastForward cfg body sourceSha targetSha).Keeps AnyAnswer (Request.merge admitted body).Good
      (fun past result => Accounted past (.merge admitted body) (.merge result)) past := by
  unfold fastForward
  refine keeps_lift accounted_error fun refName hrefName => ?_
  have href : branchRef body.targetBranch = refName.text := RefName.tryFrom_eq_ok.mp hrefName
  refine keeps_lift accounted_error fun source hsourceTyped => ?_
  obtain rfl : sourceSha = source.text := Oid.tryFrom_eq_ok.mp hsourceTyped
  refine keeps_lift accounted_error fun target htargetTyped => ?_
  have htarget : targetSha = target.map Oid.text := by
    cases targetSha with
    | none =>
        cases htargetTyped
        rfl
    | some t =>
        dsimp only at htargetTyped
        cases htyped : Oid.tryFrom cfg.printable t with
        | error e =>
            rw [htyped] at htargetTyped
            cases htargetTyped
        | ok oid =>
            rw [htyped] at htargetTyped
            cases htargetTyped
            exact congrArg some (Oid.tryFrom_eq_ok.mp htyped)
  have hmem : ∀ t ∈ target, t.text ∈ targetSha := by
    intro t ht
    rw [htarget]
    exact Option.mem_map_of_mem Oid.text ht
  refine keeps_casBranch accounted_error ⟨congrArg some href, ?_, ?_, ?_⟩ ?_
  · show lastRead past refName.text = _
    rw [← href, hread, htarget]
  · intro t ht
    refine Or.inr (wasRead_of_lastRead (hread.trans ?_))
    exact congrArg some (hmem t ht)
  · exact .forward hsource fun t ht => hancestor t.text (hmem t ht)
  · refine keeps_askGit accounted_error (by trivial) fun output tree _ => Or.inl ?_
    exact ⟨refName, target, source, href.symm, List.mem_cons_of_mem _ List.mem_cons_self⟩

theorem threeWay_keeps {targetSha : Option String}
    (hread : lastRead past (branchRef body.targetBranch) = some targetSha) :
    (threeWay cfg body sourceSha targetSha).Keeps AnyAnswer (Request.merge admitted body).Good
      (fun past result => Accounted past (.merge admitted body) (.merge result)) past := by
  cases targetSha with
  | none => trivial
  | some targetSha =>
      unfold threeWay
      refine keeps_askGit accounted_error (by trivial) fun output outcome _ => ?_
      cases outcome with
      | conflict paths => trivial
      | clean tree =>
          refine ⟨trivial, fun output _ => ?_⟩
          refine keeps_lift accounted_error fun commitSha hcommitSha => ?_
          obtain ⟨out, err, rfl, hout⟩ := readCommitTree_eq_ok hcommitSha
          refine keeps_lift accounted_error fun refName hrefName => ?_
          have href : branchRef body.targetBranch = refName.text := RefName.tryFrom_eq_ok.mp hrefName
          refine keeps_lift accounted_error fun target htarget => ?_
          obtain rfl : targetSha = target.text := Oid.tryFrom_eq_ok.mp htarget
          refine keeps_lift accounted_error fun commit hcommit => ?_
          obtain rfl : commitSha = commit.text := Oid.tryFrom_eq_ok.mp hcommit
          refine keeps_casBranch accounted_error ⟨congrArg some href, ?_, ?_, ?_⟩ ?_
          · show lastRead past refName.text = _
            rw [← href, hread]
            rfl
          · intro t ht
            obtain rfl := Option.some.inj ht
            have hwas := wasRead_of_lastRead hread
            exact Or.inr (hwas.mono ((List.suffix_cons _ _).trans (List.suffix_cons _ _)).subset)
          · exact .joined target rfl tree sourceSha _ _ out err List.mem_cons_self hout
          · exact Or.inl ⟨refName, some target, commit, href.symm, List.mem_cons_self⟩

theorem advance_keeps {targetSha : Option String}
    (hread : lastRead past (branchRef body.targetBranch) = some targetSha)
    (hsource : WasRead past sourceSha) :
    (advance cfg body sourceSha targetSha).Keeps AnyAnswer (Request.merge admitted body).Good
      (fun past result => Accounted past (.merge admitted body) (.merge result)) past := by
  unfold advance
  cases targetSha with
  | none =>
      refine keeps_lift accounted_error fun ffAvailable hff => ?_
      split_ifs
      · exact fastForward_keeps hread hsource fun t ht => nomatch ht
      · trivial
      · exact threeWay_keeps hread
  | some t =>
      refine keeps_askGit accounted_error (by trivial) fun output ffAvailable hff => ?_
      split_ifs with hforward
      · refine fastForward_keeps hread (hsource.mono (List.subset_cons_self _ _)) fun t' ht' => ?_
        obtain rfl := Option.some.inj ht'
        rw [hforward.1] at hff
        obtain ⟨out, err, rfl⟩ := readIsAncestor_eq_true hff
        exact ⟨[], out, err, List.mem_cons_self⟩
      · trivial
      · exact threeWay_keeps hread

theorem mergeBranches_keeps (admitted : Result Unit) (body : MergeBody) :
    (mergeBranches cfg body admitted).Keeps AnyAnswer (Request.merge admitted body).Good
      (fun past result => Accounted past (.merge admitted body) (.merge result)) [] := by
  unfold mergeBranches
  refine keeps_lift accounted_error fun _ _ => ?_
  split_ifs
  · trivial
  · trivial
  · trivial
  refine keeps_askGit accounted_error (by trivial) fun output source hsource => ?_
  cases source with
  | none => trivial
  | some sourceSha =>
      obtain ⟨out, err, rfl, hout⟩ := readShowRef_eq_some hsource
      refine keeps_lift accounted_error fun _ _ => ?_
      refine keeps_askGit accounted_error (by trivial) fun output target htarget => ?_
      refine keeps_lift accounted_error fun _ _ => ?_
      have hread : ∀ past : Past, lastRead (⟨.git (.showRef (branchRef body.targetBranch)) [],
          output⟩ :: past) (branchRef body.targetBranch) = some target := by
        intro past
        rw [lastRead, if_pos rfl, htarget]
        rfl
      have hwas : ∀ past : Past, WasRead (past ++ [⟨.git (.showRef (branchRef body.sourceBranch)) [],
          .ok (0, out, err)⟩]) sourceSha :=
        fun past => ⟨_, _, out, err, List.mem_append_right past List.mem_cons_self, hout⟩
      cases target with
      | none => exact advance_keeps (hread _) (hwas [_])
      | some t =>
          refine keeps_askGit accounted_error (by trivial) fun output' contained hcontained => ?_
          cases contained with
          | true =>
              obtain ⟨out', err', rfl⟩ := readIsAncestor_eq_true hcontained
              exact reportContained_keeps ⟨_, _, _, out', err', List.mem_cons_self⟩
          | false =>
              rw [if_neg Bool.false_ne_true]
              refine advance_keeps ?_ (hwas [_, _])
              exact hread [_]

/-! ### Pushes -/

theorem pushUpdates_keeps {r : ReceivePackRequest} {updates : List RefUpdate}
    (h : ∀ u ∈ updates, u ∈ r.updates) (past : Past) :
    (pushUpdates updates).Keeps AnyAnswer (Request.push r).Good (fun _ _ => True) past := by
  induction updates generalizing past with
  | nil => trivial
  | cons u us ih =>
      refine ⟨h u List.mem_cons_self, fun outcome _ => Program.keeps_bind.mpr ?_⟩
      exact ih (fun v hv => h v (List.mem_cons_of_mem u hv)) _

theorem push_keeps (r : ReceivePackRequest) :
    (push r).Keeps AnyAnswer (Request.push r).Good (fun _ _ => True) [] := by
  refine ⟨trivial, fun outcome _ => ?_⟩
  cases outcome with
  | error e => trivial
  | ok unpack =>
      refine Program.keeps_bind.mpr ?_
      cases unpack with
      | error msg => trivial
      | ok u =>
          refine ⟨trivial, fun connected _ => ?_⟩
          cases connected with
          | error msg => trivial
          | ok v => exact pushUpdates_keeps (fun u hu => hu) _

/-- **What every call keeps to**, whatever it is answered. -/
theorem Request.program_keeps (cfg : Config) (req : Request) :
    (req.program cfg).Keeps AnyAnswer req.Good (fun past reply => Accounted past req reply) [] := by
  cases req with
  | commit admitted body => exact Program.keeps_bind.mpr (createCommit_keeps admitted body)
  | merge admitted body => exact Program.keeps_bind.mpr (mergeBranches_keeps admitted body)
  | push r => exact Program.keeps_bind.mpr (push_keeps r)

end Keeping

/-! ### One compare-and-swap -/

section Swaps

variable {σ : Type} {site : Site σ} {view : RepoView σ} {plain : σ → Prop} {s : σ} {past : Past}

/-- What all the answers of a call still say. -/
def Facts (view : RepoView σ) (s : σ) (past : Past) : Prop :=
  ∀ event ∈ past, Fact view s event.1 event.2

theorem WasRead.nonzero {oid : Oid} (hfacts : Facts view s past) (h : WasRead past oid.text) :
    oid ≠ zeroOid := by
  obtain ⟨ref, env, out, err, hmem, hout⟩ := h
  rintro rfl
  have hfact : Fact view s (.git (.showRef ref) env) (.ok (0, out, err)) := hfacts _ hmem
  exact hfact out err rfl hout

theorem Seen.nonzero {oid : Oid} (hfacts : Facts view s past) (h : Seen past oid) :
    oid ≠ zeroOid := by
  rcases h with hmem | hread
  · have hfact : Fact view s (.objectExists oid) (.ok true) := hfacts _ hmem
    exact hfact rfl
  · exact hread.nonzero hfacts

theorem nonzero_of_parents (hgit : SoundGit site view plain) (hs : plain s) {oid : Oid}
    {ps : List Oid} (h : view.parents s oid = some ps) : oid ≠ zeroOid := by
  rintro rfl
  rw [hgit.parents_zero s hs] at h
  cases h

/-- The new tip is an object, and the expected one is its ancestor. -/
theorem Derived.descends (hgit : SoundGit site view plain) (hs : plain s)
    (hfacts : Facts view s past) {expected : Option Oid} {new : Oid}
    (h : Derived past expected new) :
    new ≠ zeroOid ∧ ∀ tip ∈ expected, view.Ancestor s tip new := by
  cases h with
  | written commit hparents hwrite =>
      have hfact : Fact view s (.gix (.writeObject commit)) (.ok new) := hfacts _ hwrite
      have hnew : view.parents s new = some commit.parents := hfact new rfl
      refine ⟨nonzero_of_parents hgit hs hnew, fun tip htip => .of_parent hnew ?_⟩
      rw [hparents]
      exact Option.mem_toList.mpr htip
  | forward hread hancestor =>
      refine ⟨hread.nonzero hfacts, fun tip htip => ?_⟩
      obtain ⟨env, out, err, hmem⟩ := hancestor tip htip
      have hfact : Fact view s (.git (.isAncestor tip.text new.text) env) (.ok (0, out, err)) :=
        hfacts _ hmem
      exact hfact out err rfl tip new rfl rfl
  | joined target htarget tree source message env out err hwrite hnew =>
      have hfact : Fact view s (.git (.commitTree tree target.text source message) env)
          (.ok (0, out, err)) := hfacts _ hwrite
      obtain ⟨ps, hps, hmem⟩ := hfact out err rfl target new rfl hnew
      refine ⟨nonzero_of_parents hgit hs hps, fun tip htip => ?_⟩
      rw [htarget] at htip
      obtain rfl := Option.some.inj htip
      exact .of_parent hps hmem

theorem fsOutcome_updated {printable : Char → Bool} {runGit : GitRunner σ} {repoId : RepoId}
    {refName : RefName} {result : Result (Int × List UInt8 × List UInt8) × σ}
    (h : (fsOutcome printable runGit repoId refName result).1 = .ok .updated) :
    ∃ out err, result.1 = .ok (0, out, err) := by
  obtain ⟨outcome, s⟩ := result
  cases outcome with
  | error e => cases h
  | ok output =>
      obtain ⟨rc, out, err⟩ := output
      unfold fsOutcome at h
      dsimp only at h
      split_ifs at h with hrc
      · exact ⟨out, err, by rw [hrc]⟩
      · cases hread : fsRead printable runGit s repoId refName with
        | mk current s' =>
            rw [hread] at h
            cases current <;> cases h

/-- An absent ref is given to git as the zero id. -/
theorem casUpdate_eq (name : RefName) (expected : Option Oid) (new : Oid) :
    site.refs.casUpdate s site.repoId name expected new =
      fsOutcome site.printable (site.runGit []) site.repoId name
        (site.runGit [] s site.repoId ["update-ref", "--end-of-options", name.text, new.text,
          (expected.getD zeroOid).text]) := by
  cases expected <;> rfl

theorem expectedValue_getD {expected : Option Oid} (h : ∀ t ∈ expected, t ≠ zeroOid) :
    expectedValue (expected.getD zeroOid) = expected := by
  cases expected with
  | none => exact if_pos rfl
  | some t => exact if_neg (h t rfl)

/-- **One `cas_update`** between two objects. -/
theorem casUpdate_lands (hgit : SoundGit site view plain) (hs : plain s) {name : RefName}
    (hunder : startsWith name.text "refs/" = true) (expected : Option Oid) (new : Oid)
    (hexpected : ∀ t ∈ expected, t ≠ zeroOid) (hnew : new ≠ zeroOid) :
    let result := site.refs.casUpdate s site.repoId name expected new
    ChangesOnly view.ref site.repoId name.text s result.2 ∧
      (result.1 = .ok .updated ∨
          view.ref result.2 site.repoId name.text ≠ view.ref s site.repoId name.text →
        view.ref s site.repoId name.text = expected ∧
          view.ref result.2 site.repoId name.text = some new) := by
  have hvalue := expectedValue_getD hexpected
  have hnewValue : expectedValue new = some new := if_neg hnew
  rw [casUpdate_eq]
  dsimp only
  rw [fsOutcome_state hgit.refs]
  obtain ⟨-, hframe, hmatch⟩ :=
    hgit.refs.update s site.repoId name new (expected.getD zeroOid) hs hunder hnew
  refine ⟨hframe, ?_⟩
  rintro (hupdated | hmoved)
  · obtain ⟨out, err, hrun⟩ := fsOutcome_updated hupdated
    have hset := hgit.updateRef s name new _ out err hs hunder hrun
    rw [hvalue, hnewValue] at hset
    exact hset
  · have hset := hgit.updateRef_moved s name new _ hs hunder hmoved
    rw [hnewValue] at hset
    exact ⟨(hmatch hmoved).trans hvalue, hset⟩

/-- **One update of a push** that is reported as done. -/
theorem refUpdate_lands (hgit : SoundGit site view plain) (hs : plain s) {u : RefUpdate}
    (hunder : startsWith u.name "refs/" = true)
    (hdone : (site.handle (.refUpdate u) s).1 = .ok ())
    (hsafe : ¬(ZeroToZero u ∧ view.ref s site.repoId u.name ≠ none)) :
    (view.ref s site.repoId u.name).map Oid.text = if u.isCreate then none else some u.old := by
  obtain ⟨name, old, new, hname, hold, hnew, happlied⟩ :=
    (applyRefUpdate_ok_iff site.repoId s u).mp hdone
  have hvalid : validRefName u.name = true := by
    rw [hname]
    exact name.valid
  rw [hname] at hunder
  by_cases hdelete : u.isDelete = true
  · rw [if_pos hdelete] at happlied
    by_cases hcreate : u.isCreate = true
    · -- from nothing to nothing, and the ref is absent
      have habsent : view.ref s site.repoId u.name = none := by
        by_contra hpresent
        exact hsafe ⟨⟨hcreate, hdelete, hvalid⟩, hpresent⟩
      rw [habsent, if_pos hcreate]
      rfl
    · have hnonzero : old ≠ zeroOid := fun h => hcreate ((isCreate_iff hold).mpr h)
      obtain ⟨out, err, hrun⟩ := fsOutcome_updated happlied
      rw [hname, hgit.deleteRef s name old out err hs hunder hnonzero hrun, if_neg hcreate, hold]
      rfl
  · rw [if_neg hdelete] at happlied
    have hnonzero : new ≠ zeroOid := fun h => hdelete ((isDelete_iff hnew).mpr h)
    by_cases hcreate : u.isCreate = true
    · rw [if_pos hcreate] at happlied
      have hlands := (casUpdate_lands hgit hs hunder none new (fun t ht => nomatch ht)
        hnonzero).2 (Or.inl happlied)
      rw [hname, hlands.1, if_pos hcreate]
      rfl
    · have hold' : old ≠ zeroOid := fun h => hcreate ((isCreate_iff hold).mpr h)
      rw [if_neg hcreate] at happlied
      have hlands := (casUpdate_lands hgit hs hunder (some old) new
        (fun t ht => Option.some.inj ht ▸ hold') hnonzero).2 (Or.inl happlied)
      rw [hname, hlands.1, if_neg hcreate, hold]
      rfl

end Swaps

end Writers
end Artifacts
