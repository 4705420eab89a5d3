import Artifacts.Rust.Lines
import Artifacts.Writers.SideBySide

/-!
# The decision table of a merge

The comments of the handler promise an outcome for every pair of tips and every strategy.
The handler keeps the promise where both branches are there.  A branch that is missing makes
`show-ref` exit with 128, and only exit code 1 is taken for a missing ref.

`FollowsTable` is the promise, `Served` the condition, both in terms of the repository before the
merge.  `DocumentedGit` has the documented exit codes and outputs of the commands, with 128 of
`show-ref` among them.  Another writer at work meanwhile is the subject of `SideBySide`.
-/

namespace Artifacts
namespace Writers

open Foundation GitWire Refs Rust SmartHttp

section Table

variable {σ : Type} (site : Site σ) (view : MergeView σ)

def tipOf (s : σ) (branch : String) : Option Oid := view.ref s site.repoId (branchRef branch)

/-- Every ref is where it was. -/
def RefsKept (s s' : σ) : Prop :=
  ∀ name, view.ref s' site.repoId name = view.ref s site.repoId name

/-- One branch is at a new tip, and every other ref is where it was. -/
def BranchMoved (branch : String) (new : Oid) (s s' : σ) : Prop :=
  tipOf site view s' branch = some new ∧
    ∀ name, name ≠ branchRef branch → view.ref s' site.repoId name = view.ref s site.repoId name

/-! ### The table -/

variable (admitted : Result Unit) (body : MergeBody) (s s' : σ) (result : Result MergeResult)

/-- The request gets past the checks of the handler. -/
def Proper : Prop :=
  admitted = .ok () ∧ validBranchName body.sourceBranch = true ∧
    validBranchName body.targetBranch = true ∧ body.sourceBranch ≠ body.targetBranch

/-- The target stays. -/
def NoOp (t : Oid) : Prop :=
  (∃ r, result = .ok r ∧ r.commit = t.text ∧ r.fastForward = false) ∧ RefsKept site view s s'

/-- The target moves to the source's tip. -/
def Forwarded (x : Oid) : Prop :=
  (∃ r, result = .ok r ∧ r.commit = x.text ∧ r.fastForward = true) ∧
    BranchMoved site view body.targetBranch x s s'

/-- The target moves to a new commit whose parents are both tips. -/
def Joined (t x : Oid) : Prop :=
  ∃ c, (∃ r, result = .ok r ∧ r.commit = c.text ∧ r.fastForward = false) ∧
    view.parents s' c = some [t, x] ∧ BranchMoved site view body.targetBranch c s s'

/-- What is promised when the source is at `x` and the target at `t`. -/
structure FollowsRows (x t : Oid) : Prop where
  contained : view.Ancestor s x t → NoOp site view s s' result t
  forward : ¬ view.Ancestor s x t → view.Ancestor s t x → body.strategy ≠ .merge →
    Forwarded site view body s s' result x
  joined : ¬ view.Ancestor s x t → view.Ancestor s t x → body.strategy = .merge →
    Joined site view body s s' result t x
  refused : ¬ view.Ancestor s x t → ¬ view.Ancestor s t x → body.strategy = .ffOnly →
    ∃ e, result = .error e
  diverged : ¬ view.Ancestor s x t → ¬ view.Ancestor s t x → body.strategy ≠ .ffOnly →
    Joined site view body s s' result t x ∨
      ∃ paths, result = .error (.mergeConflict body.targetBranch body.sourceBranch paths)

/-- The decision table: what comes of a proper request, by the two tips and the strategy; and any
error leaves the refs as they were. -/
def FollowsTable : Prop :=
  (Proper admitted body →
    match tipOf site view s body.sourceBranch, tipOf site view s body.targetBranch with
    | none, _ => ∃ msg, result = .error (.badRequest msg)
    | some x, none => body.strategy ≠ .merge → Forwarded site view body s s' result x
    | some x, some t => FollowsRows site view body s s' result x t) ∧
  ((∃ e, result = .error e) → RefsKept site view s s')

/-! ### Where it is followed -/

/-- The report of a conflict has a path, and all its paths are UTF-8. -/
def Readable (details : List UInt8) : Prop :=
  (∃ record ∈ details.splitOn 0, (9 : UInt8) ∈ record) ∧
    ∀ record ∈ details.splitOn 0, (9 : UInt8) ∈ record →
      (fromUtf8 ((record.dropWhile (· != 9)).drop 1)).isSome = true

/-- Git and the ref store take what a three-way merge of `x` into `t` gives them. -/
def Mergeable (x t : Oid) : Prop :=
  match view.merge s t x with
  | .clean _ =>
      view.accepts s (authorOr body.author) (mergeMessage body) = true ∧
        validRefName (branchRef body.targetBranch) = true
  | .conflict _ details => Readable details
  | .refused => False

/-- What it takes to serve a request with both tips: a valid name where the branch is moved forward,
and a merge without conflict where one is made. -/
structure Servable (x t : Oid) : Prop where
  forward : ¬ view.Ancestor s x t → view.Ancestor s t x → body.strategy ≠ .merge →
    validRefName (branchRef body.targetBranch) = true
  merged : ¬ view.Ancestor s x t → (view.Ancestor s t x → body.strategy = .merge) →
    body.strategy ≠ .ffOnly → Mergeable view body s x t

/-- The source is there; so is the target, unless the strategy is `merge`; and git and the ref store
take what they are given. It speaks of the repository before the merge, and of the request. -/
def Served : Prop :=
  match tipOf site view s body.sourceBranch, tipOf site view s body.targetBranch with
  | none, _ => False
  | some _, none => body.strategy = .merge
  | some x, some t => Servable view body s x t

end Table

/-! ### Commands that only read -/

section Reads

variable {σ : Type} {site : Site σ} {view : MergeView σ} {plain : σ → Prop} {s s' s'' : σ}

/-- Nothing that merges depend on has changed. -/
structure Unchanged (site : Site σ) (view : MergeView σ) (plain : σ → Prop) (s s' : σ) : Prop where
  plain : plain s'
  refs : RefsKept site view s s'
  same : view.Same s s'

theorem Unchanged.trans (h : Unchanged site view plain s s') (h' : Unchanged site view plain s' s'') :
    Unchanged site view plain s s'' where
  plain := h'.plain
  refs := fun name => (h'.refs name).trans (h.refs name)
  same :=
    { parents := fun oid => (h'.same.parents oid).trans (h.same.parents oid)
      merge := fun t x => (h'.same.merge t x).trans (h.same.merge t x)
      accepts := fun a m => (h'.same.accepts a m).trans (h.same.accepts a m) }

theorem Unchanged.refl (hs : plain s) : Unchanged site view plain s s :=
  ⟨hs, fun _ => rfl, ⟨fun _ => rfl, fun _ _ => rfl, fun _ _ => rfl⟩⟩

theorem Unchanged.ancestor_iff (h : Unchanged site view plain s s') {x y : Oid} :
    view.Ancestor s' x y ↔ view.Ancestor s x y := by
  have hparents : view.parents s' = view.parents s := funext h.same.parents
  unfold RepoView.Ancestor
  rw [hparents]

theorem unchanged_read (hgit : DocumentedGit site view plain) (hs : plain s) (command : GitCommand)
    (hread : ∀ tree target source message, command ≠ .commitTree tree target source message) :
    Unchanged site view plain s (site.handle (.git command []) s).2 where
  plain := (hgit.keeps _ s hs).1
  refs := hgit.quiet (.git command []) s trivial hs
  same := hgit.reads s command hs hread

theorem run_askGit {α : Type} (command : GitCommand) (read : GitOutput → Result α) :
    (askGit command read).run site.handle s =
      (read (site.handle (.git command []) s).1, (site.handle (.git command []) s).2) := rfl

theorem readShowRef_line (oid : Oid) (err : List UInt8) :
    readShowRef (.ok (0, asBytes (oid.text ++ "\n"), err)) = .ok (some oid.text) := by
  unfold readShowRef
  dsimp only
  rw [if_pos rfl, utf8Trimmed_line]

theorem run_resolveRef_present (hgit : DocumentedGit site view plain) (hs : plain s)
    {name : String} {oid : Oid} (href : view.ref s site.repoId name = some oid) :
    ∃ s', (resolveRef name).run site.handle s = (.ok (some oid.text), s') ∧
      Unchanged site view plain s s' := by
  obtain ⟨err, hshow⟩ := hgit.showRef_present s name oid hs href
  refine ⟨_, ?_, unchanged_read hgit hs (.showRef name) nofun⟩
  rw [resolveRef, run_askGit, hshow, readShowRef_line]

/-- A missing ref is taken for a failure. -/
theorem run_resolveRef_missing (hgit : DocumentedGit site view plain) (hs : plain s)
    {name : String} (href : view.ref s site.repoId name = none) :
    ∃ msg s', (resolveRef name).run site.handle s = (.error (.other msg), s') ∧
      Unchanged site view plain s s' := by
  obtain ⟨out, err, hshow⟩ := hgit.showRef_missing s name hs href
  obtain ⟨msg, hmsg⟩ : ∃ msg, readShowRef (.ok (128, out, err)) = .error (.other msg) := ⟨_, rfl⟩
  refine ⟨msg, _, ?_, unchanged_read hgit hs (.showRef name) nofun⟩
  rw [resolveRef, run_askGit, hshow, hmsg]

theorem run_isAncestor (hgit : DocumentedGit site view plain) (hs : plain s) {x y : Oid}
    (hx : view.parents s x ≠ none) (hy : view.parents s y ≠ none) :
    ∃ b s', (isAncestor x.text y.text).run site.handle s = (.ok b, s') ∧
      Unchanged site view plain s s' ∧ (b = true ↔ view.Ancestor s x y) := by
  obtain ⟨rc, out, err, hanswer, hrc⟩ := hgit.isAncestor_iff s x y hs hx hy
  have hread := unchanged_read hgit hs (.isAncestor x.text y.text) nofun
  rcases hrc with ⟨rfl, hancestor⟩ | ⟨rfl, hnot⟩
  · refine ⟨true, _, ?_, hread, iff_of_true rfl hancestor⟩
    rw [isAncestor, run_askGit, hanswer]
    rfl
  · refine ⟨false, _, ?_, hread, iff_of_false Bool.false_ne_true hnot⟩
    rw [isAncestor, run_askGit, hanswer]
    rfl

theorem run_treeOf (hgit : DocumentedGit site view plain) (hs : plain s) {x : Oid}
    (hx : view.parents s x ≠ none) :
    ∃ tree s', (treeOf x.text).run site.handle s = (.ok tree, s') ∧
      Unchanged site view plain s s' := by
  obtain ⟨tree, err, hanswer⟩ := hgit.revParseTree s x hs hx
  refine ⟨tree.text, _, ?_, unchanged_read hgit hs (.revParseTree x.text) nofun⟩
  rw [treeOf, run_askGit, hanswer]
  exact congrArg (·, _) (utf8Trimmed_line tree)

/-! ### Reports of conflicts -/

/-- The scan of the records stops at a path that is not UTF-8, and nowhere else. -/
theorem conflictPaths_spec (records : List (List UInt8)) (paths : List String) :
    ((∀ record ∈ records, (9 : UInt8) ∈ record →
        (fromUtf8 ((record.dropWhile (· != 9)).drop 1)).isSome = true) →
      ∃ paths', conflictPaths records paths = .ok paths' ∧
        (paths' ≠ [] ↔ paths ≠ [] ∨ ∃ record ∈ records, (9 : UInt8) ∈ record)) ∧
    (¬ (∀ record ∈ records, (9 : UInt8) ∈ record →
        (fromUtf8 ((record.dropWhile (· != 9)).drop 1)).isSome = true) →
      ∃ msg, conflictPaths records paths = .error (.other msg)) := by
  induction records generalizing paths with
  | nil =>
      refine ⟨fun _ => ⟨paths, rfl, ?_⟩, fun h => absurd (fun _ hr => nomatch hr) h⟩
      simp
  | cons record records ih =>
      unfold conflictPaths
      simp only [List.forall_mem_cons]
      by_cases htab : (9 : UInt8) ∈ record
      · rw [if_pos htab]
        cases hpath : fromUtf8 ((record.dropWhile (· != 9)).drop 1) with
        | none => simp [htab]
        | some path =>
            have hnext := ih (if paths.contains path then paths else paths ++ [path])
            have hnonempty : (if paths.contains path then paths else paths ++ [path]) ≠ [] := by
              split_ifs with hmem
              · rintro rfl
                cases hmem
              · simp
            simp only [hnonempty, ne_eq, not_false_eq_true, true_or, iff_true] at hnext
            simpa [htab] using hnext
      · rw [if_neg htab]
        simpa [htab] using ih paths

theorem zero_not_mem_oid (o : Oid) : (0 : UInt8) ∉ asBytes o.text := by
  intro hzero
  have hchar : '\x00' ∈ o.text.toList := (mem_asBytes_ascii (by decide)).mp hzero
  exact o.not_mem_text (by decide) hchar

/-- The report up to its first NUL is the tree, and the rest are the records. -/
theorem cut_report (o : Oid) (details : List UInt8) :
    (asBytes o.text ++ 0 :: details).takeWhile (· != 0) = asBytes o.text ∧
      ((asBytes o.text ++ 0 :: details).dropWhile (· != 0)).drop 1 = details := by
  have hall : ∀ b ∈ asBytes o.text, (b != 0) = true := by
    intro b hb
    rw [bne_iff_ne]
    rintro rfl
    exact zero_not_mem_oid o hb
  constructor
  · rw [List.takeWhile_append_of_pos hall, List.takeWhile_cons_of_neg (by decide), List.append_nil]
  · rw [List.dropWhile_append_of_pos hall, List.dropWhile_cons_of_neg (by decide)]
    rfl

theorem readMergeTree_clean (tree : Oid) (err : List UInt8) :
    readMergeTree (.ok (0, asBytes tree.text ++ [0], err)) = .ok (.clean tree.text) := by
  have hnul : ¬ (0 : UInt8) ∉ asBytes tree.text ++ [0] := not_not.mpr (by simp)
  unfold readMergeTree
  dsimp only
  rw [if_neg (by decide), if_neg hnul, (cut_report tree []).1, utf8Trimmed_oid]
  rfl

theorem readMergeTree_conflict (tree : Oid) (details err : List UInt8) :
    (Readable details → ∃ paths,
      readMergeTree (.ok (1, asBytes tree.text ++ 0 :: details, err)) = .ok (.conflict paths)) ∧
    (¬ Readable details → ∃ msg,
      readMergeTree (.ok (1, asBytes tree.text ++ 0 :: details, err)) = .error (.other msg)) := by
  have hnul : ¬ (0 : UInt8) ∉ asBytes tree.text ++ 0 :: details := not_not.mpr (by simp)
  obtain ⟨hcut, hrest⟩ := cut_report tree details
  obtain ⟨hread, hunread⟩ := conflictPaths_spec (details.splitOn 0) []
  unfold readMergeTree
  dsimp only
  rw [if_neg (by decide), if_neg hnul, hcut, hrest, utf8Trimmed_oid]
  dsimp only
  rw [if_neg (by decide)]
  constructor
  · rintro ⟨hsome, hutf8⟩
    obtain ⟨paths, hpaths, hne⟩ := hread hutf8
    rw [hpaths]
    cases paths with
    | nil => exact absurd rfl (hne.mpr (Or.inr hsome))
    | cons path paths => exact ⟨_, rfl⟩
  · intro hnot
    by_cases hutf8 : ∀ record ∈ details.splitOn 0, (9 : UInt8) ∈ record →
        (fromUtf8 ((record.dropWhile (· != 9)).drop 1)).isSome = true
    · obtain ⟨paths, hpaths, hne⟩ := hread hutf8
      rw [hpaths]
      cases paths with
      | nil => exact ⟨_, rfl⟩
      | cons path paths =>
          -- a path that was found comes from a record with a TAB
          have hsome := (hne.mp (List.cons_ne_nil path paths)).resolve_left (fun h => h rfl)
          exact absurd ⟨hsome, hutf8⟩ hnot
    · obtain ⟨msg, hmsg⟩ := hunread hutf8
      rw [hmsg]
      exact ⟨msg, rfl⟩

theorem validateSha_oid (printable : Char → Bool) (o : Oid) : validateSha printable o.text = .ok () := by
  have hhex : o.text.toList.all isAsciiHexdigit = true :=
    List.all_eq_true.mpr fun c hc => o.isAsciiHexdigit_of_mem hc
  exact if_pos ⟨o.utf8ByteSize_text, hhex⟩

theorem run_runMergeTree (hgit : DocumentedGit site view plain) (hs : plain s) {t x : Oid}
    (ht : view.parents s t ≠ none) (hx : view.parents s x ≠ none) :
    ∃ result s', (runMergeTree t.text x.text).run site.handle s = (result, s') ∧
      Unchanged site view plain s s' ∧
      match view.merge s t x with
      | .clean tree => result = .ok (.clean tree.text) ∧ view.hasTree s' tree
      | .conflict _ details =>
          (Readable details → ∃ paths, result = .ok (.conflict paths)) ∧
            (¬ Readable details → ∃ msg, result = .error (.other msg))
      | .refused => ∃ msg, result = .error (.other msg) := by
  have hanswer := hgit.mergeTree s t x hs ht hx
  refine ⟨readMergeTree (site.handle (.git (.mergeTree t.text x.text) []) s).1, _, rfl,
    unchanged_read hgit hs (.mergeTree t.text x.text) nofun, ?_⟩
  dsimp only at hanswer ⊢
  cases hreport : view.merge s t x with
  | clean tree =>
      rw [hreport] at hanswer
      obtain ⟨⟨err, hout⟩, htree⟩ := hanswer
      exact ⟨by rw [hout, readMergeTree_clean], htree⟩
  | conflict tree details =>
      rw [hreport] at hanswer
      obtain ⟨err, hout⟩ := hanswer
      dsimp only
      rw [hout]
      exact readMergeTree_conflict tree details err
  | refused =>
      rw [hreport] at hanswer
      obtain ⟨rc, out, err, hzero, hone, hout⟩ := hanswer
      dsimp only
      rw [hout]
      unfold readMergeTree
      dsimp only
      rw [if_pos ⟨hzero, hone⟩]
      exact ⟨_, rfl⟩

theorem fsOutcome_of_done {printable : Char → Bool} {runGit : GitRunner σ} {repoId : RepoId}
    {refName : RefName} {ran : Result (Int × List UInt8 × List UInt8) × σ} {out err : List UInt8}
    (h : ran.1 = .ok (0, out, err)) :
    fsOutcome printable runGit repoId refName ran = (.ok .updated, ran.2) := by
  obtain ⟨answer, s⟩ := ran
  obtain rfl : answer = .ok (0, out, err) := h
  rfl

/-- Alone, a merge meets no other writer when it swaps. -/
theorem run_casBranch (hgit : DocumentedGit site view plain) (hs : plain s) {branch : String}
    {name : RefName} (hname : name.text = branchRef branch) {old new : Oid}
    (href : tipOf site view s branch = some old) (hnew : view.parents s new ≠ none) :
    ∃ s', (casBranch branch name (some old) new).run site.handle s = (.ok (), s') ∧
      plain s' ∧ view.Extends s s' ∧ BranchMoved site view branch new s s' := by
  have hunder : startsWith name.text "refs/" = true := by
    rw [hname]
    exact startsWith_branchRef branch
  have hpresent : view.ref s site.repoId name.text = some old := by
    rw [hname]
    exact href
  have hold : old ≠ zeroOid := by
    obtain ⟨ps, hps⟩ := Option.ne_none_iff_exists'.mp (hgit.tip s branch old hs href)
    exact nonzero_of_parents hgit.toSoundGit hs hps
  have hnew' : new ≠ zeroOid := by
    obtain ⟨ps, hps⟩ := Option.ne_none_iff_exists'.mp hnew
    exact nonzero_of_parents hgit.toSoundGit hs hps
  obtain ⟨out, err, hdone⟩ := hgit.updateRef_succeeds s name branch new old hs hname hpresent hnew
  have hupdated : (site.handle (.casUpdate name (some old) new) s).1 = .ok .updated := by
    show (site.refs.casUpdate s site.repoId name (some old) new).1 = _
    rw [casUpdate_eq]
    exact congrArg Prod.fst (fsOutcome_of_done hdone)
  obtain ⟨hframe, hlands⟩ := casUpdate_lands hgit.toSoundGit hs hunder (some old) new
    (fun t ht => Option.some.inj ht ▸ hold) hnew'
  obtain ⟨hplain, hextends⟩ := hgit.keeps (.casUpdate name (some old) new) s hs
  refine ⟨_, ?_, hplain, hextends, ?_, ?_⟩
  · rw [casBranch, Program.run_ask, hupdated]
    rfl
  · have hafter := (hlands (Or.inl hupdated)).2
    rw [hname] at hafter
    exact hafter
  · intro other hother
    exact hframe site.repoId other fun h => hother (h.2.trans hname)

end Reads

/-! ### The handler -/

section Handler

variable {σ : Type} {site : Site σ} {view : MergeView σ} {plain : σ → Prop} {cfg : Config}
  {body : MergeBody} {s : σ} {x t : Oid}

/-- An error that is not the report of a conflict. -/
def Fails (result : Result MergeResult) : Prop :=
  ∃ e, result = .error e ∧ ∀ target source paths, e ≠ .mergeConflict target source paths

theorem fails_other {msg : String} : Fails (.error (.other msg)) := ⟨_, rfl, nofun⟩

theorem fails_badRequest {msg : String} : Fails (.error (.badRequest msg)) := ⟨_, rfl, nofun⟩

theorem BranchMoved.kept {branch : String} {new : Oid} {s s' s'' : σ}
    (h : BranchMoved site view branch new s s') (hkept : RefsKept site view s' s'') :
    BranchMoved site view branch new s s'' :=
  ⟨(hkept _).trans h.1, fun name hname => (hkept name).trans (h.2 name hname)⟩

theorem BranchMoved.after {branch : String} {new : Oid} {s s' s'' : σ}
    (h : BranchMoved site view branch new s' s'') (hkept : RefsKept site view s s') :
    BranchMoved site view branch new s s'' :=
  ⟨h.1, fun name hname => (h.2 name hname).trans (hkept name)⟩

theorem refName_of_valid {printable : Char → Bool} {branch : String}
    (h : validRefName (branchRef branch) = true) :
    RefName.tryFrom printable (branchRef branch) = .ok ⟨branchRef branch, h⟩ := dif_pos h

theorem refName_of_invalid {printable : Char → Bool} {branch : String}
    (h : ¬ validRefName (branchRef branch) = true) :
    ∃ msg, RefName.tryFrom printable (branchRef branch) = .error (.badRequest msg) :=
  ⟨_, dif_neg h⟩

/-- Step 3. -/
theorem reportContained_ends (hgit : DocumentedGit site view plain) (hs : plain s)
    (ht : view.parents s t ≠ none) :
    (reportContained body x.text t.text).Ends site.handle s fun result s' =>
      NoOp site view s s' result t := by
  obtain ⟨tree, s', hrun, hsame⟩ := run_treeOf hgit hs ht
  refine Program.ends_andThen_of_ok hrun ?_
  exact ⟨⟨_, rfl, rfl, rfl⟩, hsame.refs⟩

/-- Step 4. -/
theorem fastForward_ends (hgit : DocumentedGit site view plain) (hs : plain s)
    (hx : view.parents s x ≠ none) (htip : tipOf site view s body.targetBranch = some t) :
    (fastForward cfg body x.text (some t.text)).Ends site.handle s fun result s' =>
      (validRefName (branchRef body.targetBranch) = true →
        Forwarded site view body s s' result x) ∧
      (¬ validRefName (branchRef body.targetBranch) = true →
        Fails result ∧ RefsKept site view s s') := by
  unfold fastForward
  by_cases hvalid : validRefName (branchRef body.targetBranch) = true
  · have hname : (⟨branchRef body.targetBranch, hvalid⟩ : RefName).text =
        branchRef body.targetBranch := rfl
    obtain ⟨s₁, hswap, hs₁, hextends, hmoved⟩ := run_casBranch hgit hs hname htip hx
    have hx₁ : view.parents s₁ x ≠ none := by
      obtain ⟨ps, hps⟩ := Option.ne_none_iff_exists'.mp hx
      rw [hextends x ps hps]
      exact Option.some_ne_none ps
    obtain ⟨tree, s₂, htree, hsame⟩ := run_treeOf hgit hs₁ hx₁
    have htarget : (Oid.tryFrom cfg.printable t.text).map some = .ok (some t) := by
      rw [Oid.tryFrom_text]
      rfl
    rw [refName_of_valid hvalid, Oid.tryFrom_text]
    refine Program.ends_andThen_of_ok rfl ?_
    refine Program.ends_andThen_of_ok rfl ?_
    refine Program.ends_andThen_of_ok (congrArg (·, s) htarget) ?_
    refine Program.ends_andThen_of_ok hswap ?_
    refine Program.ends_andThen_of_ok htree ?_
    exact ⟨fun _ => ⟨⟨_, rfl, rfl, rfl⟩, hmoved.kept hsame.refs⟩, fun h => absurd hvalid h⟩
  · obtain ⟨msg, hname⟩ := @refName_of_invalid cfg.printable body.targetBranch hvalid
    rw [hname]
    refine Program.ends_andThen_of_error rfl ?_
    exact ⟨fun h => absurd h hvalid, fun _ => ⟨fails_badRequest, fun _ => rfl⟩⟩

/-- Steps 7 and 8. -/
theorem recordMerge_ends (hgit : DocumentedGit site view plain) (hs : plain s) {tree : Oid}
    (htree : view.hasTree s tree) (hx : view.parents s x ≠ none) (ht : view.parents s t ≠ none)
    (htip : tipOf site view s body.targetBranch = some t) :
    (recordMerge cfg body x.text t.text tree.text).Ends site.handle s fun result s' =>
      (view.accepts s (authorOr body.author) (mergeMessage body) = true ∧
          validRefName (branchRef body.targetBranch) = true →
        Joined site view body s s' result t x) ∧
      (¬ (view.accepts s (authorOr body.author) (mergeMessage body) = true ∧
          validRefName (branchRef body.targetBranch) = true) →
        Fails result ∧ RefsKept site view s s') := by
  let op : Op := .git (.commitTree tree.text t.text x.text (mergeMessage body)) (commitEnv body)
  have hquiet : RefsKept site view s (site.handle op s).2 := hgit.quiet op s trivial hs
  have hs₁ : plain (site.handle op s).2 := (hgit.keeps op s hs).1
  cases haccepts : view.accepts s (authorOr body.author) (mergeMessage body) with
  | false =>
      have hfails : (recordMerge cfg body x.text t.text tree.text).Ends site.handle s
          fun result s' => Fails result ∧ RefsKept site view s s' := by
        rcases hgit.commitTree_refused s tree.text t.text x.text body hs haccepts with
          ⟨cause, hanswer⟩ | ⟨rc, out, err, hrc, hanswer⟩
        · refine Program.ends_ask hanswer ?_
          exact Program.ends_andThen_of_error rfl ⟨⟨_, rfl, nofun⟩, hquiet⟩
        · have hread : readCommitTree (.ok (rc, out, err)) =
              .error (.other ("commit-tree failed: " ++ fromUtf8Lossy err)) := if_pos hrc
          refine Program.ends_ask hanswer ?_
          rw [hread]
          exact Program.ends_andThen_of_error rfl ⟨fails_other, hquiet⟩
      exact hfails.mono fun result s' h => ⟨fun hb => (Bool.false_ne_true hb.1).elim, fun _ => h⟩
  | true =>
      obtain ⟨commit, err, hanswer, hparents⟩ :=
        hgit.commitTree_accepted s tree t x body hs htree ht hx haccepts
      refine Program.ends_ask hanswer ?_
      have hread : readCommitTree (.ok (0, asBytes (commit.text ++ "\n"), err)) = .ok commit.text :=
        utf8Trimmed_line commit
      rw [hread]
      refine Program.ends_andThen_of_ok rfl ?_
      by_cases hvalid : validRefName (branchRef body.targetBranch) = true
      · have hname : (⟨branchRef body.targetBranch, hvalid⟩ : RefName).text =
            branchRef body.targetBranch := rfl
        -- the commit is written and the branch has not moved, so the swap finds its tip
        have htip₁ : tipOf site view (site.handle op s).2 body.targetBranch = some t :=
          (hquiet _).trans htip
        obtain ⟨s₂, hswap, -, hextends, hmoved⟩ :=
          run_casBranch hgit hs₁ hname htip₁ (by rw [hparents]; exact Option.some_ne_none _)
        rw [refName_of_valid hvalid, Oid.tryFrom_text, Oid.tryFrom_text]
        refine Program.ends_andThen_of_ok rfl ?_
        refine Program.ends_andThen_of_ok rfl ?_
        refine Program.ends_andThen_of_ok rfl ?_
        refine Program.ends_andThen_of_ok hswap ?_
        refine ⟨fun _ => ?_, fun h => absurd ⟨rfl, hvalid⟩ h⟩
        exact ⟨commit, ⟨_, rfl, rfl, rfl⟩, hextends _ _ hparents, hmoved.after hquiet⟩
      · obtain ⟨msg, hname⟩ := @refName_of_invalid cfg.printable body.targetBranch hvalid
        rw [hname]
        refine Program.ends_andThen_of_error rfl ?_
        exact ⟨fun h => absurd h.2 hvalid, fun _ => ⟨fails_badRequest, hquiet⟩⟩

theorem Forwarded.after {s s' s'' : σ} {result : Result MergeResult}
    (h : Forwarded site view body s' s'' result x) (hkept : RefsKept site view s s') :
    Forwarded site view body s s'' result x :=
  ⟨h.1, h.2.after hkept⟩

theorem Joined.after {s s' s'' : σ} {result : Result MergeResult}
    (h : Joined site view body s' s'' result t x) (hkept : RefsKept site view s s') :
    Joined site view body s s'' result t x := by
  obtain ⟨c, hresult, hparents, hmoved⟩ := h
  exact ⟨c, hresult, hparents, hmoved.after hkept⟩

theorem RefsKept.trans {s s' s'' : σ} (h : RefsKept site view s s')
    (h' : RefsKept site view s' s'') : RefsKept site view s s'' :=
  fun name => (h' name).trans (h name)

theorem Unchanged.mergeable_iff {s s' : σ} (h : Unchanged site view plain s s') :
    Mergeable view body s' x t ↔ Mergeable view body s x t := by
  unfold Mergeable
  rw [h.same.merge, h.same.accepts]

/-- The report of a conflict. -/
def Conflicts (body : MergeBody) (result : Result MergeResult) : Prop :=
  ∃ paths, result = .error (.mergeConflict body.targetBranch body.sourceBranch paths)

/-- Step 6. -/
theorem threeWay_ends (hgit : DocumentedGit site view plain) (hs : plain s)
    (hx : view.parents s x ≠ none) (ht : view.parents s t ≠ none)
    (htip : tipOf site view s body.targetBranch = some t) :
    (threeWay cfg body x.text (some t.text)).Ends site.handle s fun result s' =>
      (Mergeable view body s x t → Joined site view body s s' result t x ∨
        (∀ tree, view.merge s t x ≠ .clean tree) ∧ Conflicts body result ∧
          RefsKept site view s s') ∧
      (¬ Mergeable view body s x t → Fails result ∧ RefsKept site view s s') := by
  obtain ⟨outcome, s₁, hrun, hsame, houtcome⟩ := run_runMergeTree hgit hs ht hx
  unfold threeWay Mergeable
  cases hreport : view.merge s t x with
  | clean tree =>
      rw [hreport] at houtcome
      obtain ⟨rfl, htree⟩ := houtcome
      have htip₁ : tipOf site view s₁ body.targetBranch = some t := (hsame.refs _).trans htip
      have hx₁ : view.parents s₁ x ≠ none := by
        rw [hsame.same.parents]
        exact hx
      have ht₁ : view.parents s₁ t ≠ none := by
        rw [hsame.same.parents]
        exact ht
      refine Program.ends_andThen_of_ok hrun ?_
      refine (recordMerge_ends hgit hsame.plain htree hx₁ ht₁ htip₁).mono fun result s' h => ?_
      rw [hsame.same.accepts] at h
      refine ⟨fun hgood => Or.inl ((h.1 hgood).after hsame.refs), fun hbad => ?_⟩
      obtain ⟨hfails, hkept⟩ := h.2 hbad
      exact ⟨hfails, hsame.refs.trans hkept⟩
  | conflict tree details =>
      rw [hreport] at houtcome
      obtain ⟨hread, hunread⟩ := houtcome
      by_cases hreadable : Readable details
      · obtain ⟨paths, rfl⟩ := hread hreadable
        refine Program.ends_andThen_of_ok hrun ?_
        exact ⟨fun _ => Or.inr ⟨nofun, ⟨paths, rfl⟩, hsame.refs⟩, fun h => absurd hreadable h⟩
      · obtain ⟨msg, rfl⟩ := hunread hreadable
        refine Program.ends_andThen_of_error hrun ?_
        exact ⟨fun h => absurd h hreadable, fun _ => ⟨fails_other, hsame.refs⟩⟩
  | refused =>
      rw [hreport] at houtcome
      obtain ⟨msg, rfl⟩ := houtcome
      refine Program.ends_andThen_of_error hrun ?_
      exact ⟨False.elim, fun _ => ⟨fails_other, hsame.refs⟩⟩

/-! ### Rows -/

section Rows

variable {s s' : σ} {result : Result MergeResult}

theorem Fails.not_ok (h : Fails result) {P : MergeResult → Prop} : ¬ ∃ r, result = .ok r ∧ P r := by
  obtain ⟨e, rfl, -⟩ := h
  rintro ⟨r, hr, -⟩
  cases hr

theorem Fails.not_forwarded (h : Fails result) : ¬ Forwarded site view body s s' result x :=
  fun hforward => h.not_ok hforward.1

theorem Fails.not_joined (h : Fails result) : ¬ Joined site view body s s' result t x := by
  rintro ⟨c, hresult, -⟩
  exact h.not_ok hresult

theorem Fails.not_conflicts (h : Fails result) : ¬ Conflicts body result := by
  obtain ⟨e, rfl, hno⟩ := h
  rintro ⟨paths, hpaths⟩
  exact hno _ _ _ (Except.error.inj hpaths)

/-- The row of a contained source. -/
theorem rows_contained (hcontained : view.Ancestor s x t) (h : NoOp site view s s' result t) :
    FollowsRows site view body s s' result x t ↔ Servable view body s x t := by
  refine iff_of_true ⟨fun _ => h, ?_, ?_, ?_, ?_⟩ ⟨?_, ?_⟩
  all_goals exact fun hnot => absurd hcontained hnot

/-- The row of a fast-forward. -/
theorem rows_forward (hnot : ¬ view.Ancestor s x t) (hforward : view.Ancestor s t x)
    (hstrategy : body.strategy ≠ .merge)
    (h : (validRefName (branchRef body.targetBranch) = true →
        Forwarded site view body s s' result x) ∧
      (¬ validRefName (branchRef body.targetBranch) = true →
        Fails result ∧ RefsKept site view s s')) :
    FollowsRows site view body s s' result x t ↔ Servable view body s x t := by
  by_cases hvalid : validRefName (branchRef body.targetBranch) = true
  · have hmoved := h.1 hvalid
    refine iff_of_true ⟨fun hc => absurd hc hnot, fun _ _ _ => hmoved, fun _ _ hm => ?_,
      fun _ hn => absurd hforward hn, fun _ hn => absurd hforward hn⟩ ⟨fun _ _ _ => hvalid, ?_⟩
    · exact absurd hm hstrategy
    · exact fun _ hm => absurd (hm hforward) hstrategy
  · obtain ⟨hfails, -⟩ := h.2 hvalid
    refine iff_of_false (fun hrows => ?_) fun hserved => ?_
    · exact hfails.not_forwarded (hrows.forward hnot hforward hstrategy)
    · exact hvalid (hserved.forward hnot hforward hstrategy)

/-- The row of diverged branches that may only be fast-forwarded. -/
theorem rows_refused (hnot : ¬ view.Ancestor s x t) (hdiverged : ¬ view.Ancestor s t x)
    (hstrategy : body.strategy = .ffOnly) (h : ∃ e, result = .error e) :
    FollowsRows site view body s s' result x t ↔ Servable view body s x t := by
  refine iff_of_true ⟨fun hc => absurd hc hnot, ?_, ?_, fun _ _ _ => h, ?_⟩ ⟨?_, ?_⟩
  · exact fun _ hforward => absurd hforward hdiverged
  · exact fun _ hforward => absurd hforward hdiverged
  · exact fun _ _ hother => absurd hstrategy hother
  · exact fun _ hforward => absurd hforward hdiverged
  · exact fun _ _ hother => absurd hstrategy hother

/-- The rows of a three-way merge. -/
theorem rows_merged (hgit : DocumentedGit site view plain) (hs : plain s)
    (hx : view.parents s x ≠ none) (hnot : ¬ view.Ancestor s x t)
    (hmerge : view.Ancestor s t x → body.strategy = .merge) (hstrategy : body.strategy ≠ .ffOnly)
    (h : (Mergeable view body s x t → Joined site view body s s' result t x ∨
        (∀ tree, view.merge s t x ≠ .clean tree) ∧ Conflicts body result ∧
          RefsKept site view s s') ∧
      (¬ Mergeable view body s x t → Fails result ∧ RefsKept site view s s')) :
    FollowsRows site view body s s' result x t ↔ Servable view body s x t := by
  by_cases hgood : Mergeable view body s x t
  · refine iff_of_true ⟨fun hc => absurd hc hnot, fun _ hf hm => absurd (hmerge hf) hm,
      fun _ hf _ => ?_, fun _ _ hff => absurd hff hstrategy, fun _ _ _ => ?_⟩
      ⟨fun _ hf hm => absurd (hmerge hf) hm, fun _ _ _ => hgood⟩
    · -- a descendant has nothing to conflict with
      obtain ⟨tree, htree⟩ := hgit.merge_descendant s t x hs hx hf
      exact (h.1 hgood).resolve_right fun hconflict => hconflict.1 tree htree
    · exact (h.1 hgood).imp_right fun hconflict => hconflict.2.1
  · obtain ⟨hfails, -⟩ := h.2 hgood
    refine iff_of_false (fun hrows => ?_) fun hserved => hgood (hserved.merged hnot hmerge hstrategy)
    by_cases hforward : view.Ancestor s t x
    · exact hfails.not_joined (hrows.joined hnot hforward (hmerge hforward))
    · rcases hrows.diverged hnot hforward hstrategy with hjoined | hconflict
      · exact hfails.not_joined hjoined
      · exact hfails.not_conflicts hconflict

end Rows

/-- What is promised of a request with both tips, and when: the rows of the table exactly if it can
be served, and the refs on every error. -/
def RowsIff (site : Site σ) (view : MergeView σ) (body : MergeBody) (s : σ) (x t : Oid)
    (result : Result MergeResult) (s' : σ) : Prop :=
  (FollowsRows site view body s s' result x t ↔ Servable view body s x t) ∧
    ((∃ e, result = .error e) → RefsKept site view s s')

/-- Steps 4 to 8, once the source is known not to be contained. -/
theorem advance_ends (hgit : DocumentedGit site view plain) {s₁ : σ} (hs : plain s)
    (hsame : Unchanged site view plain s s₁) (hx : view.parents s x ≠ none)
    (ht : view.parents s t ≠ none) (htip : tipOf site view s body.targetBranch = some t)
    (hnot : ¬ view.Ancestor s x t) :
    (advance cfg body x.text (some t.text)).Ends site.handle s₁ (RowsIff site view body s x t) := by
  have hparents : ∀ {s' : σ}, Unchanged site view plain s s' → ∀ oid, view.parents s oid ≠ none →
      view.parents s' oid ≠ none := by
    intro s' hsame' oid hoid
    rw [hsame'.same.parents]
    exact hoid
  obtain ⟨forward, s₂, hrun, hsame₂, hforward⟩ :=
    run_isAncestor hgit hsame.plain (hparents hsame t ht) (hparents hsame x hx)
  rw [hsame.ancestor_iff] at hforward
  have hall := hsame.trans hsame₂
  have htip₂ : tipOf site view s₂ body.targetBranch = some t := (hall.refs _).trans htip
  unfold advance
  refine Program.ends_andThen_of_ok hrun ?_
  -- fast forward, a refusal of `ff_only`, or a merge commit
  split_ifs with hff honly
  · refine (fastForward_ends hgit hall.plain (hparents hall x hx) htip₂).mono fun result s' h => ?_
    have hrow : (validRefName (branchRef body.targetBranch) = true →
          Forwarded site view body s s' result x) ∧
        (¬ validRefName (branchRef body.targetBranch) = true →
          Fails result ∧ RefsKept site view s s') :=
      ⟨fun hvalid => (h.1 hvalid).after hall.refs,
        fun hinvalid => (h.2 hinvalid).imp_right hall.refs.trans⟩
    refine ⟨rows_forward hnot (hforward.mp hff.1) hff.2 hrow, ?_⟩
    rintro ⟨e, rfl⟩
    by_cases hvalid : validRefName (branchRef body.targetBranch) = true
    · obtain ⟨⟨r, hr, -⟩, -⟩ := hrow.1 hvalid
      cases hr
    · exact (hrow.2 hvalid).2
  · have hdiverged : ¬ view.Ancestor s t x := by
      intro hancestor
      refine hff ⟨hforward.mpr hancestor, ?_⟩
      rw [honly]
      decide
    exact ⟨rows_refused hnot hdiverged honly ⟨_, rfl⟩, fun _ => hall.refs⟩
  · have hmerge : view.Ancestor s t x → body.strategy = .merge := by
      intro hancestor
      by_contra hstrategy
      exact hff ⟨hforward.mpr hancestor, hstrategy⟩
    refine (threeWay_ends hgit hall.plain (hparents hall x hx) (hparents hall t ht) htip₂).mono
      fun result s' h => ?_
    rw [hall.mergeable_iff, hall.same.merge] at h
    have hrow : (Mergeable view body s x t → Joined site view body s s' result t x ∨
          (∀ tree, view.merge s t x ≠ .clean tree) ∧ Conflicts body result ∧
            RefsKept site view s s') ∧
        (¬ Mergeable view body s x t → Fails result ∧ RefsKept site view s s') := by
      refine ⟨fun hgood => ?_, fun hbad => (h.2 hbad).imp_right hall.refs.trans⟩
      rcases h.1 hgood with hjoined | ⟨hunclean, hconflict, hkept⟩
      · exact Or.inl (hjoined.after hall.refs)
      · exact Or.inr ⟨hunclean, hconflict, hall.refs.trans hkept⟩
    refine ⟨rows_merged hgit hs hx hnot hmerge honly hrow, ?_⟩
    rintro ⟨e, rfl⟩
    by_cases hgood : Mergeable view body s x t
    · rcases hrow.1 hgood with ⟨c, ⟨r, hr, -⟩, -⟩ | ⟨-, -, hkept⟩
      · cases hr
      · exact hkept
    · exact (hrow.2 hgood).2

/-- Steps 3 to 8. -/
theorem land_ends (hgit : DocumentedGit site view plain) {s₁ : σ} (hs : plain s)
    (hsame : Unchanged site view plain s s₁) (hx : view.parents s x ≠ none)
    (ht : view.parents s t ≠ none) (htip : tipOf site view s body.targetBranch = some t) :
    (land cfg body x.text (some t.text)).Ends site.handle s₁ (RowsIff site view body s x t) := by
  have hx₁ : view.parents s₁ x ≠ none := by
    rw [hsame.same.parents]
    exact hx
  have ht₁ : view.parents s₁ t ≠ none := by
    rw [hsame.same.parents]
    exact ht
  obtain ⟨contained, s₂, hrun, hsame₂, hcontained⟩ := run_isAncestor hgit hsame.plain hx₁ ht₁
  rw [hsame.ancestor_iff] at hcontained
  have hall := hsame.trans hsame₂
  unfold land
  refine Program.ends_andThen_of_ok hrun ?_
  by_cases hc : contained = true
  · rw [if_pos hc]
    have ht₂ : view.parents s₂ t ≠ none := by
      rw [hall.same.parents]
      exact ht
    refine (reportContained_ends hgit hall.plain ht₂).mono fun result s' h => ?_
    have hnoOp : NoOp site view s s' result t := h.imp_right hall.refs.trans
    exact ⟨rows_contained (hcontained.mp hc) hnoOp, fun _ => hnoOp.2⟩
  · rw [if_neg hc]
    exact advance_ends hgit hs hall hx ht htip fun h => hc (hcontained.mpr h)

/-- A request that fails a check touches nothing. -/
theorem merge_improper {admitted : Result Unit} (h : ¬ Proper admitted body) :
    (mergeBranches cfg body admitted).Ends site.handle s fun result s' =>
      (∃ e, result = .error e) ∧ s' = s := by
  unfold mergeBranches
  cases admitted with
  | error e => exact Program.ends_andThen_of_error rfl ⟨⟨e, rfl⟩, rfl⟩
  | ok u =>
      refine Program.ends_andThen_of_ok rfl ?_
      split_ifs with hsource htarget hequal
      · exact ⟨⟨_, rfl⟩, rfl⟩
      · exact ⟨⟨_, rfl⟩, rfl⟩
      · exact ⟨⟨_, rfl⟩, rfl⟩
      · refine absurd ⟨rfl, ?_, ?_, hequal⟩ h
        · simpa using hsource
        · simpa using htarget

theorem merge_ends (hgit : DocumentedGit site view plain) (hs : plain s) {admitted : Result Unit}
    (hproper : Proper admitted body) :
    (mergeBranches cfg body admitted).Ends site.handle s fun result s' =>
      (FollowsTable site view admitted body s s' result ↔ Served site view body s) := by
  have htable := hproper
  obtain ⟨rfl, hsource, htarget, hequal⟩ := hproper
  unfold mergeBranches
  refine Program.ends_andThen_of_ok rfl ?_
  rw [hsource, htarget, if_neg (by decide), if_neg (by decide), if_neg hequal]
  unfold FollowsTable Served
  -- the two branches are looked up in this order; a missing one ends the merge
  cases hx : tipOf site view s body.sourceBranch with
  | none =>
      obtain ⟨msg, s₁, hrun, hsame⟩ := run_resolveRef_missing hgit hs hx
      refine Program.ends_andThen_of_error hrun (iff_of_false ?_ id)
      rintro ⟨hrow, -⟩
      obtain ⟨why, hwhy⟩ := hrow htable
      cases hwhy
  | some x =>
      obtain ⟨s₁, hrun₁, hsame₁⟩ := run_resolveRef_present hgit hs hx
      refine Program.ends_andThen_of_ok hrun₁ ?_
      dsimp only
      rw [validateSha_oid]
      refine Program.ends_andThen_of_ok rfl ?_
      cases ht : tipOf site view s body.targetBranch with
      | none =>
          have hmissing : view.ref s₁ site.repoId (branchRef body.targetBranch) = none :=
            (hsame₁.refs _).trans ht
          obtain ⟨msg, s₂, hrun₂, hsame₂⟩ := run_resolveRef_missing hgit hsame₁.plain hmissing
          refine Program.ends_andThen_of_error hrun₂ ?_
          constructor
          · -- a fast forward to the source is promised here, but an error comes
            rintro ⟨hrow, -⟩
            by_contra hstrategy
            exact fails_other.not_forwarded (hrow htable hstrategy)
          · intro hstrategy
            exact ⟨fun _ hn => absurd hstrategy hn, fun _ => hsame₁.refs.trans hsame₂.refs⟩
      | some t =>
          have hpresent : view.ref s₁ site.repoId (branchRef body.targetBranch) = some t :=
            (hsame₁.refs _).trans ht
          obtain ⟨s₂, hrun₂, hsame₂⟩ := run_resolveRef_present hgit hsame₁.plain hpresent
          refine Program.ends_andThen_of_ok hrun₂ ?_
          dsimp only
          rw [validateSha_oid]
          refine Program.ends_andThen_of_ok rfl ?_
          have hxParents := hgit.tip s body.sourceBranch x hs hx
          have htParents := hgit.tip s body.targetBranch t hs ht
          refine (land_ends hgit hs (hsame₁.trans hsame₂) hxParents htParents ht).mono
            fun result s' h => ?_
          exact ⟨fun hrow => h.1.mp (hrow.1 htable), fun hserved => ⟨fun _ => h.1.mpr hserved, h.2⟩⟩

/-- **The decision table.** On a git that behaves as documented, a merge follows the table
exactly where it is served: the source is there, the target is there too (or is not promised to
be created), the ref store takes the target's name, the histories are related, git takes the
commit, and a conflict is reported with paths that can be read. -/
theorem merge_follows_table_iff (site : Site σ) (view : MergeView σ) (plain : σ → Prop)
    (hgit : DocumentedGit site view plain) (cfg : Config) (admitted : Result Unit)
    (body : MergeBody) (s : σ) (hs : plain s) :
    (mergeBranches cfg body admitted).Ends site.handle s (fun result s' =>
      FollowsTable site view admitted body s s' result) ↔
      (Proper admitted body → Served site view body s) := by
  by_cases hproper : Proper admitted body
  · rw [imp_iff_right hproper]
    exact merge_ends hgit hs hproper
  · refine iff_of_true ?_ fun h => absurd h hproper
    refine (merge_improper hproper).mono fun result s' h => ⟨fun h' => absurd h' hproper, fun _ => ?_⟩
    rw [h.2]
    exact fun _ => rfl

end Handler

/-- A merge of one branch of the small history into another. -/
def smallMerge (source target : String) : MergeBody where
  sourceBranch := source
  targetBranch := target
  strategy := .auto
  message := none
  author := none

/-- `topic` is ahead of `main`, which is fast-forwarded. -/
theorem merge_follows_table_forward :
    (mergeBranches smallConfig (smallMerge "topic" "main") (.ok ())).Ends smallSite.handle
      smallHistory fun result s' =>
        FollowsTable smallSite smallView (.ok ()) (smallMerge "topic" "main") smallHistory s'
          result := by
  refine (merge_follows_table_iff smallSite smallView SmallRepo.Plain SmallRepo.documented
    smallConfig (.ok ()) (smallMerge "topic" "main") smallHistory smallHistory_plain).mpr fun _ => ?_
  have hancestor : smallView.Ancestor smallHistory rootOid topicOid :=
    (SmallRepo.reaches_iff_ancestor smallHistory_plain).mp (by decide)
  have hsource : tipOf smallSite smallView smallHistory "topic" = some topicOid := by decide
  have htarget : tipOf smallSite smallView smallHistory "main" = some rootOid := by decide
  unfold Served
  rw [show (smallMerge "topic" "main").sourceBranch = "topic" from rfl, hsource,
    show (smallMerge "topic" "main").targetBranch = "main" from rfl, htarget]
  exact ⟨fun _ _ _ => by decide, fun _ h => absurd (h hancestor) (by decide)⟩

/-- A source branch that is missing is reported as a failure of the server. -/
theorem merge_misses_source :
    DocumentedGit smallSite smallView SmallRepo.Plain ∧ smallHistory.Plain ∧
      Proper (.ok ()) (smallMerge "gone" "main") ∧
      ((mergeBranches smallConfig (smallMerge "gone" "main") (.ok ())).run smallSite.handle
        smallHistory).1 = .error (.other
          "show-ref failed: rc=128 stderr=fatal: 'refs/heads/gone' - not a valid ref\n") ∧
      ¬ (mergeBranches smallConfig (smallMerge "gone" "main") (.ok ())).Ends smallSite.handle
        smallHistory fun result s' =>
          FollowsTable smallSite smallView (.ok ()) (smallMerge "gone" "main") smallHistory s'
            result := by
  have hproper : Proper (.ok ()) (smallMerge "gone" "main") :=
    ⟨rfl, by decide, by decide, by decide⟩
  have hsource : tipOf smallSite smallView smallHistory "gone" = none := by decide
  refine ⟨SmallRepo.documented, smallHistory_plain, hproper, by decide +kernel, fun h => ?_⟩
  have hserved := (merge_ends SmallRepo.documented smallHistory_plain hproper).mp h
  unfold Served at hserved
  rw [show (smallMerge "gone" "main").sourceBranch = "gone" from rfl, hsource] at hserved
  exact hserved


end Writers
end Artifacts
