import Artifacts.Storage.Faults

/-!
# Forks that fail

Unlike `create`, a `fork` that fails removes nothing.  Its calls are taken stage by stage:
`Stage` says when a part succeeds, what it has made then, and that otherwise the directory
of the fork stays.

`Surroundings` says of each call whether it fails, so any set of faults is covered, also that
of a full disk.  A removal is taken to succeed.  `HeadCopies` and `RefsCopy` are the two parts
of a fork that depend on what its source holds.
-/

namespace Artifacts
namespace Storage

open Foundation Foundation.Program Rust

/-! ### Forking, stage by stage -/

section Stages

variable {env : Surroundings} {base files : Files} {top : String} {made : List (Path × Node)}

/-- A stage succeeds exactly under a condition, and a failure leaves the directory. -/
def Stage (env : Surroundings) (base : Files) (top : String) (p : Calls Unit)
    (made made' : List (Path × Node)) (ok : Prop) : Prop :=
  ∀ files, Holds base top made files →
    (ok → ∃ files', p.run env.answer files = (.ok (), files') ∧ Holds base top made' files') ∧
    (¬ ok → ∃ e files', p.run env.answer files = (.error e, files') ∧
      files'.node [top] = some .dir)

/-- One stage after the other. -/
theorem Stage.andThen {p q : Calls Unit} {made' made'' : List (Path × Node)} {ok ok' : Prop}
    (hp : Stage env base top p made made' ok) (hq : Stage env base top q made' made'' ok') :
    Stage env base top (p.andThen fun _ => q) made made'' (ok ∧ ok') := by
  intro files h
  obtain ⟨hdone, hfailed⟩ := hp files h
  by_cases hok : ok
  · obtain ⟨files', hrun, hholds⟩ := hdone hok
    have hrest := hq files' hholds
    simp only [run_andThen, hrun, hok, true_and]
    exact hrest
  · obtain ⟨e, files', hrun, hdir⟩ := hfailed hok
    simp only [run_andThen, hrun, hok, false_and, not_false_eq_true, forall_const, false_implies,
      true_and]
    exact ⟨e, files', rfl, hdir⟩

/-- A call that fails does nothing. -/
theorem attempt_fault {op : FsOp} {α : Type} (call : Files → Except IoError α × Files)
    (h : env.fault op ≠ none) (files : Files) :
    ∃ cause, env.attempt op call files = (.error (.other cause), files) := by
  obtain ⟨cause, hcause⟩ := Option.ne_none_iff_exists'.mp h
  exact ⟨cause, by rw [Surroundings.attempt, hcause]⟩

/-- A call that does not fail by itself. -/
theorem attempt_call {op : FsOp} {α : Type} {call : Files → Except IoError α × Files}
    (h : env.fault op = none) (files : Files) : env.attempt op call files = call files := by
  rw [Surroundings.attempt, h]

/-- The condition, said otherwise. -/
theorem Stage.of_iff {p : Calls Unit} {made' : List (Path × Node)} {ok ok' : Prop}
    (hiff : ok ↔ ok') (h : Stage env base top p made made' ok) :
    Stage env base top p made made' ok' := by
  rw [← hiff]
  exact h

/-- `mkdir` in the directory. -/
theorem Holds.mkdir (h : Holds base top made files) {name : String} {path : Path}
    (hfree : made.lookup (name :: path) = none) (hdir : made.lookup path = some .dir)
    {again : Bool} (hok : env.fault (.mkdir again (name :: path ++ [top])) = none) :
    ∃ files', env.answer (.mkdir again (name :: path ++ [top])) files = (.ok (), files') ∧
      Holds base top ((name :: path, .dir) :: made) files' := by
  have hfree' : files.node (name :: (path ++ [top])) = none := (h.inside (name :: path)).trans hfree
  have hdir' : files.node (path ++ [top]) = some .dir := (h.inside path).trans hdir
  refine ⟨_, ?_, h.put hdir' fun _ => rfl⟩
  rw [Surroundings.answer, attempt_call hok]
  simp only [List.cons_append, Files.mkdir, hfree', hdir', if_true, dif_pos]

/-- `File::create` in the directory. -/
theorem Holds.createFile (h : Holds base top made files) {name : String} {path : Path}
    (hfree : made.lookup (name :: path) ≠ some .dir) (hdir : made.lookup path = some .dir)
    (hok : env.fault (.createFile (name :: path ++ [top])) = none) :
    ∃ files', env.answer (.createFile (name :: path ++ [top])) files = (.ok (), files') ∧
      Holds base top ((name :: path, .file []) :: made) files' := by
  have hfree' : files.node (name :: (path ++ [top])) ≠ some .dir :=
    (h.inside (name :: path)).trans_ne hfree
  have hdir' : files.node (path ++ [top]) = some .dir := (h.inside path).trans hdir
  refine ⟨_, ?_, h.put hdir' fun hold => absurd hold hfree'⟩
  rw [Surroundings.answer, attempt_call hok]
  simp only [List.cons_append, Files.createFile, hfree', hdir', dif_pos, dif_neg,
    not_false_eq_true]

/-- `write_all` to a file of the directory. -/
theorem Holds.writeAll (h : Holds base top made files) {name : String} {path : Path}
    {content : List UInt8} (hfree : made.lookup (name :: path) ≠ some .dir)
    (hdir : made.lookup path = some .dir)
    (hok : env.fault (.writeAll (name :: path ++ [top]) content) = none) :
    ∃ files', env.answer (.writeAll (name :: path ++ [top]) content) files = (.ok (), files') ∧
      Holds base top ((name :: path, .file content) :: made) files' := by
  have hfree' : files.node (name :: (path ++ [top])) ≠ some .dir :=
    (h.inside (name :: path)).trans_ne hfree
  have hdir' : files.node (path ++ [top]) = some .dir := (h.inside path).trans hdir
  refine ⟨_, ?_, h.put hdir' fun hold => absurd hold hfree'⟩
  rw [Surroundings.answer, attempt_call hok]
  simp only [List.cons_append, Files.writeAll, hfree', hdir', dif_pos, dif_neg,
    not_false_eq_true]

/-- A directory that could not be made is not there. -/
theorem run_orIsDir {path : Path} (hfree : files.node path = none) (e : IoError) :
    (orIsDir path e).run env.answer files = (.error (.io e.text), files) := by
  simp [orIsDir, Surroundings.answer, hfree]

/-- A first `mkdir` that fails ends `create_dir_all`, and nothing is made. -/
theorem run_createDirAll_of_fault {name : String} {path : Path}
    (hfree : files.node (name :: path) = none)
    (hfault : env.fault (.mkdir false (name :: path)) ≠ none) :
    ∃ e, (createDirAll (name :: path)).run env.answer files = (.error e, files) := by
  obtain ⟨cause, hcause⟩ := attempt_fault
    (fun files => files.mkdir (name :: path)) hfault files
  have hanswer : env.answer (.mkdir false (name :: path)) files = (.error (.other cause), files) :=
    hcause
  rw [createDirAll, run_ask, hanswer]
  exact ⟨_, run_orIsDir hfree _⟩

/-- A first `mkdir` below a path that is free leads to the parent. -/
theorem run_createDirAll_of_free {name parent : String} {path : Path}
    (hfree : files.node (name :: parent :: path) = none)
    (hparent : files.node (parent :: path) = none)
    (hok : env.fault (.mkdir false (name :: parent :: path)) = none) :
    (createDirAll (name :: parent :: path)).run env.answer files =
      ((createDirAll (parent :: path)).andThen fun _ =>
        mkdirAgain (name :: parent :: path)).run env.answer files := by
  have hanswer : env.answer (.mkdir false (name :: parent :: path)) files =
      (.error .notFound, files) := by
    rw [Surroundings.answer, attempt_call hok]
    simp [Files.mkdir, hfree, hparent]
  rw [createDirAll, run_ask, hanswer]

theorem Holds.node_top (h : Holds base top made files) (hroot : made.lookup [] = some .dir) :
    files.node [top] = some .dir :=
  (h.inside []).trans hroot

/-- The last `mkdir` of `create_dir_all`. -/
theorem stage_mkdirAgain (name : String) (path : Path)
    (hfree : made.lookup (name :: path) = none) (hdir : made.lookup path = some .dir)
    (hroot : made.lookup [] = some .dir) :
    Stage env base top (mkdirAgain (name :: path ++ [top])) made ((name :: path, .dir) :: made)
      (env.fault (.mkdir true (name :: path ++ [top])) = none) := by
  intro files h
  rw [mkdirAgain, run_ask]
  constructor
  · intro hok
    obtain ⟨files', hmade, hholds⟩ := h.mkdir hfree hdir hok
    rw [hmade]
    exact ⟨files', rfl, hholds⟩
  · intro hno
    obtain ⟨cause, hfault⟩ := attempt_fault
      (fun files => files.mkdir (name :: path ++ [top])) hno files
    have hanswer : env.answer (.mkdir true (name :: path ++ [top])) files =
        (.error (.other cause), files) := hfault
    rw [hanswer]
    exact ⟨_, files, run_orIsDir ((h.inside _).trans hfree) _, h.node_top hroot⟩

/-- `create_dir_all` of a directory whose parent is there. -/
theorem stage_createDirAll (name : String) (path : Path)
    (hfree : made.lookup (name :: path) = none) (hdir : made.lookup path = some .dir)
    (hroot : made.lookup [] = some .dir) :
    Stage env base top (createDirAll (name :: path ++ [top])) made ((name :: path, .dir) :: made)
      (env.fault (.mkdir false (name :: path ++ [top])) = none) := by
  intro files h
  constructor
  · intro hok
    obtain ⟨files', hmade, hholds⟩ := h.mkdir hfree hdir hok
    refine ⟨files', ?_, hholds⟩
    rw [List.cons_append] at hmade ⊢
    rw [createDirAll, run_ask, hmade, run_ret]
  · intro hno
    obtain ⟨e, hrun⟩ := run_createDirAll_of_fault ((h.inside (name :: path)).trans hfree) hno
    exact ⟨e, files, hrun, h.node_top hroot⟩

/-- `create_dir_all` of a directory whose parent is to be made first. -/
theorem stage_createDirAll_two (name parent : String) (path : Path)
    (hfree : made.lookup (name :: parent :: path) = none)
    (hparent : made.lookup (parent :: path) = none) (hdir : made.lookup path = some .dir)
    (hroot : made.lookup [] = some .dir) :
    Stage env base top (createDirAll (name :: parent :: path ++ [top])) made
      ((name :: parent :: path, .dir) :: (parent :: path, .dir) :: made)
      (env.fault (.mkdir false (name :: parent :: path ++ [top])) = none ∧
        env.fault (.mkdir false (parent :: path ++ [top])) = none ∧
        env.fault (.mkdir true (name :: parent :: path ++ [top])) = none) := by
  have hbelow : ((parent :: path, Node.dir) :: made).lookup (name :: parent :: path) = none := by
    rw [List.lookup_cons, hfree, beq_eq_false_iff_ne.mpr (List.cons_ne_self name (parent :: path))]
  have hthere : ((parent :: path, Node.dir) :: made).lookup (parent :: path) = some .dir := by
    rw [List.lookup_cons, beq_self_eq_true]
  have hroot' : ((parent :: path, Node.dir) :: made).lookup [] = some .dir := by
    rw [List.lookup_cons, hroot]
    rfl
  have hmake : Stage env base top (createDirAll (parent :: path ++ [top])) made _ _ :=
    stage_createDirAll parent path hparent hdir hroot
  have hstages := hmake.andThen (stage_mkdirAgain name (parent :: path) hbelow hthere hroot')
  intro files h
  have hnode : files.node (name :: (parent :: (path ++ [top]))) = none :=
    (h.inside (name :: parent :: path)).trans hfree
  have hnode' : files.node (parent :: (path ++ [top])) = none :=
    (h.inside (parent :: path)).trans hparent
  by_cases hfirst : env.fault (.mkdir false (name :: parent :: path ++ [top])) = none
  · have hrun := run_createDirAll_of_free hnode hnode' hfirst
    simp only [hfirst, true_and]
    show (_ → ∃ _, Program.run _ (createDirAll (name :: parent :: (path ++ [top]))) _ = _ ∧ _) ∧
      (_ → ∃ _ _, Program.run _ (createDirAll (name :: parent :: (path ++ [top]))) _ = _ ∧ _)
    rw [hrun]
    exact hstages files h
  · obtain ⟨e, hrun⟩ := run_createDirAll_of_fault hnode hfirst
    simp only [hfirst, false_and, not_false_eq_true, forall_const, false_implies, true_and]
    exact ⟨e, files, hrun, h.node_top hroot⟩

/-- `std::fs::write` of a new file. -/
theorem stage_writeFile (name : String) (path : Path) (content : List UInt8)
    (hfree : made.lookup (name :: path) = none) (hdir : made.lookup path = some .dir)
    (hroot : made.lookup [] = some .dir) :
    Stage env base top (writeFile (name :: path ++ [top]) content) made
      ((name :: path, .file content) :: (name :: path, .file []) :: made)
      (env.fault (.createFile (name :: path ++ [top])) = none ∧
        env.fault (.writeAll (name :: path ++ [top]) content) = none) := by
  have hthere : ((name :: path, Node.file []) :: made).lookup (name :: path) ≠ some .dir := by
    rw [List.lookup_cons, beq_self_eq_true]
    simp
  have hdir' : ((name :: path, Node.file []) :: made).lookup path = some .dir := by
    rw [List.lookup_cons, beq_eq_false_iff_ne.mpr (List.cons_ne_self name path).symm, hdir]
  have hroot' : ((name :: path, Node.file []) :: made).lookup [] = some .dir := by
    rw [List.lookup_cons, hroot]
    rfl
  intro files h
  rw [writeFile, run_ask]
  by_cases hcreate : env.fault (.createFile (name :: path ++ [top])) = none
  · obtain ⟨files', hmade, hholds⟩ := h.createFile (by simp [hfree]) hdir hcreate
    rw [hmade]
    simp only [hcreate, true_and]
    constructor
    · intro hwrite
      obtain ⟨files'', hwritten, hholds'⟩ := hholds.writeAll hthere hdir' hwrite
      refine ⟨files'', ?_, hholds'⟩
      rw [run_ask, hwritten]
      rfl
    · intro hno
      obtain ⟨cause, hfault⟩ := attempt_fault
        (fun files => files.writeAll content (name :: path ++ [top])) hno files'
      have hanswer : env.answer (.writeAll (name :: path ++ [top]) content) files' =
          (.error (.other cause), files') := hfault
      rw [run_ask, hanswer]
      exact ⟨_, files', rfl, hholds.node_top hroot'⟩
  · obtain ⟨cause, hfault⟩ := attempt_fault
      (fun files => files.createFile (name :: path ++ [top])) hcreate files
    have hanswer : env.answer (.createFile (name :: path ++ [top])) files =
        (.error (.other cause), files) := hfault
    rw [hanswer]
    simp only [hcreate, false_and, not_false_eq_true, forall_const, false_implies, true_and]
    exact ⟨_, files, rfl, h.node_top hroot⟩

/-- The source is not touched. -/
theorem Holds.read_source (h : Holds base top made files) {source : String} (hne : source ≠ top) :
    files.read ["HEAD", source] = base.read ["HEAD", source] := by
  have hout : ¬ [top] <:+ ["HEAD", source] := by
    simp [List.suffix_cons_iff, Ne.symm hne]
  unfold Files.read
  rw [h.outside _ hout]

/-- The `HEAD` of the source is a file, and it can be read and copied. -/
def HeadCopies (env : Surroundings) (base : Files) (source top : String) : Prop :=
  env.fault (.read ["HEAD", source]) = none ∧
    ∃ head, base.read ["HEAD", source] = .ok head ∧
      env.fault (.createFile ["HEAD", top]) = none ∧
      env.fault (.writeAll ["HEAD", top] head) = none

/-- The copy of the `HEAD`. -/
theorem stage_copyHead {source : String} {head : List UInt8} (hne : source ≠ top)
    (hhead : ∀ head', base.read ["HEAD", source] = .ok head' → head' = head)
    (hfree : made.lookup ["HEAD"] = none) (hroot : made.lookup [] = some .dir) :
    Stage env base top (copyHead source top) made
      ((["HEAD"], .file head) :: (["HEAD"], .file []) :: made)
      (HeadCopies env base source top) := by
  intro files h
  have hstay := h.node_top hroot
  by_cases hfault : env.fault (.read ["HEAD", source]) = none
  · have hanswer : env.answer (.read ["HEAD", source]) files =
        (base.read ["HEAD", source], files) := by
      rw [Surroundings.answer, attempt_call hfault, h.read_source hne]
    rw [copyHead, run_ask, hanswer]
    cases hread : base.read ["HEAD", source] with
    | error e =>
        have hno : ¬ HeadCopies env base source top := by
          intro hcopies
          obtain ⟨-, head', hhead', -⟩ := hcopies
          rw [hread] at hhead'
          cases hhead'
        exact ⟨fun hok => absurd hok hno, fun _ => ⟨_, files, rfl, hstay⟩⟩
    | ok head' =>
        obtain rfl := hhead head' hread
        have hcopies : HeadCopies env base source top ↔
            env.fault (.createFile ["HEAD", top]) = none ∧
              env.fault (.writeAll ["HEAD", top] head') = none := by
          simp [HeadCopies, hfault, hread]
        rw [hcopies]
        exact stage_writeFile "HEAD" [] head' hfree hroot hroot files h
  · have hno : ¬ HeadCopies env base source top := fun hcopies => hfault hcopies.1
    obtain ⟨cause, hcause⟩ := attempt_fault
      (fun files => (files.read ["HEAD", source], files)) hfault files
    have hanswer : env.answer (.read ["HEAD", source]) files = (.error (.other cause), files) :=
      hcause
    rw [copyHead, run_ask, hanswer]
    exact ⟨fun hok => absurd hok hno, fun _ => ⟨_, files, rfl, hstay⟩⟩

/-- The refs of the source are listed, and what is to be written can be. -/
def RefsCopy (env : Surroundings) (reposDir source top : String) : Prop :=
  ∃ packed, snapshotRefsToPacked (reposDir ++ "/" ++ source) (env.gix [source]) = .ok packed ∧
    ∀ text ∈ packed, env.fault (.createFile ["packed-refs", top]) = none ∧
      env.fault (.writeAll ["packed-refs", top] (asBytes text)) = none

/-- The last stage: the refs. -/
theorem stage_snapshotRefs {reposDir source : String}
    (hfree : made.lookup ["packed-refs"] = none) (hroot : made.lookup [] = some .dir) :
    Stage env base top (snapshotRefs reposDir source top) made
      (match snapshotRefsToPacked (reposDir ++ "/" ++ source) (env.gix [source]) with
        | .ok (some text) =>
            (["packed-refs"], .file (asBytes text)) :: (["packed-refs"], .file []) :: made
        | _ => made)
      (RefsCopy env reposDir source top) := by
  intro files h
  have hanswer : env.answer (.references [source]) files = (env.gix [source], files) := rfl
  rw [snapshotRefs, run_ask, hanswer]
  cases hpacked : snapshotRefsToPacked (reposDir ++ "/" ++ source) (env.gix [source]) with
  | error e =>
      have hno : ¬ RefsCopy env reposDir source top := by
        intro hcopy
        obtain ⟨packed, hok, -⟩ := hcopy
        rw [hpacked] at hok
        cases hok
      exact ⟨fun hok => absurd hok hno, fun _ => ⟨e, files, rfl, h.node_top hroot⟩⟩
  | ok packed =>
      cases packed with
      | none =>
          have hcopy : RefsCopy env reposDir source top := ⟨none, hpacked, by simp⟩
          exact ⟨fun _ => ⟨files, rfl, h⟩, fun hno => absurd hcopy hno⟩
      | some text =>
          have hcopy : RefsCopy env reposDir source top ↔
              env.fault (.createFile ["packed-refs", top]) = none ∧
                env.fault (.writeAll ["packed-refs", top] (asBytes text)) = none := by
            simp [RefsCopy, hpacked]
          rw [hcopy]
          exact stage_writeFile "packed-refs" [] (asBytes text) hfree hroot hroot files h

end Stages

/-! ### Forking -/

/-- The calls of a fork up to the one that makes its directory. -/
def firstCalls (source top : String) : List FsOp :=
  [.isDir [source], .mkdir false ["info", "objects", top], .mkdir false ["objects", top],
    .mkdir false [top]]

/-- A fork comes to make its directory: the source is found, and no call fails up to there. -/
def MakesTop (env : Surroundings) (files : Files) (source top : String) : Prop :=
  files.node [source] = some .dir ∧ ∀ op ∈ firstCalls source top, env.fault op = none

/-- The calls of a fork behind the one that makes its directory, but for its copies. -/
def laterCalls (reposDir source top : String) : List FsOp :=
  [.mkdir true ["objects", top], .mkdir true ["info", "objects", top],
    .mkdir false ["pack", "objects", top],
    .mkdir false ["heads", "refs", top], .mkdir false ["refs", top],
    .mkdir true ["heads", "refs", top],
    .mkdir false ["tags", "refs", top],
    .createFile ["alternates", "info", "objects", top],
    .writeAll ["alternates", "info", "objects", top] (asBytes (alternatesText reposDir source)),
    .createFile ["config", top], .writeAll ["config", top] (asBytes configText)]

/-- Nothing fails in a fork that has made its directory: none of the calls that follow, nor what it
reads of its source. -/
structure Undisturbed (env : Surroundings) (files : Files) (reposDir source top : String) :
    Prop where
  calls : ∀ op ∈ laterCalls reposDir source top, env.fault op = none
  head : HeadCopies env files source top
  refs : RefsCopy env reposDir source top

section Fork

variable {env : Surroundings} {files : Files} {top reposDir : String}

/-- Nothing is below a path that is free. -/
theorem Files.node_below (files : Files) {top : String} (hnew : files.node [top] = none)
    (q : Path) : files.node (q ++ [top]) = none := by
  induction q with
  | nil => exact hnew
  | cons name q ih =>
      by_contra h
      have hdir := files.rooted name (q ++ [top]) h
      rw [ih] at hdir
      cases hdir

/-- The `mkdir` of the directory itself. -/
theorem Holds.made_top (hnew : files.node [top] = none)
    (hok : env.fault (.mkdir false [top]) = none) :
    ∃ files', (createDirAll [top]).run env.answer files = (.ok (), files') ∧
      Holds files top [([], .dir)] files' := by
  have hanswer : env.answer (.mkdir false [top]) files =
      (.ok (), files.put top [] .dir files.root fun _ => rfl) := by
    rw [Surroundings.answer, attempt_call hok]
    simp only [Files.mkdir, hnew, files.root, if_true, dif_pos]
  refine ⟨_, by rw [createDirAll, run_ask, hanswer, run_ret], ?_, ?_⟩
  · intro q
    rw [Files.node_put, List.lookup_cons, files.node_below hnew]
    by_cases hq : q = []
    · simp [hq]
    · have hne : q ++ [top] ≠ [top] := by simp [hq]
      rw [if_neg hne, beq_eq_false_iff_ne.mpr hq]
      rfl
  · intro q hq
    have hne : q ≠ [top] := by
      rintro rfl
      exact hq (List.suffix_refl _)
    rw [Files.node_put, if_neg hne]

/-- Up to the `mkdir` of its directory, a fork that fails has made nothing. -/
theorem run_first_of_fault (env : Surroundings) (hnew : files.node [top] = none)
    (hno : ¬ (env.fault (.mkdir false ["info", "objects", top]) = none ∧
      env.fault (.mkdir false ["objects", top]) = none ∧ env.fault (.mkdir false [top]) = none)) :
    ∃ e, (createDirAll ["info", "objects", top]).run env.answer files = (.error e, files) := by
  have hfree : files.node ["objects", top] = none := files.node_below hnew ["objects"]
  have hfree' : files.node ["info", "objects", top] = none :=
    files.node_below hnew ["info", "objects"]
  by_cases hinfo : env.fault (.mkdir false ["info", "objects", top]) = none
  · rw [run_createDirAll_of_free hfree' hfree hinfo, run_andThen]
    by_cases hobjects : env.fault (.mkdir false ["objects", top]) = none
    · rw [run_createDirAll_of_free hfree hnew hobjects, run_andThen]
      have htop : env.fault (.mkdir false [top]) ≠ none := by
        intro htop
        exact hno ⟨hinfo, hobjects, htop⟩
      obtain ⟨e, hrun⟩ := run_createDirAll_of_fault hnew htop
      exact ⟨e, by rw [hrun]⟩
    · obtain ⟨e, hrun⟩ := run_createDirAll_of_fault hfree hobjects
      exact ⟨e, by rw [hrun]⟩
  · exact run_createDirAll_of_fault hfree' hinfo

/-- Without a fault a fork comes to its stages. -/
theorem run_first (hnew : files.node [top] = none)
    (hinfo : env.fault (.mkdir false ["info", "objects", top]) = none)
    (hobjects : env.fault (.mkdir false ["objects", top]) = none)
    (htop : env.fault (.mkdir false [top]) = none) :
    ∃ files', Holds files top [([], .dir)] files' ∧
      (createDirAll ["info", "objects", top]).run env.answer files =
        ((mkdirAgain ["objects", top]).andThen fun _ => mkdirAgain ["info", "objects", top]).run
          env.answer files' := by
  have hfree : files.node ["objects", top] = none := files.node_below hnew ["objects"]
  have hfree' : files.node ["info", "objects", top] = none :=
    files.node_below hnew ["info", "objects"]
  obtain ⟨files', hrun, hholds⟩ := Holds.made_top hnew htop
  refine ⟨files', hholds, ?_⟩
  rw [run_createDirAll_of_free hfree' hfree hinfo, run_andThen,
    run_createDirAll_of_free hfree hnew hobjects, run_andThen, hrun, run_andThen]

/-- What comes behind the `mkdir` of the directory. -/
theorem stage_fork (env : Surroundings) (files : Files) (reposDir : String) {source top : String}
    (hne : source ≠ top) :
    ∃ made', Stage env files top
      (((mkdirAgain ["objects", top]).andThen fun _ => mkdirAgain ["info", "objects", top]).andThen
        fun _ => fillFork reposDir source top)
      [([], .dir)] made' (Undisturbed env files reposDir source top) := by
  obtain ⟨head, hhead⟩ : ∃ head, ∀ head', files.read ["HEAD", source] = .ok head' →
      head' = head := by
    cases files.read ["HEAD", source] with
    | error e => exact ⟨[], nofun⟩
    | ok head => exact ⟨head, fun head' h => (Except.ok.inj h).symm⟩
  refine ⟨_, Stage.of_iff ?_
    (Stage.andThen
      (Stage.andThen (stage_mkdirAgain "objects" [] rfl rfl rfl)
        (stage_mkdirAgain "info" ["objects"] rfl rfl rfl))
      (Stage.andThen (stage_createDirAll "pack" ["objects"] rfl rfl rfl)
      (Stage.andThen (stage_createDirAll_two "heads" "refs" [] rfl rfl rfl rfl)
      (Stage.andThen (stage_createDirAll "tags" ["refs"] rfl rfl rfl)
      (Stage.andThen (stage_writeFile "alternates" ["info", "objects"] _ rfl rfl rfl)
      (Stage.andThen (stage_copyHead hne hhead rfl rfl)
      (Stage.andThen (stage_writeFile "config" [] _ rfl rfl rfl)
        (stage_snapshotRefs rfl rfl))))))))⟩
  constructor
  · intro h
    obtain ⟨⟨h1, h2⟩, h3, ⟨h4, h5, h6⟩, h7, ⟨h8, h9⟩, hcopy, ⟨h10, h11⟩, hrefs⟩ := h
    refine ⟨?_, hcopy, hrefs⟩
    simp only [laterCalls, List.forall_mem_cons, List.not_mem_nil, false_implies, implies_true,
      and_true]
    exact ⟨h1, h2, h3, h4, h5, h6, h7, h8, h9, h10, h11⟩
  · intro h
    obtain ⟨hcalls, hcopy, hrefs⟩ := h
    simp only [laterCalls, List.forall_mem_cons, List.not_mem_nil, false_implies, implies_true,
      and_true] at hcalls
    obtain ⟨h1, h2, h3, h4, h5, h6, h7, h8, h9, h10, h11⟩ := hcalls
    exact ⟨⟨h1, h2⟩, h3, ⟨h4, h5, h6⟩, h7, ⟨h8, h9⟩, hcopy, ⟨h10, h11⟩, hrefs⟩

/-- A fork whose source is found and whose id is free. -/
theorem run_forkCalls {sourceId newId : RepoId} (hnew : files.node [dirName newId] = none)
    (hsource : files.node [dirName sourceId] = some .dir)
    (hok : env.fault (.isDir [dirName sourceId]) = none) :
    (forkCalls reposDir sourceId newId).run env.answer files =
      ((createDirAll ["info", "objects", dirName newId]).andThen fun _ =>
        fillFork reposDir (dirName sourceId) (dirName newId)).run env.answer files := by
  have hthere : env.answer (.isDir [dirName sourceId]) files = (true, files) := by
    simp [Surroundings.answer, hsource, hok]
  have hfree : env.answer (.exists [dirName newId]) files = (false, files) := by
    simp [Surroundings.answer, hnew]
  rw [forkCalls, run_ask, hthere]
  show (Program.ask (FsOp.exists [dirName newId]) _).run env.answer files = _
  rw [run_ask, hfree]
  rfl

/-- A fork that does not come to make its directory fails and has made nothing. -/
theorem run_forkCalls_of_early (env : Surroundings) (reposDir : String) {sourceId newId : RepoId}
    (hnew : files.node [dirName newId] = none)
    (hno : ¬ MakesTop env files (dirName sourceId) (dirName newId)) :
    ∃ e, (forkCalls reposDir sourceId newId).run env.answer files = (.error e, files) := by
  by_cases hsource : files.node [dirName sourceId] = some .dir ∧
      env.fault (.isDir [dirName sourceId]) = none
  · obtain ⟨hdir, hok⟩ := hsource
    rw [run_forkCalls hnew hdir hok, run_andThen]
    obtain ⟨e, hrun⟩ := run_first_of_fault env hnew fun hcalls => hno ⟨hdir, by
      simpa [firstCalls, hok] using hcalls⟩
    exact ⟨e, by rw [hrun]⟩
  · have hmissing : env.answer (.isDir [dirName sourceId]) files = (false, files) := by
      rw [Surroundings.answer, Prod.mk.injEq, and_iff_left rfl, Bool.eq_false_iff]
      intro hthere
      rw [Bool.and_eq_true, Option.isNone_iff_eq_none, decide_eq_true_eq] at hthere
      exact hsource hthere.symm
    rw [forkCalls, run_ask, hmissing]
    exact ⟨_, rfl⟩

/-- When a fork leaves a free id free. -/
theorem fork_clean_iff {sourceId newId : RepoId} (hnew : files.node [dirName newId] = none) :
    CleanFailure newId ((forkCalls reposDir sourceId newId).run env.answer files) ↔
      (MakesTop env files (dirName sourceId) (dirName newId) →
        Undisturbed env files reposDir (dirName sourceId) (dirName newId)) := by
  -- once its directory is there, a failure leaves it; before that nothing is made
  by_cases htop : MakesTop env files (dirName sourceId) (dirName newId)
  · have hne : dirName sourceId ≠ dirName newId := by
      intro heq
      have hdir := htop.1
      rw [heq, hnew] at hdir
      cases hdir
    have hcalls := htop.2
    simp only [firstCalls, List.forall_mem_cons, List.not_mem_nil, false_implies, implies_true,
      and_true] at hcalls
    obtain ⟨hisDir, hinfo, hobjects, hmkdir⟩ := hcalls
    obtain ⟨files', hholds, hrun⟩ := run_first hnew hinfo hobjects hmkdir
    obtain ⟨made', hstage⟩ := stage_fork env files reposDir hne
    obtain ⟨hdone, hfailed⟩ := hstage files' hholds
    have hall : (forkCalls reposDir sourceId newId).run env.answer files =
        (((mkdirAgain ["objects", dirName newId]).andThen fun _ =>
          mkdirAgain ["info", "objects", dirName newId]).andThen fun _ =>
            fillFork reposDir (dirName sourceId) (dirName newId)).run env.answer files' := by
      rw [run_forkCalls hnew htop.1 hisDir, run_andThen, run_andThen, hrun]
    rw [hall]
    constructor
    · intro hclean _
      by_contra hno
      obtain ⟨e, files'', hfail, hdir⟩ := hfailed hno
      have htaken : ∀ taken, e ≠ .repoExists taken := by
        intro taken he
        apply (reusable_of_free hnew).fork env reposDir sourceId taken
        rw [hall, hfail, he]
      rw [hfail] at hclean
      have hfree := (hclean e rfl htaken).free
      rw [hdir] at hfree
      cases hfree
    · intro h
      obtain ⟨files'', hrun', -⟩ := hdone (h htop)
      rw [hrun']
      intro e he
      cases he
  · obtain ⟨e, hrun⟩ := run_forkCalls_of_early env reposDir hnew htop
    rw [hrun]
    constructor
    · intro _ h
      exact absurd h htop
    · intro _ e' _ _
      exact reusable_of_free hnew

end Fork

/-- **When create and fork leave a new id free.** Create always does, and a fork exactly when it
fails before it has made its directory, or not at all: nothing is removed when a later call fails.
Which calls fail is a parameter (`Surroundings`), so every fault and every number of them is
covered; removals succeed. One `create` or `fork` runs at a time, on an id that has no directory. -/
theorem create_fork_clean_iff (env : Surroundings) (files : Files) (reposDir : String)
    (sourceId newId : RepoId) (hnew : files.node [dirName newId] = none) :
    (CleanFailure newId ((createCalls newId).run env.answer files) ∧
      CleanFailure newId ((forkCalls reposDir sourceId newId).run env.answer files)) ↔
      (MakesTop env files (dirName sourceId) (dirName newId) →
        Undisturbed env files reposDir (dirName sourceId) (dirName newId)) := by
  rw [fork_clean_iff hnew]
  exact ⟨And.right, fun h => ⟨create_clean env files newId, h⟩⟩

/-! ### A full disk -/

/-- A repos directory with nothing in it. -/
def Files.empty : Files where
  node path := if path = [] then some .dir else none
  root := rfl
  rooted := by
    intro name path h
    exact absurd (if_neg (List.cons_ne_nil name path)) h

def sourceRepo : RepoId := ⟨"source", rfl⟩

def copyRepo : RepoId := ⟨"copy", rfl⟩

/-- One repository with its `HEAD`. -/
def oneRepo : Files :=
  (Files.empty.put "source.git" [] .dir Files.empty.root fun _ => rfl).put "HEAD" ["source.git"]
    (.file (asBytes "ref: refs/heads/main\n")) (by simp [Files.node_put])
    (by simp [Files.node_put, Files.empty])

/-- There is no inode for the directory of a new repository. -/
def noInode : Surroundings where
  fault op :=
    match op with
    | .mkdir _ path =>
        if path = ["copy.git"] then some "No space left on device (os error 28)" else none
    | _ => none
  gix _ := .all []

/-- There is no space for a `config`. -/
def fullDisk : Surroundings where
  fault op :=
    match op with
    | .writeAll path _ =>
        if path = ["config", "copy.git"] then some "No space left on device (os error 28)" else none
    | _ => none
  gix _ := .all []

theorem dirName_sourceRepo : dirName sourceRepo = "source.git" := rfl

theorem dirName_copyRepo : dirName copyRepo = "copy.git" := rfl

/-- Neither makes a directory, and neither leaves one. -/
theorem create_fork_clean_noInode :
    CleanFailure copyRepo ((createCalls copyRepo).run noInode.answer oneRepo) ∧
      CleanFailure copyRepo
        ((forkCalls "/repos" sourceRepo copyRepo).run noInode.answer oneRepo) := by
  have hnew : oneRepo.node [dirName copyRepo] = none := by
    simp [oneRepo, Files.node_put, Files.empty, dirName_copyRepo]
  refine (create_fork_clean_iff noInode oneRepo "/repos" sourceRepo copyRepo hnew).mpr ?_
  intro hmakes
  have htop := hmakes.2 (.mkdir false [dirName copyRepo]) (by simp [firstCalls])
  simp [noInode, dirName_copyRepo] at htop

/-- The fork fails for want of space, and what it has made is in the way. -/
theorem full_disk_takes_id :
    ¬ (CleanFailure copyRepo ((createCalls copyRepo).run fullDisk.answer oneRepo) ∧
      CleanFailure copyRepo
        ((forkCalls "/repos" sourceRepo copyRepo).run fullDisk.answer oneRepo)) := by
  have hnew : oneRepo.node [dirName copyRepo] = none := by
    simp [oneRepo, Files.node_put, Files.empty, dirName_copyRepo]
  have hmakes : MakesTop fullDisk oneRepo (dirName sourceRepo) (dirName copyRepo) := by
    constructor
    · simp [oneRepo, Files.node_put, dirName_sourceRepo]
    · simp [firstCalls, fullDisk]
  have hconfig : FsOp.writeAll ["config", "copy.git"] (asBytes configText) ∈
      laterCalls "/repos" (dirName sourceRepo) (dirName copyRepo) := by
    simp [laterCalls, dirName_copyRepo]
  intro h
  have hdone := (fork_clean_iff hnew).mp h.2 hmakes
  have hspace := hdone.calls _ hconfig
  simp [fullDisk] at hspace

end Storage
end Artifacts
