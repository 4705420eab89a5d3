import Artifacts.Refs.RevParse
import Artifacts.SmartHttp.RemoteStores
import Mathlib.Logic.Function.Basic

/-!
# A git that packs its refs

`GitOnDisk` is what `FsRefStore` needs of git.  The git of this file meets it: every ref of a
repository stands in `packed-refs`, and `update-ref` refuses, as git does, an object that is
not there and a name that is a directory of another ref or has one for its directory.  It has
no loose files and no annotated tags.

With it both stores are shown to be backends, and the run at the end is made over both.  It is no
model of git beyond that: it has no objects, only a test for them.
-/

namespace Artifacts
namespace SmartHttp

open Foundation GitWire Pkt Refs Rust

/-! ### Its files -/

/-- The refs of a repository, all of them packed. -/
abbrev PackedTable := Table RefEntry.key

namespace PackedTable

/-- A ref in the file; no character of a ref name is blank or a control character. -/
def row (e : RefEntry) : PackedRef where
  name := e.name.text
  oid := e.oid
  peeled := none
  valid := by
    intro c hc
    have hallowed := e.name.not_forbidden_of_mem hc
    by_contra hsmall
    have hblank : c.toNat < 32 ∨ c.toNat = 32 := by omega
    rcases hblank with hcontrol | hspace
    · rw [isForbiddenRefChar, decide_eq_true hcontrol] at hallowed
      cases hallowed
    · obtain rfl : c = ' ' := Char.toNat_inj.mp hspace
      exact absurd hallowed (by decide)

/-- `HEAD` of a repository that `git init` has made. -/
def main : RefName := mainRef

/-- The files of the repository. -/
def files (refs : PackedTable) : RefFiles where
  head := some (asBytes "ref: refs/heads/main\n")
  packed := some (packedText (refs.rows.map row))
  tree := .empty
  distinct := Dir.distinct_empty

def value (refs : PackedTable) (name : String) : Option Oid :=
  (refs.find? name).map RefEntry.oid

theorem packedLines_files (refs : PackedTable) :
    refs.files.packedLines = packedHeader :: (refs.rows.map row).flatMap PackedRef.lines := by
  show lines (packedText (refs.rows.map row)) = _
  exact lines_packedText _

theorem refLine_header : refLine packedHeader = none :=
  refLine_eq_none (by decide : "#".toList = ['#']) (by decide) (by decide)

theorem refLine_row (e : RefEntry) :
    refLine (e.oid.text ++ " " ++ e.name.text) = some (e.name, e.oid) := by
  have hline := refLine_ref (row e)
  rw [show (row e).name = e.name.text from rfl, nameOf_eq_some.mpr rfl] at hline
  exact hline

theorem refLines_files (refs : PackedTable) :
    refs.files.packedLines.filterMap refLine = refs.rows.map fun e => (e.name, e.oid) := by
  have hrows : ∀ rows : List RefEntry,
      ((rows.map row).flatMap PackedRef.lines).filterMap refLine =
        rows.map fun e => (e.name, e.oid) := by
    intro rows
    induction rows with
    | nil => rfl
    | cons e rows ih =>
        rw [List.map_cons, List.flatMap_cons, List.filterMap_append, ih, List.map_cons]
        show [e.oid.text ++ " " ++ e.name.text].filterMap refLine ++ _ = _
        rw [List.filterMap_cons_some (refLine_row e)]
        rfl
  rw [packedLines_files, List.filterMap_cons_none refLine_header, hrows]

/-- On disk, every ref has the value that the table gives it. -/
theorem valueOnDisk_files (refs : PackedTable) (name : String) :
    valueOnDisk refs.files name = refs.value name := by
  have hloose : looseOid (refs.files.fileAt name) = none := rfl
  unfold valueOnDisk value
  rw [hloose, Option.none_or, packedLines_files, packedWith_skip refLine_header]
  cases hname : nameOf name with
  | some typed =>
      obtain rfl : name = typed.text := nameOf_eq_some.mp hname
      have honce : ((refs.rows.map row).map PackedRef.name).Nodup := by
        rw [List.map_map]
        exact refs.distinct
      rw [packedWith_refs directPeel typed honce, List.find?_map, Option.map_map]
      rfl
  | none =>
      -- a name that is not valid is on no line and in no row
      have hno : ∀ typed : RefName, typed.text ≠ name := by
        intro typed htext
        rw [nameOf_eq_some.mpr htext.symm] at hname
        cases hname
      have hlines : packedWith directPeel name ((refs.rows.map row).flatMap PackedRef.lines) = none :=
        packedWith_eq_none.mpr fun _ _ typed _ _ => hno typed
      have hrows : refs.find? name = none :=
        List.find?_eq_none.mpr fun e _ hkey => hno e.name (eq_of_beq hkey)
      rw [hlines, hrows]
      rfl

theorem wellKept_files (refs : PackedTable) : WellKept refs.files main where
  head := by
    refine ⟨⟨refs.files, [], main, ['\n'], ?_, rfl, rfl, ?_⟩, rfl, rfl⟩
    · decide
    · rw [refLines_files, List.map_map]
      refine List.Nodup.of_map RefName.text ?_
      rw [List.map_map]
      exact refs.distinct
  trimmed := by
    intro c hc
    obtain rfl : 'n' = c := Option.some.inj hc
    decide
  strays := by
    intro name before f behind oid hwalk
    have hnone : refs.files.tree.walk = [] := rfl
    rw [hnone] at hwalk
    exact absurd hwalk.symm (List.append_ne_nil_of_right_ne_nil before (List.cons_ne_nil f behind))

theorem value_replace (refs : PackedTable) (e : RefEntry) (name : String) :
    PackedTable.value (refs.replace e) name =
      if name = e.name.text then some e.oid else refs.value name := by
  unfold value
  rw [Table.find?_replace]
  show Option.map _ (if name = e.name.text then _ else _) = _
  split_ifs <;> rfl

theorem value_delete (refs : PackedTable) (old name : String) :
    PackedTable.value (refs.delete fun e => e.key == old) name =
      if name = old then none else refs.value name := by
  unfold value
  rw [Table.find?_delete _ fun _ => beq_iff_eq]
  split_ifs <;> rfl

end PackedTable

/-! ### Its commands -/

/-- One name is a directory of the other. -/
def Nested (a b : String) : Prop := (a ++ "/").toList <+: b.toList ∨ (b ++ "/").toList <+: a.toList

instance (a b : String) : Decidable (Nested a b) := inferInstanceAs (Decidable (_ ∨ _))

/-- What this git refuses although the old value is right. -/
def GitRefuses (present : Oid → Bool) : Refusals := fun m repoId name value =>
  ∃ oid ∈ value, present oid = false ∨ ∃ other, (m repoId other).isSome ∧ Nested other name

/-- The commands of the file store. -/
def packingGit (present : Oid → Bool) : GitRunner (RepoId → PackedTable) := fun s repoId args =>
  match args with
  | ["rev-parse", "--verify", "--end-of-options", name] =>
      match (s repoId).value name with
      | some oid => (.ok (0, asBytes (oid.text ++ "\n"), []), s)
      | none => (.ok (128, [], asBytes "fatal: Needed a single revision\n"), s)
  | ["update-ref", "--end-of-options", name, new, old] =>
      match nameOf name, argOid new, argOid old with
      | some name, some new, some old =>
          if (s repoId).value name.text = expectedValue old ∧ present new = true ∧
              ∀ e ∈ (s repoId).rows, ¬ Nested e.name.text name.text then
            (.ok (0, [], []), Function.update s repoId ((s repoId).replace ⟨name, new, none⟩))
          else (.ok (128, [], asBytes "fatal: update_ref failed\n"), s)
      | _, _, _ => (.ok (128, [], asBytes "fatal: not a valid SHA1\n"), s)
  | ["update-ref", "-d", "--end-of-options", name, old] =>
      match nameOf name, argOid old with
      | some name, some old =>
          if (s repoId).value name.text = some old then
            (.ok (0, [], []),
              Function.update s repoId ((s repoId).delete fun e => e.key == name.text))
          else (.ok (1, [], asBytes "error: cannot lock ref\n"), s)
      | _, _ => (.ok (128, [], asBytes "fatal: not a valid old SHA1\n"), s)
  | _ => (.ok (129, [], []), s)

/-- The files of all repositories. -/
def packedFiles (s : RepoId → PackedTable) (repoId : RepoId) : RefFiles := (s repoId).files

theorem diskView_packed (s : RepoId → PackedTable) :
    diskView packedFiles s = fun repoId => (s repoId).value := by
  funext repoId name
  exact (s repoId).valueOnDisk_files name

/-- A table that changes one ref, on disk. -/
theorem diskView_update (s : RepoId → PackedTable) (repoId : RepoId) {refs : PackedTable}
    {name : String} {value : Option Oid}
    (h : ∀ other, refs.value other = if other = name then value else (s repoId).value other) :
    diskView packedFiles (Function.update s repoId refs) =
      (diskView packedFiles s).set repoId name value := by
  rw [diskView_packed, diskView_packed]
  funext repo other
  unfold RefMap.set
  by_cases hrepo : repo = repoId
  · subst hrepo
    rw [Function.update_self, h]
    simp
  · rw [Function.update_of_ne hrepo, if_neg fun hsame => hrepo hsame.1]

theorem isSome_value {refs : PackedTable} {e : RefEntry} (h : e ∈ refs.rows) :
    (refs.value e.name.text).isSome = true := by
  unfold PackedTable.value
  rw [Option.isSome_map, Table.isSome_find?, Table.has_iff]
  exact ⟨e, h, rfl⟩

/-- **This git keeps its word**, whichever objects are present. -/
theorem packingGit_onDisk (present : Oid → Bool) :
    GitOnDisk (packingGit present) packedFiles PackedTable.main (GitRefuses present)
      fun _ => True where
  kept s repoId _ := (s repoId).wellKept_files
  revParse := by
    intro s repoId args
    unfold packingGit
    split
    · split <;> rfl
    · rename_i heq
      exact absurd (List.cons.inj heq).1 (by decide)
    · rename_i heq
      exact absurd (List.cons.inj heq).1 (by decide)
    · rfl
  update := by
    intro s repoId name new old _ _ _
    have hview : diskView packedFiles s repoId name.text = (s repoId).value name.text :=
      congrFun (congrFun (diskView_packed s) repoId) name.text
    simp only [packingGit, nameOf_eq_some.mpr rfl, argOid_text]
    split_ifs with hfits
    · refine ⟨_, _, _, _, rfl, trivial, ?_⟩
      rw [diskView_update s repoId ((s repoId).value_replace ⟨name, new, none⟩)]
      exact .made (hview.trans hfits.1)
    · refine ⟨_, _, _, _, rfl, trivial, .refused fun hold => ⟨new, rfl, ?_⟩⟩
      by_cases hpresent : present new = true
      · refine Or.inr ?_
        by_contra hfree
        refine hfits ⟨hview.symm.trans hold, hpresent, fun e he hnested => hfree ?_⟩
        refine ⟨e.name.text, ?_, hnested⟩
        rw [diskView_packed]
        exact isSome_value he
      · exact Or.inl (Bool.eq_false_iff.mpr hpresent)
  delete := by
    intro s repoId name old _ _ _
    have hview : diskView packedFiles s repoId name.text = (s repoId).value name.text :=
      congrFun (congrFun (diskView_packed s) repoId) name.text
    simp only [packingGit, nameOf_eq_some.mpr rfl, argOid_text]
    split_ifs with hfits
    · refine ⟨_, _, _, _, rfl, trivial, ?_⟩
      rw [diskView_update s repoId ((s repoId).value_delete name.text)]
      exact .made (hview.trans hfits)
    · exact ⟨_, _, _, _, rfl, trivial, .refused fun hold => absurd (hview.symm.trans hold) hfits⟩

/-- The file store over this git, with every object present. -/
def packedBackend : RefBackend (RepoId → PackedTable) :=
  fsBackend printableAscii (packingGit fun _ => true) packedFiles PackedTable.main
    (GitRefuses fun _ => true)

theorem packedBackend_transactional : Transactional packedBackend fun _ => True :=
  fsBackend_transactional (packingGit_onDisk fun _ => true)

theorem headTarget_symbolicHead (target : RefName) (refs : String → Option Oid) :
    headTarget (symbolicHead target refs) = some target := by
  unfold symbolicHead
  cases refs target.text <;> rfl

theorem packedBackend_empty : packedBackend.view (fun _ => Table.empty) = fun _ _ => none := by
  have hview : packedBackend.view = diskView packedFiles := fsBackend_view _ _ _ _ _
  rw [hview, diskView_packed]
  funext repoId name
  rfl

/-! ### Two pushes and a listing -/

def mainPush : Push where
  updates := [⟨RefUpdate.zero, demoOid, "refs/heads/main"⟩]
  capabilities := ["report-status", "side-band-64k"]
  pack := []
  newline := false
  nonempty := List.cons_ne_nil _ _
  oids := by decide +kernel
  names := by decide
  tokens := by decide
  fits := by decide +kernel

/-- A push from a value that the ref does not have. -/
def stalePush : Push where
  updates := [⟨"2222222222222222222222222222222222222222", demoOid, "refs/heads/main"⟩]
  capabilities := ["report-status", "side-band-64k"]
  pack := []
  newline := false
  nonempty := List.cons_ne_nil _ _
  oids := by decide +kernel
  names := by decide
  tokens := by decide
  fits := by decide +kernel

theorem mainPush_proper : Proper mainPush where
  reports := by decide
  supported := by decide
  updates := by decide +kernel

theorem stalePush_proper : Proper stalePush where
  reports := by decide
  supported := by decide
  updates := by decide +kernel

def headsAsked : LsRefsArgs := ⟨false, true, ["refs/heads/"]⟩

theorem headsAsked_asks : Asks headsAsked where
  lines := by decide
  fits := by decide +kernel

def demoVisits : List Visit :=
  [⟨demoRepo, .push connectedEnv mainPush⟩, ⟨demoRepo, .push connectedEnv stalePush⟩,
    ⟨demoRepo, .list headsAsked⟩]

theorem demoVisits_proper : ∀ v ∈ demoVisits, v.ask.Proper := by
  unfold demoVisits
  rw [List.forall_mem_cons, List.forall_mem_cons, List.forall_mem_singleton]
  exact ⟨mainPush_proper, stalePush_proper, headsAsked_asks⟩

/-- Of the two pushes the first is reported and listed, and the second is refused. -/
def FirstLands (answers : List (Option (List UInt8))) : Prop :=
  ∃ a b c rows, answers = [some a, some b, some c] ∧ readReport mainPush a = some [true] ∧
    readReport stalePush b = some [false] ∧ readRows (pktIter c) = some rows ∧
    ∃ row ∈ rows, row.name = "refs/heads/main" ∧ row.oid = demoOid

/-- What the clients are told if nothing is there and nothing stands against the first push. -/
theorem demoVisits_told {σ : Type} {backend : RefBackend σ} {answers : List (Option (List UInt8))}
    {m : RefMap} (h : Explains backend (fun _ _ => none) demoVisits answers m)
    (hfree : ∀ value, ¬ backend.mayRefuse (fun _ _ => none) demoRepo "refs/heads/main" value) :
    FirstLands answers := by
  obtain _ | ⟨⟨a, first, rfl, hfirst, hmain⟩, _ | ⟨⟨b, second, rfl, hsecond, hstale⟩,
    _ | ⟨⟨rfl, c, rows, rfl, hrows, hlists⟩, _ | _⟩⟩⟩ := h
  have hopen : ∀ push ∈ [mainPush, stalePush],
      passes connectedEnv demoRepo (requestOf push) = true := by
    decide +kernel
  rw [PushTold, if_pos (hopen _ List.mem_cons_self)] at hmain
  rw [PushTold, if_pos (hopen _ (List.mem_cons_of_mem _ List.mem_cons_self))] at hstale
  obtain _ | ⟨hmade | hrefused, _ | _⟩ := hmain
  · obtain _ | ⟨hwrong | _, _ | _⟩ := hstale
    · exact absurd hwrong (by decide +kernel)
    · obtain ⟨row, hrow, hname, hoid⟩ := (hlists.refs ⟨"refs/heads/main", rfl⟩ ⟨demoOid, rfl⟩).mpr
        ⟨by decide +kernel, "refs/heads/", by decide, by decide, by decide⟩
      exact ⟨a, b, c, _, rfl, hfirst, hsecond, hrows, row, List.mem_append_right _ hrow, hname, hoid⟩
  · exact absurd (hrefused (by decide +kernel)) (hfree _)

/-- Over both stores the first push is reported and listed, the second is refused. -/
theorem remote_refines_demo :
    FirstLands (serveAll printableAscii (memBackend printableAscii) Table.empty demoVisits).1 ∧
      FirstLands (serveAll printableAscii packedBackend (fun _ => Table.empty) demoVisits).1 := by
  have hshort : RefMap.Short fun _ _ => none := by
    intro _ _ _ hnone
    cases hnone
  have hmem := remote_refines printableAscii (memBackend printableAscii) (fun _ => True)
    memBackend_transactional
    (by
      intro refs target htarget
      obtain rfl := Option.some.inj htarget
      decide +kernel)
    Table.empty trivial hshort demoVisits demoVisits_proper
  have hmemEmpty : (memBackend printableAscii).view Table.empty = fun _ _ => none := rfl
  rw [hmemEmpty] at hmem
  have hshortFs : (packedBackend.view fun _ => Table.empty).Short := by
    rw [packedBackend_empty]
    exact hshort
  have hfs := remote_refines printableAscii packedBackend (fun _ => True)
    packedBackend_transactional
    (by
      intro refs target htarget
      have hhead := headTarget_symbolicHead PackedTable.main refs
      obtain rfl := Option.some.inj (hhead.symm.trans htarget)
      decide +kernel)
    (fun _ => Table.empty) trivial hshortFs demoVisits demoVisits_proper
  rw [packedBackend_empty] at hfs
  constructor
  · exact demoVisits_told hmem (memBackend_never _ _ _)
  · refine demoVisits_told hfs fun value hrefuses => ?_
    obtain ⟨oid, -, habsent | ⟨other, hsome, -⟩⟩ := hrefuses
    · cases habsent
    · cases hsome

end SmartHttp
end Artifacts
