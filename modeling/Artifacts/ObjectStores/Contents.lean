import Artifacts.ObjectStores.Backends

/-!
# What the object stores hold

`Serves` ties a store to its contents, and says where stores may differ: in what a write
does to an object that is there, and in what `exists` finds besides the contents.
`MemObjectStore` writes with `put`, the two others with `keep`; `FsObjectStore` also asks
gix.

`tableView` makes contents of a table, so that the three proofs share their lemmas.  The answers are
compared up to the order of a listing.
-/

namespace Artifacts
namespace ObjectStores

open Foundation Rust Storage

/-! ### Contents -/

/-- What a store tells about an object: its bytes, and the second it was written in as the store has
it. -/
structure Row where
  bytes : List UInt8
  createdSecs : Int64
  deriving DecidableEq

def Row.info (row : Row) (oid : Oid) : LooseInfo := ⟨oid, row.bytes.length, row.createdSecs⟩

/-- The loose objects of each repository. -/
abbrev Contents := RepoId → Oid → Option Row

def Contents.set (contents : Contents) (id : RepoId) (oid : Oid) (row : Option Row) : Contents :=
  fun id' oid' => if id' = id ∧ oid' = oid then row else contents id' oid'

theorem Contents.set_eq_self {contents : Contents} {id : RepoId} {oid : Oid} {row : Option Row}
    (h : contents id oid = row) : contents.set id oid row = contents := by
  funext id' oid'
  rw [Contents.set]
  split_ifs with hhere
  · rw [hhere.1, hhere.2, h]
  · rfl

/-- A write that does not touch an object that is there. -/
def Contents.keep (contents : Contents) (id : RepoId) (oid : Oid) (row : Row) : Contents :=
  if contents id oid = none then contents.set id oid (some row) else contents

/-- A write that does. -/
def Contents.put (contents : Contents) (id : RepoId) (oid : Oid) (row : Row) : Contents :=
  contents.set id oid (some row)

/-- A listing of a repository, in any order: one row for each object that the repository has, and
none besides. -/
structure Lists (contents : Contents) (id : RepoId) (infos : List LooseInfo) : Prop where
  nodup : infos.Nodup
  mem_iff : ∀ info, info ∈ infos ↔ ∃ row, contents id info.oid = some row ∧ info = row.info info.oid

/-- What a store with these contents does.  `write` says what becomes of them in a write,
and `also` which objects that are not among them it finds. -/
structure Serves {σ : Type} (store : ObjectStore σ) (view : σ → Contents)
    (write : Contents → RepoId → Oid → Row → Contents) (also : Contents → RepoId → Oid → Bool) :
    Prop where
  readLoose : ∀ s id oid, store.readLoose s id oid = .ok ((view s id oid).map Row.bytes)
  writeLoose : ∀ now s id oid bytes, (store.writeLoose now s id oid bytes).1 = .ok () ∧
    view (store.writeLoose now s id oid bytes).2 = write (view s) id oid ⟨bytes, nowSecs now⟩
  listLoose : ∀ s id, ∃ infos, store.listLoose s id = .ok infos ∧ Lists (view s) id infos
  deleteLoose : ∀ s id oid,
    (store.deleteLoose s id oid).1 = .ok (view s id oid).isSome ∧
      view (store.deleteLoose s id oid).2 = (view s).set id oid none
  existsOid : ∀ s id oid,
    store.existsOid s id oid = .ok ((view s id oid).isSome || also (view s) id oid)

/-! ### Tables of objects -/

section Tables

variable {α κ : Type} [DecidableEq κ] {key : α → κ}

/-- The contents of a table whose keys are made from ids. -/
def tableView (path : RepoId → Oid → κ) (row : α → Row) (table : Table key) : Contents :=
  fun id oid => (table.find? (path id oid)).map row

variable {path : RepoId → Oid → κ} {row : α → Row} {table : Table key}

theorem isSome_tableView (id : RepoId) (oid : Oid) :
    (tableView path row table id oid).isSome = table.has (path id oid) := by
  rw [tableView, Option.isSome_map, Table.isSome_find?]

theorem tableView_eq_none_iff {id : RepoId} {oid : Oid} :
    tableView path row table id oid = none ↔ table.has (path id oid) = false := by
  rw [tableView, Option.map_eq_none_iff, Table.find?_eq_none_iff]

/-- Each key is the key of one object: two objects have two keys, in one repository or in two. -/
def OneObject (path : RepoId → Oid → κ) : Prop :=
  ∀ id oid id' oid', path id' oid' = path id oid ↔ id' = id ∧ oid' = oid

theorem oneObject_mk : OneObject (Prod.mk : RepoId → Oid → RepoId × Oid) :=
  fun _ _ _ _ => Prod.mk_inj

theorem tableView_delete (hpath : OneObject path) {id : RepoId} {oid : Oid} {p : α → Bool}
    (hp : ∀ entry, p entry = true ↔ key entry = path id oid) :
    tableView path row (table.delete p) = (tableView path row table).set id oid none := by
  funext id' oid'
  simp only [tableView, Contents.set, Table.find?_delete table hp, hpath id oid id' oid']
  split_ifs with h
  · rfl
  · rfl

theorem tableView_append (hpath : OneObject path) {id : RepoId} {oid : Oid} {new : α}
    (hkey : key new = path id oid) (hnew : table.has (key new) = false) :
    tableView path row (table.append new hnew) =
      (tableView path row table).set id oid (some (row new)) := by
  funext id' oid'
  simp only [tableView, Contents.set, Table.find?_append, hkey, hpath id oid id' oid']
  split_ifs with h
  · rfl
  · rfl

theorem tableView_replace (hpath : OneObject path) {id : RepoId} {oid : Oid} {new : α}
    (hkey : key new = path id oid) :
    tableView path row (table.replace new) =
      (tableView path row table).set id oid (some (row new)) := by
  funext id' oid'
  simp only [tableView, Contents.set, Table.find?_replace, hkey, hpath id oid id' oid']
  split_ifs with h
  · rfl
  · rfl

/-- A listing made of the rows of a table, one by one. -/
theorem lists_filterMap {id : RepoId} {infoOf : α → Option LooseInfo}
    (h : ∀ entry info, infoOf entry = some info ↔
      key entry = path id info.oid ∧ info = (row entry).info info.oid) :
    Lists (tableView path row table) id (table.rows.filterMap infoOf) := by
  constructor
  · have hkeys : table.rows.Pairwise fun entry entry' => key entry ≠ key entry' :=
      List.pairwise_map.mp table.distinct
    refine List.Pairwise.filterMap infoOf ?_ hkeys
    intro entry entry' hne info hinfo info' hinfo' heq
    -- one information, one key
    apply hne
    rw [((h entry info).mp hinfo).1, ((h entry' info').mp hinfo').1, heq]
  · intro info
    rw [List.mem_filterMap]
    constructor
    · intro hmem
      obtain ⟨entry, hentry, hinfo⟩ := hmem
      obtain ⟨hkey, heq⟩ := (h entry info).mp hinfo
      have hfound : table.find? (path id info.oid) = some entry :=
        Table.find?_eq_some_iff.mpr ⟨hentry, hkey⟩
      exact ⟨row entry, by rw [tableView, hfound, Option.map_some], heq⟩
    · intro hrow
      obtain ⟨found, hfound, heq⟩ := hrow
      obtain ⟨entry, hentry, rfl⟩ := Option.map_eq_some_iff.mp hfound
      obtain ⟨hmem, hkey⟩ := Table.find?_eq_some_iff.mp hentry
      exact ⟨entry, hmem, (h entry info).mpr ⟨hkey, heq⟩⟩

/-- The same, of the rows that belong to a repository. -/
theorem lists_select {id : RepoId} {belongs : α → Bool} {infoOf : α → LooseInfo}
    (h : ∀ entry info, (belongs entry = true ∧ infoOf entry = info) ↔
      key entry = path id info.oid ∧ info = (row entry).info info.oid) :
    Lists (tableView path row table) id ((table.select belongs).map infoOf) := by
  rw [← List.filterMap_eq_map, Table.select, List.filterMap_filter]
  apply lists_filterMap
  intro entry info
  rw [← h, Option.ite_none_right_eq_some]
  simp

end Tables

/-! ### The three stores -/

def fileRow (file : LooseFile) : Row := ⟨file.bytes, nowSecs file.modified⟩

def entryRow (entry : MemEntry) : Row := ⟨entry.bytes, entry.createdSecs⟩

def sqliteRow (row : LooseRow) : Row := ⟨row.bytes, row.createdAt⟩

def LooseFiles.view (files : LooseFiles) : Contents := tableView pathOf fileRow files

def MemEntries.view (entries : MemEntries) : Contents := tableView Prod.mk entryRow entries

def LooseRows.view (rows : LooseRows) : Contents := tableView Prod.mk sqliteRow rows

theorem oneObject_pathOf : OneObject pathOf := by
  intro id oid id' oid'
  constructor
  · intro h
    have hdir : id'.text ++ ".git" = id.text ++ ".git" := congrArg LoosePath.repoDir h
    have hsubdir := congrArg LoosePath.subdir h
    have hname := congrArg LoosePath.name h
    constructor
    · exact RepoId.ext (gitName_inj.mp hdir)
    · have hwalked : walkedOid (pathOf id' oid') = some oid :=
        walkedOid_eq_some_iff.mpr ⟨hsubdir, hname⟩
      have hself : walkedOid (pathOf id' oid') = some oid' := walkedOid_eq_some_iff.mpr ⟨rfl, rfl⟩
      exact Option.some.inj (hself.symm.trans hwalked)
  · intro h
    rw [h.1, h.2]

/-- What gix finds elsewhere of an object that is not in the repository. -/
def Gix.elsewhere (gix : Gix) (contents : Contents) (id : RepoId) (oid : Oid) : Bool :=
  gix.opens id && (gix.alternates id).any fun other =>
    (contents other oid).any fun row => gix.header row.bytes

/-- gix searches the object directories of the alternates. -/
theorem Gix.findHeader_eq (gix : Gix) {files : LooseFiles} {id : RepoId} {oid : Oid}
    (hfree : files.has (pathOf id oid) = false) :
    gix.findHeader files id oid = (gix.alternates id).any fun other =>
      (LooseFiles.view files other oid).any fun row => gix.header row.bytes := by
  have hown : files.find? (pathOf id oid) = none := Table.find?_eq_none_iff.mpr hfree
  rw [Gix.findHeader, List.any_cons, loosePath_eq_some, Option.bind_some, hown, Bool.false_or]
  congr 1
  funext other
  rw [loosePath_eq_some, Option.bind_some, LooseFiles.view, tableView]
  cases files.find? (pathOf other oid) with
  | none => rfl
  | some file => rfl

theorem sqlite_serves :
    Serves sqliteObjectStore LooseRows.view Contents.keep fun _ _ _ => false where
  readLoose rows id oid := by
    simp [sqliteObjectStore, LooseRows.view, tableView, Function.comp_def, sqliteRow]
  writeLoose now rows id oid bytes := by
    refine ⟨rfl, ?_⟩
    have hthere : LooseRows.view rows id oid = none ↔ rows.has (id, oid) = false :=
      tableView_eq_none_iff
    show tableView Prod.mk sqliteRow ((rows.insert ⟨id, oid, bytes, nowSecs now⟩).getD rows) = _
    rw [Table.insert_getD, Contents.keep]
    split_ifs with hnew hfree hfree
    · exact tableView_append oneObject_mk (by rfl) hnew
    · exact absurd (hthere.mpr hnew) hfree
    · exact absurd (hthere.mp hfree) hnew
    · rfl
  listLoose rows id := by
    refine ⟨_, rfl, lists_select ?_⟩
    intro row info
    rw [beq_iff_eq]
    constructor
    · intro h
      obtain ⟨rfl, rfl⟩ := h
      exact ⟨rfl, rfl⟩
    · intro h
      obtain ⟨hkey, hinfo⟩ := h
      have hids : row.repoId = id ∧ row.oid = info.oid := Prod.mk_inj.mp hkey
      refine ⟨hids.1, ?_⟩
      rw [hinfo, hids.2]
      rfl
  deleteLoose rows id oid := by
    constructor
    · rw [LooseRows.view, isSome_tableView]
      rfl
    · exact tableView_delete oneObject_mk fun _ => beq_iff_eq
  existsOid rows id oid := by
    rw [LooseRows.view, isSome_tableView, Bool.or_false]
    rfl

theorem mem_serves : Serves memObjectStore MemEntries.view Contents.put fun _ _ _ => false where
  readLoose entries id oid := by
    simp [memObjectStore, MemEntries.view, tableView, Function.comp_def, entryRow]
  writeLoose now entries id oid bytes := ⟨rfl, tableView_replace oneObject_mk (by rfl)⟩
  listLoose entries id := by
    refine ⟨_, rfl, lists_select ?_⟩
    intro entry info
    rw [beq_iff_eq]
    constructor
    · intro h
      obtain ⟨rfl, rfl⟩ := h
      exact ⟨rfl, rfl⟩
    · intro h
      obtain ⟨hkey, hinfo⟩ := h
      have hids : entry.repoId = id ∧ entry.oid = info.oid := Prod.mk_inj.mp hkey
      refine ⟨hids.1, ?_⟩
      rw [hinfo, hids.2]
      rfl
  deleteLoose entries id oid := by
    constructor
    · rw [MemEntries.view, isSome_tableView]
      rfl
    · exact tableView_delete oneObject_mk fun _ => beq_iff_eq
  existsOid entries id oid := by
    rw [MemEntries.view, isSome_tableView, Bool.or_false]
    rfl

theorem fs_serves (gix : Gix) :
    Serves (fsObjectStore gix) LooseFiles.view Contents.keep gix.elsewhere where
  readLoose files id oid := by
    simp [fsObjectStore, loosePath_eq_some, LooseFiles.view, tableView, Function.comp_def, fileRow]
  writeLoose now files id oid bytes := by
    have hthere : LooseFiles.view files id oid = none ↔ files.has (pathOf id oid) = false :=
      tableView_eq_none_iff
    simp only [fsObjectStore, loosePath_eq_some]
    by_cases hhas : files.has (pathOf id oid) = true
    · rw [dif_pos hhas, Contents.keep, if_neg (by simp [hthere, hhas])]
      exact ⟨rfl, rfl⟩
    · rw [dif_neg hhas, Contents.keep, if_pos (hthere.mpr (Bool.eq_false_iff.mpr hhas))]
      exact ⟨rfl, tableView_append oneObject_pathOf (by rfl) (Bool.eq_false_iff.mpr hhas)⟩
  listLoose files id := by
    refine ⟨_, rfl, ?_⟩
    rw [Table.select, List.filterMap_filter]
    apply lists_filterMap
    intro file info
    rw [Option.ite_none_right_eq_some, beq_iff_eq, Option.map_eq_some_iff]
    constructor
    · intro h
      obtain ⟨hdir, oid, hwalked, rfl⟩ := h
      -- the walk joins the two parts of a path that `pathOf` has cut
      obtain ⟨hsubdir, hname⟩ := walkedOid_eq_some_iff.mp hwalked
      refine ⟨?_, rfl⟩
      cases hpath : file.path with
      | mk repoDir subdir name =>
          rw [hpath] at hdir hsubdir hname
          rw [pathOf, ← hdir, ← hsubdir, ← hname]
    · intro h
      obtain ⟨hpath, hinfo⟩ := h
      have hdir : file.path.repoDir = id.text ++ ".git" := by
        rw [hpath]
        rfl
      have hwalked : walkedOid file.path = some info.oid := by
        rw [hpath, walkedOid_eq_some_iff]
        exact ⟨rfl, rfl⟩
      exact ⟨hdir, info.oid, hwalked, hinfo.symm⟩
  deleteLoose files id oid := by
    simp only [fsObjectStore, loosePath_eq_some]
    rw [LooseFiles.view, isSome_tableView]
    split_ifs with hhas
    · rw [hhas]
      exact ⟨rfl, tableView_delete oneObject_pathOf fun _ => beq_iff_eq⟩
    · rw [Bool.eq_false_iff.mpr hhas]
      refine ⟨rfl, (Contents.set_eq_self ?_).symm⟩
      exact tableView_eq_none_iff.mpr (Bool.eq_false_iff.mpr hhas)
  existsOid files id oid := by
    simp only [fsObjectStore, loosePath_eq_some]
    rw [LooseFiles.view, isSome_tableView]
    split_ifs with hhas hopens
    · rw [hhas]
      rfl
    · -- gix does not open the repository
      rw [Bool.not_eq_true'] at hopens
      rw [Bool.eq_false_iff.mpr hhas, Gix.elsewhere, hopens]
      rfl
    · -- gix looks into the repository and its alternates; the first is known to fail
      rw [Bool.not_eq_true', Bool.not_eq_false] at hopens
      rw [Bool.eq_false_iff.mpr hhas, Gix.elsewhere, hopens, Bool.false_or, Bool.true_and,
        gix.findHeader_eq (Bool.eq_false_iff.mpr hhas)]
      rfl

end ObjectStores
end Artifacts
