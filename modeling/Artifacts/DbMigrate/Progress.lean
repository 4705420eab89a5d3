import Artifacts.DbMigrate.Run

/-!
# How far the migrations of a database are

Of each owner of a shared database two numbers say it all: how many statements of its
migrations have taken effect, and how many of its migrations are recorded.  `Agrees` ties
them to the file.  A statement that has taken effect is void when it is run again, or
refused, so that both numbers only ever grow.

* `Item.Grows` and `Schema.Grows`: columns are added, nothing is dropped.
* `Statement.Done`: the statement has taken effect; running it again changes nothing.
* `Sound` and `Apart` are the two conditions on the lists of migrations: versions rise, and
  two owners have no table or index in common.

Statements that drop or rename are not among those that the stores ship.
-/

namespace Artifacts
namespace DbMigrate

open Foundation

/-! ### Items that are there stay there -/

def Item.isTable : Item → Bool
  | .table _ _ => true
  | .index _ _ _ => false

def Item.columnNames : Item → List String
  | .table columns _ => columns.map Column.name
  | .index _ _ _ => []

/-- A table gets more columns; an index stays as it is. -/
def Item.Grows : Item → Item → Prop
  | .table columns constraints, other => ∃ more, other = .table (columns ++ more) constraints
  | .index host columns condition, other => other = .index host columns condition

/-- The schema has everything the other has. -/
def Schema.Grows (schema schema' : Schema) : Prop :=
  ∀ name item, schema name = some item → ∃ item', schema' name = some item' ∧ item.Grows item'

theorem Item.Grows.refl (item : Item) : item.Grows item := by
  cases item with
  | table columns constraints => exact ⟨[], by rw [List.append_nil]⟩
  | index host columns condition => rfl

theorem Item.Grows.trans {a b c : Item} (hab : a.Grows b) (hbc : b.Grows c) : a.Grows c := by
  cases a with
  | table columns constraints =>
      obtain ⟨more, rfl⟩ := hab
      obtain ⟨others, rfl⟩ := hbc
      exact ⟨more ++ others, by rw [List.append_assoc]⟩
  | index host columns condition =>
      cases hab
      exact hbc

theorem Schema.Grows.refl (schema : Schema) : schema.Grows schema :=
  fun _ item h => ⟨item, h, Item.Grows.refl item⟩

theorem Schema.Grows.trans {a b c : Schema} (hab : a.Grows b) (hbc : b.Grows c) : a.Grows c := by
  intro name item h
  obtain ⟨item', h', hgrows⟩ := hab name item h
  obtain ⟨item'', h'', hgrows'⟩ := hbc name item' h'
  exact ⟨item'', h'', hgrows.trans hgrows'⟩

/-- What the statement is for is there, whoever made it. The columns of a table and the condition of
an index are not compared. -/
def Statement.Done (schema : Schema) : Statement → Prop
  | .createTable name _ _ => ∃ item, schema name = some item ∧ item.isTable = true
  | .createIndex name table _ _ =>
      (∃ item, schema name = some item ∧ item.isTable = false) ∧
        ∃ item, schema table = some item ∧ item.isTable = true
  | .addColumn table column => ∃ item, schema table = some item ∧ column.name ∈ item.columnNames

theorem Item.Grows.isTable {a b : Item} (h : a.Grows b) : b.isTable = a.isTable := by
  cases a with
  | table columns constraints =>
      obtain ⟨more, rfl⟩ := h
      rfl
  | index host columns condition =>
      cases h
      rfl

theorem Item.Grows.columnNames {a b : Item} (h : a.Grows b) {name : String}
    (hname : name ∈ a.columnNames) : name ∈ b.columnNames := by
  cases a with
  | table columns constraints =>
      obtain ⟨more, rfl⟩ := h
      simp only [Item.columnNames, List.map_append, List.mem_append] at hname ⊢
      exact Or.inl hname
  | index host columns condition => cases hname

theorem Statement.Done.grows {schema schema' : Schema} (hgrows : schema.Grows schema')
    {s : Statement} (h : s.Done schema) : s.Done schema' := by
  cases s with
  | createTable name columns constraints =>
      obtain ⟨item, hitem, htable⟩ := h
      obtain ⟨item', hitem', hsame⟩ := hgrows name item hitem
      exact ⟨item', hitem', hsame.isTable.trans htable⟩
  | createIndex name table columns condition =>
      obtain ⟨⟨item, hitem, hindex⟩, other, hother, htable⟩ := h
      obtain ⟨item', hitem', hsame⟩ := hgrows name item hitem
      obtain ⟨other', hother', hsame'⟩ := hgrows table other hother
      exact ⟨⟨item', hitem', hsame.isTable.trans hindex⟩, other', hother',
        hsame'.isTable.trans htable⟩
  | addColumn table column =>
      obtain ⟨item, hitem, hcolumn⟩ := h
      obtain ⟨item', hitem', hsame⟩ := hgrows table item hitem
      exact ⟨item', hitem', hsame.columnNames hcolumn⟩

/-! ### What a statement does -/

section Statements

variable {schema schema' : Schema} {s : Statement}

theorem Statement.target_mem (s : Statement) : s.target ∈ s.names := by
  cases s <;> simp [target, names]

/-- Nothing counts but the names it looks at. -/
theorem Statement.write_congr (h : ∀ name ∈ s.names, schema name = schema' name) :
    s.write schema = s.write schema' := by
  cases s with
  | createTable name columns constraints => simp only [write, h name (by simp [names])]
  | createIndex name table columns condition =>
      simp only [write, h name (by simp [names]), h table (by simp [names])]
  | addColumn table column => simp only [write, h table (by simp [names])]

theorem Statement.done_congr (h : ∀ name ∈ s.names, schema name = schema' name) :
    s.Done schema ↔ s.Done schema' := by
  cases s with
  | createTable name columns constraints => simp only [Done, h name (by simp [names])]
  | createIndex name table columns condition =>
      simp only [Done, h name (by simp [names]), h table (by simp [names])]
  | addColumn table column => simp only [Done, h table (by simp [names])]

/-- Done again, it is void or refused. -/
theorem Statement.write_of_done (h : s.Done schema) :
    s.write schema = .ok none ∨
      (∃ table column, s = .addColumn table column) ∧ ∃ e, s.write schema = .error e := by
  cases s with
  | createTable name columns constraints =>
      obtain ⟨item, hitem, htable⟩ := h
      cases item with
      | table own others => exact Or.inl (by simp only [write, hitem])
      | index host own condition => cases htable
  | createIndex name table columns condition =>
      obtain ⟨⟨item, hitem, hindex⟩, other, hother, htable⟩ := h
      cases item with
      | table own others => cases hindex
      | index place own others =>
          cases other with
          | table own' others' => exact Or.inl (by simp only [write, hitem, hother])
          | index place' own' others' => cases htable
  | addColumn table column =>
      obtain ⟨item, hitem, hcolumn⟩ := h
      cases item with
      | table own others =>
          have hthere : (own.map Column.name).contains column.name = true :=
            List.contains_iff_mem.mpr hcolumn
          exact Or.inr ⟨⟨table, column, rfl⟩, .duplicateColumn column.name, by
            simp only [write, hitem, hthere, if_true]⟩
      | index place own others => cases hcolumn

/-- What it writes is what it is for, and grows what was there. -/
theorem Statement.write_spec {item : Item} (h : s.write schema = .ok (some item)) :
    s.Done (Function.update schema s.target (some item)) ∧
      ∀ old, schema s.target = some old → old.Grows item := by
  cases s with
  | createTable name columns constraints =>
      simp only [write] at h
      split at h
      · rename_i hnone
        cases h
        refine ⟨⟨_, Function.update_self .., rfl⟩, fun old hold => ?_⟩
        rw [target, hnone] at hold
        cases hold
      · cases h
      · cases h
  | createIndex name table columns condition =>
      simp only [write] at h
      split at h
      · rename_i own constraints htable
        split at h
        · rename_i hnone
          split at h
          · cases h
            have hne : table ≠ name := by
              rintro rfl
              rw [htable] at hnone
              cases hnone
            refine ⟨⟨⟨_, Function.update_self .., rfl⟩, _,
              (Function.update_of_ne hne ..).trans htable, rfl⟩, fun old hold => ?_⟩
            rw [target, hnone] at hold
            cases hold
          · cases h
        · cases h
        · cases h
      · cases h
  | addColumn table column =>
      simp only [write] at h
      split at h
      · rename_i own constraints htable
        -- only a column that is not there is added, so the item grows
        split_ifs at h
        cases h
        refine ⟨⟨_, Function.update_self .., ?_⟩, fun old hold => ?_⟩
        · simp [Item.columnNames]
        · rw [target, htable] at hold
          cases hold
          exact ⟨[column], rfl⟩
      · cases h

/-- A statement that is void finds its item. -/
theorem Statement.done_of_void (h : s.write schema = .ok none) : s.Done schema := by
  cases s with
  | createTable name columns constraints =>
      simp only [write] at h
      split at h
      · cases h
      · rename_i own others htable
        exact ⟨_, htable, rfl⟩
      · cases h
  | createIndex name table columns condition =>
      simp only [write] at h
      split at h
      · rename_i own constraints htable
        split at h
        · split at h <;> cases h
        · rename_i hindex
          exact ⟨⟨_, hindex, rfl⟩, _, htable, rfl⟩
        · cases h
      · cases h
  | addColumn table column =>
      simp only [write] at h
      split at h
      · split_ifs at h
        cases h
      · cases h

/-- **Inversion** of a statement that succeeds. -/
theorem Statement.exec_eq_ok (h : s.exec schema = .ok schema') :
    s.Done schema' ∧ schema.Grows schema' ∧
      (schema' = schema ∨ ∃ item, s.write schema = .ok (some item) ∧
        schema' = Function.update schema s.target (some item)) := by
  unfold exec at h
  split at h
  · cases h
  · rename_i hwrite
    cases h
    exact ⟨done_of_void hwrite, Schema.Grows.refl _, Or.inl rfl⟩
  · rename_i item hwrite
    cases h
    obtain ⟨hdone, hgrows⟩ := write_spec hwrite
    refine ⟨hdone, ?_, Or.inr ⟨item, hwrite, rfl⟩⟩
    intro name old hold
    by_cases hname : name = s.target
    · subst hname
      exact ⟨item, Function.update_self .., hgrows old hold⟩
    · exact ⟨old, (Function.update_of_ne hname ..).trans hold, Item.Grows.refl old⟩

/-- A name it does not look at keeps its item. -/
theorem Statement.exec_frame (h : s.exec schema = .ok schema') {name : String}
    (hname : name ∉ s.names) : schema' name = schema name := by
  rcases (exec_eq_ok h).2.2 with rfl | ⟨item, -, rfl⟩
  · rfl
  · refine Function.update_of_ne (fun heq => hname ?_) ..
    rw [heq]
    exact s.target_mem

theorem Statement.exec_of_done (h : s.Done schema) (hok : s.exec schema = .ok schema') :
    schema' = schema := by
  unfold exec at hok
  rcases write_of_done h with hvoid | ⟨-, e, herror⟩
  · rw [hvoid] at hok
    exact (Except.ok.inj hok).symm
  · rw [herror] at hok
    cases hok

/-- On two schemas that agree on its names, it does the same. -/
theorem Statement.exec_congr {a b a' : Schema} (h : ∀ name ∈ s.names, a name = b name)
    (hexec : s.exec a = .ok a') :
    ∃ b', s.exec b = .ok b' ∧ ∀ name, a name = b name → a' name = b' name := by
  have hwrite := write_congr h
  unfold exec at hexec ⊢
  rw [← hwrite]
  split at hexec
  · cases hexec
  · cases hexec
    exact ⟨b, rfl, fun _ hname => hname⟩
  · rename_i item hsome
    cases hexec
    refine ⟨_, rfl, fun name hname => ?_⟩
    by_cases htarget : name = s.target
    · subst htarget
      rw [Function.update_self, Function.update_self]
    · rw [Function.update_of_ne htarget, Function.update_of_ne htarget, hname]

end Statements
/-! ### Scripts -/

/-- The statements of some migrations, one after the other. -/
def script (migrations : List Migration) : List Statement := migrations.flatMap Migration.up

/-- The schema that a script makes of another. -/
def buildOn (schema : Schema) (stmts : List Statement) : Schema :=
  stmts.foldl (fun schema s => (s.exec schema).toOption.getD schema) schema

/-- The schema that a script makes of a new file. -/
def build (stmts : List Statement) : Schema := buildOn emptyDb.schema stmts

/-- Every statement goes through. -/
def Succeeds : Schema → List Statement → Prop
  | _, [] => True
  | schema, s :: rest =>
      match s.exec schema with
      | .ok schema' => Succeeds schema' rest
      | .error _ => False

instance Succeeds.decidable : ∀ schema stmts, Decidable (Succeeds schema stmts)
  | _, [] => inferInstanceAs (Decidable True)
  | schema, s :: rest =>
      match h : s.exec schema with
      | .ok schema' =>
          have := Succeeds.decidable schema' rest
          decidable_of_iff (Succeeds schema' rest) (by simp [Succeeds, h])
      | .error _ => .isFalse (by simp [Succeeds, h])

section Scripts

variable {schema : Schema} {s : Statement}

theorem buildOn_append (schema : Schema) (a b : List Statement) :
    buildOn schema (a ++ b) = buildOn (buildOn schema a) b := List.foldl_append

theorem buildOn_grows (schema : Schema) (stmts : List Statement) :
    schema.Grows (buildOn schema stmts) := by
  induction stmts generalizing schema with
  | nil => exact Schema.Grows.refl schema
  | cons s rest ih =>
      refine Schema.Grows.trans ?_ (ih _)
      show schema.Grows ((s.exec schema).toOption.getD schema)
      cases hexec : s.exec schema with
      | error e => exact Schema.Grows.refl schema
      | ok schema' => exact (Statement.exec_eq_ok hexec).2.1

theorem Succeeds.exec {pre post : List Statement} (h : Succeeds schema (pre ++ s :: post)) :
    s.exec (buildOn schema pre) = .ok (buildOn schema (pre ++ [s])) := by
  induction pre generalizing schema with
  | nil =>
      simp only [List.nil_append, Succeeds] at h
      split at h
      · rename_i schema' hexec
        simp [buildOn, hexec, Except.toOption]
      · exact h.elim
  | cons first rest ih =>
      simp only [List.cons_append, Succeeds] at h
      split at h
      · rename_i schema' hexec
        have hfirst : buildOn schema [first] = schema' := by simp [buildOn, hexec, Except.toOption]
        have hnext := ih h
        rw [← hfirst, ← buildOn_append, ← buildOn_append] at hnext
        exact hnext
      · exact h.elim

/-- From its statement on, an item is there. -/
theorem Succeeds.done {pre post : List Statement} (h : Succeeds schema (pre ++ s :: post))
    (mid : List Statement) : s.Done (buildOn schema (pre ++ s :: mid)) := by
  have hdone := (Statement.exec_eq_ok h.exec).1
  rw [show pre ++ s :: mid = (pre ++ [s]) ++ mid by simp, buildOn_append]
  exact hdone.grows (buildOn_grows _ mid)

end Scripts

/-- Migrations that can be shipped: their versions ascend from 1 on, and on a new file they
all go through. -/
structure Sound (migrations : List Migration) : Prop where
  ordered : migrations.Pairwise fun a b => a.version < b.version
  positive : ∀ m ∈ migrations, 0 < m.version
  succeeds : Succeeds emptyDb.schema (script migrations)

def namesOf (migrations : List Migration) : List String :=
  (script migrations).flatMap Statement.names

/-- Owners can share a file: none has a name of another, or the table of versions. -/
structure Apart (lists : String → List Migration) : Prop where
  others : ∀ owner other, owner ≠ other → ∀ name ∈ namesOf (lists owner), name ∉ namesOf (lists other)
  versions : ∀ owner, "schema_version" ∉ namesOf (lists owner)

/-! ### Two numbers for each owner -/

/-- How many statements have taken effect, and how many migrations are recorded. -/
structure Progress (migrations : List Migration) where
  built : Nat
  recorded : Nat
  built_le : built ≤ (script migrations).length
  recorded_le : recorded ≤ migrations.length
  covered : (script (migrations.take recorded)).length ≤ built

/-- The statements of the recorded migrations have taken effect. -/
theorem Progress.covers {migrations pre post : List Migration} (p : Progress migrations)
    (h : migrations = pre ++ post) (hle : pre.length ≤ p.recorded) :
    (script pre).length ≤ p.built := by
  subst h
  have hprefix : pre <+: (pre ++ post).take p.recorded :=
    List.prefix_take_iff.mpr ⟨List.prefix_append pre post, hle⟩
  obtain ⟨more, hmore⟩ := hprefix
  refine le_trans ?_ p.covered
  rw [← hmore]
  simp [script]

/-- The file of an owner that has got so far: `built` statements of its script have taken effect,
and `recorded` migrations have their row. The two are apart while a migration is under way or was
stopped. -/
structure Follows (owner : String) (migrations : List Migration) (p : Progress migrations)
    (db : Db) : Prop where
  schema : ∀ name ∈ namesOf migrations, db.schema name = build ((script migrations).take p.built) name
  rows : ∀ version name,
    (∃ row ∈ db.versions, row.owner = owner ∧ row.version = version ∧ row.name = name) ↔
      ∃ m ∈ migrations.take p.recorded, m.version = version ∧ m.name = name

variable {lists : String → List Migration}

/-- The file of all its owners: each has got as far as `progress` says. The owners share the file
and the table of versions, and nothing else. -/
def Agrees (progress : ∀ owner, Progress (lists owner)) (db : Db) : Prop :=
  ∀ owner, Follows owner (lists owner) (progress owner) db

/-- Every owner has got at least as far. -/
def Ahead (progress progress' : ∀ owner, Progress (lists owner)) : Prop :=
  ∀ owner, (progress owner).built ≤ (progress' owner).built ∧
    (progress owner).recorded ≤ (progress' owner).recorded

theorem Ahead.refl (progress : ∀ owner, Progress (lists owner)) : Ahead progress progress :=
  fun _ => ⟨Nat.le_refl _, Nat.le_refl _⟩

theorem Ahead.trans {a b c : ∀ owner, Progress (lists owner)} (hab : Ahead a b) (hbc : Ahead b c) :
    Ahead a c :=
  fun owner => ⟨(hab owner).1.trans (hbc owner).1, (hab owner).2.trans (hbc owner).2⟩

/-- Nothing is there yet. -/
def unstarted (owner : String) : Progress (lists owner) :=
  ⟨0, 0, Nat.zero_le _, Nat.zero_le _, Nat.zero_le _⟩

section Steps

variable {progress : ∀ owner, Progress (lists owner)} {db : Db} {owner : String}

/-- What stands before the cut, and what stands behind it. -/
theorem mem_take_of_lt {α : Type} {xs pre post : List α} {x : α} {n : Nat}
    (h : xs = pre ++ x :: post) (hn : pre.length < n) : x ∈ xs.take n := by
  subst h
  obtain ⟨k, hk⟩ : ∃ k, n - pre.length = k + 1 := Nat.exists_eq_succ_of_ne_zero (by omega)
  rw [List.take_append, hk, List.take_succ_cons]
  simp

theorem mem_of_mem_take_of_le {α : Type} {xs pre post : List α} {y : α} {n : Nat}
    (h : xs = pre ++ post) (hn : n ≤ pre.length) (hy : y ∈ xs.take n) : y ∈ pre := by
  subst h
  rw [List.take_append_of_le_length hn] at hy
  exact List.mem_of_mem_take hy

theorem names_of_script {migrations : List Migration} {pre post : List Statement} {s : Statement}
    (h : script migrations = pre ++ s :: post) {name : String} (hname : name ∈ s.names) :
    name ∈ namesOf migrations := by
  rw [namesOf, h]
  exact List.mem_flatMap.mpr ⟨s, by simp, hname⟩

/-- A statement that has taken effect is done. -/
theorem Agrees.done (h : Agrees progress db) (hsound : Sound (lists owner))
    {pre post : List Statement} {s : Statement} (hscript : script (lists owner) = pre ++ s :: post)
    (hbuilt : pre.length < (progress owner).built) : s.Done db.schema := by
  have hsame : ∀ name ∈ s.names,
      db.schema name = build ((script (lists owner)).take (progress owner).built) name :=
    fun name hname => (h owner).schema name (names_of_script hscript hname)
  rw [Statement.done_congr hsame, hscript]
  obtain ⟨n, hn⟩ := Nat.exists_eq_add_of_lt hbuilt
  have htake : (pre ++ s :: post).take (progress owner).built = pre ++ s :: post.take n := by
    rw [hn, List.take_append, List.take_of_length_le (by omega),
      show pre.length + n + 1 - pre.length = n + 1 by omega, List.take_succ_cons]
  rw [htake]
  have hsucceeds := hsound.succeeds
  rw [hscript] at hsucceeds
  exact hsucceeds.done _

/-- The next statement goes through. -/
theorem Agrees.exec_next (h : Agrees progress db) (hsound : Sound (lists owner))
    {pre post : List Statement} {s : Statement} (hscript : script (lists owner) = pre ++ s :: post)
    (hbuilt : (progress owner).built = pre.length) :
    ∃ schema', s.exec db.schema = .ok schema' ∧
      ∀ name ∈ namesOf (lists owner), schema' name = build (pre ++ [s]) name := by
  have hpre : (script (lists owner)).take (progress owner).built = pre := by
    rw [hscript, hbuilt, List.take_left]
  have hsame : ∀ name ∈ namesOf (lists owner), build pre name = db.schema name := by
    intro name hname
    rw [(h owner).schema name hname, hpre]
  have hsucceeds := hsound.succeeds
  rw [hscript] at hsucceeds
  obtain ⟨schema', hexec, hafter⟩ := Statement.exec_congr
    (fun name hname => hsame name (names_of_script hscript hname)) hsucceeds.exec
  exact ⟨schema', hexec, fun name hname => (hafter name (hsame name hname)).symm⟩

theorem mem_columnsOf {db : Db} {table : String} {column : Column} :
    column.name ∈ columnsOf db table ↔ (Statement.addColumn table column).Done db.schema := by
  unfold columnsOf
  constructor
  · intro hthere
    split at hthere
    · rename_i columns constraints htable
      exact ⟨_, htable, hthere⟩
    · cases hthere
  · rintro ⟨item, hitem, hcolumn⟩
    cases item with
    | table columns constraints =>
        rw [hitem]
        exact hcolumn
    | index host columns condition => cases hcolumn

/-- A column that is there has been added. -/
theorem Agrees.column (h : Agrees progress db) (hsound : Sound (lists owner))
    {pre post : List Statement} {table : String} {column : Column}
    (hscript : script (lists owner) = pre ++ .addColumn table column :: post)
    (hbuilt : pre.length ≤ (progress owner).built) (hthere : column.name ∈ columnsOf db table) :
    pre.length < (progress owner).built := by
  by_contra hnot
  obtain ⟨schema', hexec, -⟩ := h.exec_next hsound hscript (by omega)
  obtain ⟨item, hitem, hcolumn⟩ := mem_columnsOf.mp hthere
  cases item with
  | table columns constraints =>
      have hduplicate : (columns.map Column.name).contains column.name = true :=
        List.contains_iff_mem.mpr hcolumn
      simp only [Statement.exec, Statement.write, hitem, hduplicate, if_true] at hexec
      cases hexec
  | index host columns condition => cases hcolumn

/-- A statement that has taken effect, or is the next one, goes through; only a column must
not be added twice. -/
theorem Agrees.exec_ok (h : Agrees progress db) (hsound : Sound (lists owner))
    {pre post : List Statement} {s : Statement} (hscript : script (lists owner) = pre ++ s :: post)
    (hbuilt : pre.length ≤ (progress owner).built)
    (hnew : ∀ table column, s = .addColumn table column → column.name ∉ columnsOf db table) :
    ∃ schema', s.exec db.schema = .ok schema' := by
  rcases Nat.lt_or_eq_of_le hbuilt with hlt | heq
  · have hdone := h.done hsound hscript hlt
    rcases Statement.write_of_done hdone with hvoid | ⟨⟨table, column, rfl⟩, -⟩
    · exact ⟨db.schema, by simp only [Statement.exec, hvoid]⟩
    · exact absurd (mem_columnsOf.mpr hdone) (hnew table column rfl)
  · obtain ⟨schema', hexec, -⟩ := h.exec_next hsound hscript heq.symm
    exact ⟨schema', hexec⟩

/-- **A statement that succeeds**: it has taken effect before, or is the next one. -/
theorem Agrees.exec (h : Agrees progress db) (hsound : Sound (lists owner)) (hapart : Apart lists)
    {pre post : List Statement} {s : Statement} (hscript : script (lists owner) = pre ++ s :: post)
    (hbuilt : pre.length ≤ (progress owner).built) {schema' : Schema}
    (hexec : s.exec db.schema = .ok schema') :
    ∃ progress', Agrees progress' { db with schema := schema' } ∧ Ahead progress progress' ∧
      pre.length + 1 ≤ (progress' owner).built ∧
      (progress' owner).recorded = (progress owner).recorded := by
  rcases Nat.lt_or_eq_of_le hbuilt with hlt | heq
  · have hvoid := Statement.exec_of_done (h.done hsound hscript hlt) hexec
    rw [hvoid]
    exact ⟨progress, h, Ahead.refl _, hlt, rfl⟩
  · obtain ⟨schema'', hnext, hbuild⟩ := h.exec_next hsound hscript heq.symm
    obtain rfl := Except.ok.inj (hexec.symm.trans hnext)
    have hle : pre.length + 1 ≤ (script (lists owner)).length := by
      rw [hscript, List.length_append, List.length_cons]
      omega
    have hcovered := (progress owner).covered
    let next : Progress (lists owner) :=
      ⟨pre.length + 1, (progress owner).recorded, hle, (progress owner).recorded_le, by omega⟩
    refine ⟨Function.update progress owner next, ?_, ?_, ?_, ?_⟩
    · intro other
      by_cases hother : other = owner
      · subst hother
        rw [Function.update_self]
        refine ⟨fun name hname => ?_, (h other).rows⟩
        show schema' name = build ((script (lists other)).take (pre.length + 1)) name
        rw [hbuild name hname, hscript, show pre ++ s :: post = (pre ++ [s]) ++ post by simp,
          show pre.length + 1 = (pre ++ [s]).length by simp, List.take_left]
      · rw [Function.update_of_ne hother]
        refine ⟨fun name hname => ?_, (h other).rows⟩
        have hforeign : name ∉ s.names := fun hmine =>
          hapart.others owner other (Ne.symm hother) name (names_of_script hscript hmine) hname
        exact (Statement.exec_frame hexec hforeign).trans ((h other).schema name hname)
    · intro other
      by_cases hother : other = owner
      · subst hother
        rw [Function.update_self]
        show (progress other).built ≤ pre.length + 1 ∧ _
        exact ⟨by omega, Nat.le_refl _⟩
      · rw [Function.update_of_ne hother]
        exact ⟨Nat.le_refl _, Nat.le_refl _⟩
    · rw [Function.update_self]
    · rw [Function.update_self]

/-- The table of versions is nobody's. -/
theorem Agrees.createVersions (h : Agrees progress db) (hapart : Apart lists) {schema' : Schema}
    (hexec : createVersions.exec db.schema = .ok schema') :
    Agrees progress { db with schema := schema' } := by
  intro other
  refine ⟨fun name hname => ?_, (h other).rows⟩
  have hforeign : name ∉ DbMigrate.createVersions.names := by
    intro hmine
    rw [List.mem_singleton.mp hmine] at hname
    exact hapart.versions other hname
  exact (Statement.exec_frame hexec hforeign).trans ((h other).schema name hname)

/-- A version that is recorded cannot be recorded again; **a version that can be recorded**
is the next one. -/
theorem Agrees.record (h : Agrees progress db) {pre post : List Migration} {m : Migration}
    (hlist : lists owner = pre ++ m :: post) (hrecorded : pre.length ≤ (progress owner).recorded)
    (hbuilt : (script (pre ++ [m])).length ≤ (progress owner).built) {now : Int}
    {versions' : Table VersionRow.key}
    (hinsert : db.versions.insert ⟨owner, m.version, m.name, now⟩ = some versions') :
    ∃ progress', Agrees progress' { db with versions := versions' } ∧ Ahead progress progress' ∧
      (progress' owner).built = (progress owner).built ∧
      (progress' owner).recorded = pre.length + 1 := by
  obtain ⟨hfree, hrows⟩ := Table.insert_eq_some hinsert
  -- if it were recorded already, the primary key would have refused the row
  have hnext : (progress owner).recorded = pre.length := by
    by_contra hne
    have hmem : m ∈ (lists owner).take (progress owner).recorded :=
      mem_take_of_lt hlist (by omega)
    obtain ⟨row, hrow, howner, hversion, -⟩ :=
      ((h owner).rows m.version m.name).mpr ⟨m, hmem, rfl, rfl⟩
    have htaken : db.versions.has (owner, m.version) = true :=
      Table.has_iff.mpr ⟨row, hrow, by rw [VersionRow.key, howner, hversion]⟩
    exact Bool.noConfusion (htaken.symm.trans hfree)
  have htake : (lists owner).take (pre.length + 1) = pre ++ [m] := by
    rw [hlist, show pre ++ m :: post = (pre ++ [m]) ++ post by simp,
      show pre.length + 1 = (pre ++ [m]).length by simp, List.take_left]
  have hle : pre.length + 1 ≤ (lists owner).length := by
    rw [hlist, List.length_append, List.length_cons]
    omega
  let next : Progress (lists owner) :=
    ⟨(progress owner).built, pre.length + 1, (progress owner).built_le, hle, by rwa [htake]⟩
  refine ⟨Function.update progress owner next, ?_, ?_, ?_, ?_⟩
  · intro other
    by_cases hother : other = owner
    · subst hother
      rw [Function.update_self]
      refine ⟨(h other).schema, fun version name => ?_⟩
      show _ ↔ ∃ m' ∈ (lists other).take (pre.length + 1), _
      have hbefore : (lists other).take (progress other).recorded = pre := by
        rw [hnext, hlist, List.take_left]
      have hold := (h other).rows version name
      rw [hbefore] at hold
      rw [htake]
      constructor
      · rintro ⟨row, hrow, howner, hversion, hname⟩
        rcases (hrows row).mp hrow with hrow | rfl
        · obtain ⟨m', hm', hsame⟩ := hold.mp ⟨row, hrow, howner, hversion, hname⟩
          exact ⟨m', List.mem_append_left _ hm', hsame⟩
        · exact ⟨m, by simp, hversion, hname⟩
      · rintro ⟨m', hm', hversion, hname⟩
        rcases List.mem_append.mp hm' with hm' | hm'
        · obtain ⟨row, hrow, hsame⟩ := hold.mpr ⟨m', hm', hversion, hname⟩
          exact ⟨row, (hrows row).mpr (Or.inl hrow), hsame⟩
        · obtain rfl := List.mem_singleton.mp hm'
          exact ⟨_, (hrows _).mpr (Or.inr rfl), rfl, hversion, hname⟩
    · rw [Function.update_of_ne hother]
      refine ⟨(h other).schema, fun version name => ?_⟩
      rw [← (h other).rows version name]
      constructor
      · rintro ⟨row, hrow, howner, hsame⟩
        rcases (hrows row).mp hrow with hrow | rfl
        · exact ⟨row, hrow, howner, hsame⟩
        · exact absurd howner.symm hother
      · rintro ⟨row, hrow, howner, hsame⟩
        exact ⟨row, (hrows row).mpr (Or.inl hrow), howner, hsame⟩
  · intro other
    by_cases hother : other = owner
    · subst hother
      rw [Function.update_self]
      show _ ∧ (progress other).recorded ≤ pre.length + 1
      exact ⟨Nat.le_refl _, by omega⟩
    · rw [Function.update_of_ne hother]
      exact ⟨Nat.le_refl _, Nat.le_refl _⟩
  · rw [Function.update_self]
  · rw [Function.update_self]

/-- The next version can be recorded. -/
theorem Agrees.insert_next (h : Agrees progress db) (hsound : Sound (lists owner))
    {pre post : List Migration} {m : Migration} (hlist : lists owner = pre ++ m :: post)
    (hrecorded : (progress owner).recorded = pre.length) (now : Int) :
    ∃ versions', db.versions.insert ⟨owner, m.version, m.name, now⟩ = some versions' := by
  have hfree : db.versions.has (owner, m.version) = false := by
    rw [Bool.eq_false_iff]
    intro htaken
    obtain ⟨row, hrow, hkey⟩ := Table.has_iff.mp htaken
    obtain ⟨howner, hversion⟩ := Prod.mk.inj hkey
    obtain ⟨m', hm', hsame, -⟩ :=
      ((h owner).rows row.version row.name).mp ⟨row, hrow, howner, rfl, rfl⟩
    rw [hrecorded, hlist, List.take_left] at hm'
    have hordered := hsound.ordered
    rw [hlist, List.pairwise_append] at hordered
    have hlt := hordered.2.2 m' hm' m List.mem_cons_self
    omega
  exact ⟨_, dif_pos hfree⟩

/-- Up to the recorded version. -/
theorem le_highWater_iff {v : Nat} (hv : 0 < v) :
    v ≤ highWater db owner ↔ ∃ row ∈ db.versions, row.owner = owner ∧ v ≤ row.version := by
  have hmem : ∀ w, w ∈ (db.versions.select fun row => row.owner == owner).map VersionRow.version ↔
      ∃ row ∈ db.versions, row.owner = owner ∧ row.version = w := by
    intro w
    rw [List.mem_map]
    constructor
    · rintro ⟨row, hrow, rfl⟩
      obtain ⟨hrow, howner⟩ := Table.mem_select.mp hrow
      exact ⟨row, hrow, eq_of_beq howner, rfl⟩
    · rintro ⟨row, hrow, howner, rfl⟩
      exact ⟨row, Table.mem_select.mpr ⟨hrow, beq_iff_eq.mpr howner⟩, rfl⟩
  unfold highWater
  generalize (db.versions.select fun row => row.owner == owner).map VersionRow.version = recorded
    at hmem ⊢
  cases hmax : recorded.max? with
  | none =>
      obtain rfl := List.max?_eq_none_iff.mp hmax
      constructor
      · intro hle
        rw [Option.getD_none] at hle
        omega
      · rintro ⟨row, hrow, howner, -⟩
        cases (hmem row.version).mpr ⟨row, hrow, howner, rfl⟩
  | some top =>
      obtain ⟨htop, hbound⟩ := List.max?_eq_some_iff.mp hmax
      rw [Option.getD_some]
      constructor
      · intro hle
        obtain ⟨row, hrow, howner, rfl⟩ := (hmem top).mp htop
        exact ⟨row, hrow, howner, hle⟩
      · rintro ⟨row, hrow, howner, hle⟩
        exact hle.trans (hbound _ ((hmem _).mpr ⟨row, hrow, howner, rfl⟩))

/-- **What is read is how far the migrations are.** -/
theorem Agrees.le_highWater_iff (h : Agrees progress db) (hsound : Sound (lists owner))
    {pre post : List Migration} {m : Migration} (hlist : lists owner = pre ++ m :: post) :
    m.version ≤ highWater db owner ↔ pre.length < (progress owner).recorded := by
  have hmem : m ∈ lists owner := by
    rw [hlist]
    simp
  rw [DbMigrate.le_highWater_iff (hsound.positive m hmem)]
  have hordered := hsound.ordered
  constructor
  · rintro ⟨row, hrow, howner, hle⟩
    obtain ⟨m', hm', hversion, -⟩ :=
      ((h owner).rows row.version row.name).mp ⟨row, hrow, howner, rfl, rfl⟩
    -- A migration among the recorded ones that is not before this one.
    by_contra hnot
    have hbefore : m' ∈ pre := mem_of_mem_take_of_le hlist (by omega) hm'
    rw [hlist, List.pairwise_append] at hordered
    have hlt := hordered.2.2 m' hbefore m List.mem_cons_self
    omega
  · intro hlt
    have hrecorded : m ∈ (lists owner).take (progress owner).recorded := mem_take_of_lt hlist hlt
    obtain ⟨row, hrow, howner, hversion, -⟩ :=
      ((h owner).rows m.version m.name).mpr ⟨m, hrecorded, rfl, rfl⟩
    exact ⟨row, hrow, howner, hversion.ge⟩

end Steps
end DbMigrate
end Artifacts
