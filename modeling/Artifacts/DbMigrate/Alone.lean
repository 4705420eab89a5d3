import Artifacts.DbMigrate.Convergence
import Artifacts.DbMigrate.Shipped

/-!
# The next opening

An opening that is left alone completes its owner's migrations, wherever the openings
before it have stopped, and touches nothing else.

The result on runs is put together here as well, from the invariant `Reached` of every moment.
It covers any number of processes with older and newer builds, statements that fail, and
processes that stop anywhere.  A build that changes a migration it has shipped is left out:
the lists of two builds are prefixes of one list.
-/

namespace Artifacts
namespace DbMigrate

open Foundation

variable {lists : String → List Migration}

/-! ### An opening that is left alone -/

/-- Nothing fails. -/
def quiet (now : Int) : Weather := ⟨false, none, now⟩

section Alone

variable {progress : ∀ owner, Progress (lists owner)} {owner : String} {db : Db} (now : Int)

theorem handle_quiet_exec {s : Statement} {schema' : Schema} (h : s.exec db.schema = .ok schema') :
    handle (quiet now) (.exec s) db = (.ok (), { db with schema := schema' }) := by
  simp only [handle, quiet, h]
  rfl

theorem handle_quiet_record {version : Nat} {name : String} {versions' : Table VersionRow.key}
    (hversions : hasVersions db = true)
    (h : db.versions.insert ⟨owner, version, name, now⟩ = some versions') :
    handle (quiet now) (.record owner version name) db =
      (.ok (), { db with versions := versions' }) := by
  simp only [handle, quiet, hversions, h, if_true]
  rfl

variable (hsound : ∀ owner, Sound (lists owner)) (hapart : Apart lists)
include hsound hapart

theorem apply_alone {pre post : List Statement} {s : Statement}
    (hscript : script (lists owner) = pre ++ s :: post) (h : Agrees progress db)
    (hbuilt : pre.length ≤ (progress owner).built) :
    ∃ (db' : Db) (progress' : ∀ owner, Progress (lists owner)),
      (apply s).run (handle (quiet now)) db = (.ok (), db') ∧ Agrees progress' db' ∧
        db.schema.Grows db'.schema ∧ pre.length + 1 ≤ (progress' owner).built ∧
        (progress' owner).recorded = (progress owner).recorded := by
  have hexec : (∀ table column, s = .addColumn table column → column.name ∉ columnsOf db table) →
      ∃ (db' : Db) (progress' : ∀ owner, Progress (lists owner)),
        (Sql.ask (.exec s)).run (handle (quiet now)) db = (.ok (), db') ∧ Agrees progress' db' ∧
          db.schema.Grows db'.schema ∧ pre.length + 1 ≤ (progress' owner).built ∧
          (progress' owner).recorded = (progress owner).recorded := by
    intro hnew
    obtain ⟨schema', hok⟩ := h.exec_ok (hsound owner) hscript hbuilt hnew
    obtain ⟨progress', hagrees, -, hmore, hsame⟩ :=
      h.exec (hsound owner) hapart hscript hbuilt hok
    exact ⟨_, progress', handle_quiet_exec now hok, hagrees, (Statement.exec_eq_ok hok).2.1, hmore,
      hsame⟩
  cases s with
  | createTable name columns constraints =>
      apply hexec
      intro table column heq
      cases heq
  | createIndex name host columns condition =>
      apply hexec
      intro table column heq
      cases heq
  | addColumn table column =>
      have hrun : (apply (.addColumn table column)).run (handle (quiet now)) db =
          ((if (columnsOf db table).contains column.name then .ret (.ok ())
            else Sql.ask (.exec (.addColumn table column)) : Opening)).run (handle (quiet now)) db := by
        rfl
      rw [hrun]
      by_cases hthere : (columnsOf db table).contains column.name = true
      · rw [if_pos hthere]
        exact ⟨db, progress, rfl, h, Schema.Grows.refl _,
          h.column (hsound owner) hscript hbuilt (List.contains_iff_mem.mp hthere), rfl⟩
      · rw [if_neg hthere]
        apply hexec
        intro table' column' heq
        cases heq
        exact fun hmem => hthere (List.contains_iff_mem.mpr hmem)

theorem applyAll_alone {pre stmts post : List Statement}
    (hscript : script (lists owner) = pre ++ stmts ++ post) (h : Agrees progress db)
    (hbuilt : pre.length ≤ (progress owner).built) :
    ∃ (db' : Db) (progress' : ∀ owner, Progress (lists owner)),
      (applyAll stmts).run (handle (quiet now)) db = (.ok (), db') ∧ Agrees progress' db' ∧
        db.schema.Grows db'.schema ∧ pre.length + stmts.length ≤ (progress' owner).built ∧
        (progress' owner).recorded = (progress owner).recorded := by
  induction stmts generalizing pre db progress with
  | nil => exact ⟨db, progress, rfl, h, Schema.Grows.refl _, hbuilt, rfl⟩
  | cons s rest ih =>
      have hone : script (lists owner) = pre ++ s :: (rest ++ post) := by
        rw [hscript]
        simp
      have hnext : script (lists owner) = (pre ++ [s]) ++ rest ++ post := by
        rw [hscript]
        simp
      obtain ⟨db₁, progress₁, hrun, hagrees, hgrows, hmore, hsame⟩ :=
        apply_alone now hsound hapart hone h hbuilt
      have hlength : (pre ++ [s]).length = pre.length + 1 := by simp
      obtain ⟨db₂, progress₂, hrun', hagrees', hgrows', hmore', hsame'⟩ :=
        ih hnext hagrees (by omega)
      refine ⟨db₂, progress₂, ?_, hagrees', hgrows.trans hgrows', ?_, hsame'.trans hsame⟩
      · rw [applyAll, Program.run_andThen, hrun]
        exact hrun'
      · rw [List.length_cons]
        omega

omit hsound hapart in
theorem hasVersions_grows {db' : Db} (hgrows : db.schema.Grows db'.schema)
    (h : hasVersions db = true) : hasVersions db' = true := by
  unfold hasVersions at h ⊢
  obtain ⟨item, hitem⟩ := Option.isSome_iff_exists.mp h
  obtain ⟨item', hitem', -⟩ := hgrows _ item hitem
  rw [hitem']
  rfl

/-- The pending migrations are those that are not recorded. -/
theorem runPending_alone {current recorded : Nat} {pre rest : List Migration}
    (hlist : lists owner = pre ++ rest) (h : Agrees progress db)
    (hbuilt : (script pre).length ≤ (progress owner).built)
    (hrecorded : (progress owner).recorded = max recorded pre.length)
    (hcurrent : ∀ before m after, lists owner = before ++ m :: after →
      (m.version ≤ current ↔ before.length < recorded))
    (hversions : hasVersions db = true) :
    ∃ (db' : Db) (progress' : ∀ owner, Progress (lists owner)),
      (runPending owner current rest).run (handle (quiet now)) db = (.ok (), db') ∧
        Agrees progress' db' ∧ (lists owner).length ≤ (progress' owner).recorded := by
  induction rest generalizing pre db progress with
  | nil =>
      refine ⟨db, progress, rfl, h, ?_⟩
      rw [hrecorded, hlist, List.append_nil]
      exact le_max_right _ _
  | cons m rest ih =>
      have hnext : lists owner = (pre ++ [m]) ++ rest := by
        rw [hlist]
        simp
      have hlength : (pre ++ [m]).length = pre.length + 1 := by simp
      rw [runPending]
      split_ifs with hskip
      · have hlt := (hcurrent pre m rest hlist).mp hskip
        exact ih hnext h ((progress owner).covers hnext (by omega)) (by omega) hversions
      · have hnot : ¬ pre.length < recorded := fun hlt => hskip ((hcurrent pre m rest hlist).mpr hlt)
        have hscript : script (lists owner) = script pre ++ m.up ++ script rest := by
          rw [hlist]
          simp [script]
        obtain ⟨db₁, progress₁, hrun, hagrees, hgrows, hmore, hsame⟩ :=
          applyAll_alone now hsound hapart hscript h hbuilt
        have hbuilt₁ : (script (pre ++ [m])).length ≤ (progress₁ owner).built := by
          have hsum : (script (pre ++ [m])).length = (script pre).length + m.up.length := by
            simp [script]
          omega
        -- nobody else records anything meanwhile, so the row of this one is free
        have hrecorded₁ : (progress₁ owner).recorded = pre.length := by omega
        have hversions₁ := hasVersions_grows hgrows hversions
        obtain ⟨versions', hinsert⟩ :=
          hagrees.insert_next (hsound owner) hlist hrecorded₁ now
        obtain ⟨progress₂, hagrees₂, -, hkept, hrecorded₂⟩ :=
          hagrees.record hlist (by omega) hbuilt₁ hinsert
        obtain ⟨db₃, progress₃, hrun₃, hagrees₃, hfull⟩ :=
          ih hnext hagrees₂ (by omega) (by omega) hversions₁
        refine ⟨db₃, progress₃, ?_, hagrees₃, hfull⟩
        have hrecord : (Sql.ask (.record owner m.version m.name)).run (handle (quiet now)) db₁ =
            (.ok (), { db₁ with versions := versions' }) :=
          handle_quiet_record now hversions₁ hinsert
        rw [Program.run_andThen, hrun]
        dsimp only
        rw [Program.run_andThen, hrecord]
        exact hrun₃

/-- **An opening that is left alone** completes the migrations. -/
theorem openWithMigrations_alone (h : Agrees progress db) (hfree : Unclaimed db) :
    ∃ (db' : Db) (progress' : ∀ owner, Progress (lists owner)),
      (openWithMigrations owner (lists owner)).run (handle (quiet now)) db = (.ok (), db') ∧
        Agrees progress' db' ∧ (lists owner).length ≤ (progress' owner).recorded := by
  obtain ⟨schema', hexec⟩ : ∃ schema', createVersions.exec db.schema = .ok schema' := by
    cases hitem : db.schema "schema_version" with
    | none => exact ⟨_, by simp only [createVersions, Statement.exec, Statement.write, hitem]; rfl⟩
    | some item =>
        cases item with
        | table columns constraints =>
            exact ⟨db.schema, by simp only [createVersions, Statement.exec, Statement.write, hitem]⟩
        | index host columns condition => cases hfree _ hitem
  have hversions : hasVersions { db with schema := schema' } = true := by
    obtain ⟨item, hitem, -⟩ := (Statement.exec_eq_ok hexec).1
    exact Option.isSome_iff_exists.mpr ⟨item, hitem⟩
  have hagrees := h.createVersions hapart hexec
  obtain ⟨db', progress', hrun, hagrees', hfull⟩ :=
    runPending_alone now hsound hapart (List.nil_append _).symm hagrees (Nat.zero_le _)
      (Nat.max_eq_left (Nat.zero_le _)).symm
      (fun _ _ _ hlist => hagrees.le_highWater_iff (hsound owner) hlist) hversions
  refine ⟨db', progress', ?_, hagrees', hfull⟩
  have hcreated : (Sql.ask (.exec createVersions)).run (handle (quiet now)) db =
      (.ok (), { db with schema := schema' }) := handle_quiet_exec now hexec
  have hread : (Sql.ask (.maxVersion owner)).run (handle (quiet now)) { db with schema := schema' } =
      (.ok (highWater { db with schema := schema' } owner), { db with schema := schema' }) := by
    show handle (quiet now) (.maxVersion owner) _ = _
    simp only [handle, quiet, hversions, if_true]
    rfl
  show (run owner (lists owner)).run (handle (quiet now)) db = _
  rw [run, Program.run_andThen, hcreated]
  dsimp only
  rw [Program.run_bind, hread]
  exact hrun

end Alone
/-! ### What an opening leaves alone -/

/-- It stays with the names of its own migrations, the table of versions, and its own rows. -/
def Sql.Within (owner : String) (migrations : List Migration) : Sql → Prop
  | .exec s => ∀ name ∈ s.names, name ∈ namesOf migrations ∨ name = "schema_version"
  | .record other _ _ => other = owner
  | .connect | .pragmas | .maxVersion _ | .tableInfo _ => True

/-- Only the owner's part of the file changes: the items of its migrations and its rows of
`schema_version`. Other owners keep theirs, so the opening of one says nothing new about another. -/
structure Spares (owner : String) (migrations : List Migration) (db db' : Db) : Prop where
  schema : ∀ name, name ∉ namesOf migrations → name ≠ "schema_version" →
    db'.schema name = db.schema name
  rows : ∀ row, row.owner ≠ owner → (row ∈ db'.versions ↔ row ∈ db.versions)

section Frame

variable {owner : String} {migrations : List Migration}

theorem Spares.refl (db : Db) : Spares owner migrations db db :=
  ⟨fun _ _ _ => rfl, fun _ _ => Iff.rfl⟩

theorem Spares.trans {a b c : Db} (hab : Spares owner migrations a b)
    (hbc : Spares owner migrations b c) : Spares owner migrations a c :=
  ⟨fun name hname hother => (hbc.schema name hname hother).trans (hab.schema name hname hother),
    fun row hrow => (hbc.rows row hrow).trans (hab.rows row hrow)⟩

theorem handle_spares (w : Weather) (op : Sql) (db : Db) (h : op.Within owner migrations) :
    Spares owner migrations db (handle w op db).2 := by
  cases op with
  | connect => exact Spares.refl db
  | pragmas => exact Spares.refl db
  | maxVersion other => exact Spares.refl db
  | tableInfo table => exact Spares.refl db
  | exec s =>
      rcases handle_exec w db s with ⟨e, hanswer⟩ | ⟨schema', hexec, hanswer⟩
      · rw [hanswer]
        exact Spares.refl db
      · rw [hanswer]
        refine ⟨fun name hname hother => Statement.exec_frame hexec fun hmine => ?_, fun _ _ => Iff.rfl⟩
        exact (h name hmine).elim hname hother
  | record other version name =>
      rcases handle_record w db other version name with ⟨e, hanswer⟩ | ⟨versions', hinsert, hanswer⟩
      · rw [hanswer]
        exact Spares.refl db
      · rw [hanswer]
        refine ⟨fun _ _ _ => rfl, fun row hrow => ?_⟩
        have hne : row ≠ ⟨other, version, name, w.now⟩ := by
          rintro rfl
          exact hrow h
        rw [(Table.insert_eq_some hinsert).2 row, or_iff_left hne]

theorem apply_within {s : Statement} (hs : s ∈ script migrations) :
    (apply s).Asks (Sql.Within owner migrations) := by
  have hnames : ∀ name ∈ s.names, name ∈ namesOf migrations ∨ name = "schema_version" :=
    fun name hname => Or.inl (List.mem_flatMap.mpr ⟨s, hs, hname⟩)
  cases s with
  | createTable name columns constraints => exact ⟨hnames, fun _ => trivial⟩
  | createIndex name host columns condition => exact ⟨hnames, fun _ => trivial⟩
  | addColumn table column =>
      refine Program.Asks.andThen ⟨trivial, fun _ => trivial⟩ fun names => ?_
      split_ifs
      · trivial
      · exact ⟨hnames, fun _ => trivial⟩

theorem applyAll_within {stmts : List Statement} (hstmts : ∀ s ∈ stmts, s ∈ script migrations) :
    (applyAll stmts).Asks (Sql.Within owner migrations) := by
  induction stmts with
  | nil => trivial
  | cons s rest ih =>
      exact Program.Asks.andThen (apply_within (hstmts s List.mem_cons_self)) fun _ =>
        ih fun s' hs' => hstmts s' (List.mem_cons_of_mem s hs')

theorem runPending_within {current : Nat} {rest : List Migration}
    (hrest : ∀ m ∈ rest, m ∈ migrations) :
    (runPending owner current rest).Asks (Sql.Within owner migrations) := by
  induction rest with
  | nil => trivial
  | cons m rest ih =>
      have hmore := ih fun m' hm' => hrest m' (List.mem_cons_of_mem m hm')
      rw [runPending]
      split_ifs
      · exact hmore
      · refine Program.Asks.andThen (applyAll_within fun s hs => ?_) fun _ => ?_
        · exact List.mem_flatMap.mpr ⟨m, hrest m List.mem_cons_self, hs⟩
        · exact Program.Asks.andThen ⟨rfl, fun _ => trivial⟩ fun _ => hmore

theorem openWithMigrations_within :
    (openWithMigrations owner migrations).Asks (Sql.Within owner migrations) := by
  refine Program.Asks.andThen ⟨trivial, fun _ => trivial⟩ fun _ => ?_
  refine Program.Asks.andThen ⟨trivial, fun _ => trivial⟩ fun _ => ?_
  refine Program.Asks.andThen ⟨fun name hname => Or.inr (List.mem_singleton.mp hname),
    fun _ => trivial⟩ fun _ => ?_
  exact Program.Asks.bind ⟨trivial, fun _ => trivial⟩ fun _ => runPending_within fun _ hm => hm

theorem openWithMigrations_spares (w : Weather) (db : Db) :
    Spares owner migrations db ((openWithMigrations owner migrations).run (handle w) db).2 :=
  Program.Asks.run Spares.refl (@Spares.trans owner migrations) (fun op db => handle_spares w op db)
    openWithMigrations_within db

end Frame

/-! ### Any number of openings -/

/-- Everything of these migrations is there, and they are recorded. -/
def Served (owner : String) (migrations : List Migration) (db : Db) : Prop :=
  ∀ m ∈ migrations,
    (∃ row ∈ db.versions, row.owner = owner ∧ row.version = m.version ∧ row.name = m.name) ∧
      ∀ s ∈ m.up, s.Done db.schema

/-- A version is recorded only of a migration that is through, as are all before it. -/
def Truthful (lists : String → List Migration) (db : Db) : Prop :=
  ∀ row ∈ db.versions, ∃ pre m post, lists row.owner = pre ++ m :: post ∧
    m.version = row.version ∧ m.name = row.name ∧ Served row.owner (pre ++ [m]) db

/-- The owner's part of the file is that of a new file, and each migration is recorded. -/
structure Complete (owner : String) (migrations : List Migration) (db : Db) : Prop where
  schema : ∀ name ∈ namesOf migrations, db.schema name = build (script migrations) name
  rows : ∀ version name,
    (∃ row ∈ db.versions, row.owner = owner ∧ row.version = version ∧ row.name = name) ↔
      ∃ m ∈ migrations, m.version = version ∧ m.name = name

/-- A file as openings leave it, or as it was before versions were recorded at all. What is there
besides the tables of the owners must not bear a name of theirs. -/
def Usable (lists : String → List Migration) (db : Db) : Prop :=
  (∃ progress : ∀ owner, Progress (lists owner), Agrees progress db) ∧ Unclaimed db

theorem buildOn_frame {name : String} {stmts : List Statement} (h : ∀ s ∈ stmts, name ∉ s.names)
    (schema : Schema) : buildOn schema stmts name = schema name := by
  induction stmts generalizing schema with
  | nil => rfl
  | cons s rest ih =>
      have hrest := ih fun s' hs' => h s' (List.mem_cons_of_mem s hs')
      show buildOn ((s.exec schema).toOption.getD schema) rest name = schema name
      rw [hrest]
      cases hexec : s.exec schema with
      | error e => rfl
      | ok schema' => exact Statement.exec_frame hexec (h s List.mem_cons_self)

/-- A file from before versions were recorded, of a store that had got so far. -/
theorem usable_unversioned (hapart : Apart lists) (owner : String) (n : Nat) :
    Usable lists ⟨build ((script (lists owner)).take n), Table.empty⟩ := by
  have hnone : ∀ name, name ∉ namesOf (lists owner) →
      build ((script (lists owner)).take n) name = none := by
    intro name hname
    refine buildOn_frame (fun s hs hmine => hname ?_) _
    exact List.mem_flatMap.mpr ⟨s, List.mem_of_mem_take hs, hmine⟩
  have hrows : ∀ (other : String) version name, (∃ row ∈ (Table.empty : Table VersionRow.key),
      row.owner = other ∧ row.version = version ∧ row.name = name) ↔
        ∃ m ∈ (lists other).take 0, m.version = version ∧ m.name = name := by
    intro other version name
    constructor
    · rintro ⟨row, hrow, -⟩
      cases hrow
    · rintro ⟨m, hm, -⟩
      cases hm
  let started : Progress (lists owner) :=
    ⟨min n (script (lists owner)).length, 0, min_le_right _ _, Nat.zero_le _, Nat.zero_le _⟩
  refine ⟨⟨Function.update unstarted owner started, fun other => ?_⟩, fun item hitem => ?_⟩
  · by_cases hother : other = owner
    · subst hother
      rw [Function.update_self]
      refine ⟨fun name _ => ?_, hrows other⟩
      show build ((script (lists other)).take n) name =
        build ((script (lists other)).take (min n (script (lists other)).length)) name
      rw [List.take_eq_take_min]
    · rw [Function.update_of_ne hother]
      refine ⟨fun name hname => ?_, hrows other⟩
      exact hnone name fun hmine => hapart.others owner other (Ne.symm hother) name hmine hname
  · cases (hnone _ (hapart.versions owner)).symm.trans hitem

/-- An opening of a process whose build knows the first so many migrations. -/
structure Launch where
  owner : String
  known : Nat

def Launch.migrations (lists : String → List Migration) (l : Launch) : List Migration :=
  (lists l.owner).take l.known

/-- Before any of them has started. -/
def launched {κ : Type} (lists : String → List Migration) (launches : κ → Launch) (db : Db) :
    Calls κ Db (Underway Sql Sql.Ans (Except SqlError Unit)) :=
  ⟨db, fun k => ⟨[], openWithMigrations (launches k).owner ((launches k).migrations lists)⟩⟩

section Converge

variable (hsound : ∀ owner, Sound (lists owner)) {owner : String} {db : Db}
include hsound

theorem Reached.served {edition later : List Migration} (hlist : lists owner = edition ++ later)
    (h : Reached lists owner (script edition).length edition.length db) :
    Served owner edition db := by
  obtain ⟨progress, hagrees, hbuilt, hrecorded⟩ := h
  intro m hm
  obtain ⟨pre, post, rfl⟩ := List.append_of_mem hm
  have hsplit : lists owner = pre ++ m :: (post ++ later) := by
    rw [hlist]
    simp
  constructor
  · refine ((hagrees owner).rows _ _).mpr ⟨m, mem_take_of_lt hsplit ?_, rfl, rfl⟩
    rw [List.length_append, List.length_cons] at hrecorded
    omega
  · intro s hs
    obtain ⟨before, after, hup⟩ := List.append_of_mem hs
    have hscript : script (lists owner) =
        (script pre ++ before) ++ s :: (after ++ script (post ++ later)) := by
      rw [hsplit]
      simp [script, hup]
    refine hagrees.done (hsound owner) hscript ?_
    have hlength : (script (pre ++ m :: post)).length =
        (script pre).length + (before.length + (after.length + 1)) + (script post).length := by
      simp [script, hup]
      omega
    rw [List.length_append]
    omega

theorem Agrees.truthful {progress : ∀ owner, Progress (lists owner)} (h : Agrees progress db) :
    Truthful lists db := by
  intro row hrow
  obtain ⟨m, hm, hversion, hname⟩ :=
    ((h row.owner).rows row.version row.name).mp ⟨row, hrow, rfl, rfl, rfl⟩
  obtain ⟨pre, mid, htake⟩ := List.append_of_mem hm
  have hsplit : lists row.owner =
      pre ++ m :: (mid ++ (lists row.owner).drop (progress row.owner).recorded) := by
    have hwhole := (List.take_append_drop (progress row.owner).recorded (lists row.owner)).symm
    rw [htake] at hwhole
    simpa using hwhole
  have hsplit' : lists row.owner =
      (pre ++ [m]) ++ (mid ++ (lists row.owner).drop (progress row.owner).recorded) := by
    simpa using hsplit
  have hlength : (pre ++ [m]).length ≤ (progress row.owner).recorded := by
    have hle := congrArg List.length htake
    rw [List.length_take, List.length_append, List.length_cons] at hle
    rw [List.length_append, List.length_singleton]
    omega
  refine ⟨pre, m, _, hsplit, hversion, hname, Reached.served hsound hsplit' ?_⟩
  exact ⟨progress, h, (progress row.owner).covers hsplit' hlength, hlength⟩

omit hsound in
theorem Agrees.complete {progress : ∀ owner, Progress (lists owner)} (h : Agrees progress db)
    (hfull : (lists owner).length ≤ (progress owner).recorded) :
    Complete owner (lists owner) db := by
  have hbuilt := (progress owner).covers (List.append_nil (lists owner)).symm hfull
  refine ⟨fun name hname => ?_, fun version name => ?_⟩
  · rw [(h owner).schema name hname, List.take_of_length_le hbuilt]
  · rw [(h owner).rows version name, List.take_of_length_le hfull]

end Converge

/-- **Openings converge.** Any number of processes open a usable file, each for an owner and
with a build that knows the first of its migrations, statement by statement in any order;
statements fail, and processes stop between any two of them.  At every moment each recorded
version stands for migrations that are through, nothing that was there is lost, and an
opening that has gone through has all it needs, for good.  After it all, an opening that is
left alone goes through, completes its owner's migrations and touches nothing else. -/
theorem migrations_converge (lists : String → List Migration)
    (hsound : ∀ owner, Sound (lists owner)) (hapart : Apart lists) {κ : Type} [DecidableEq κ]
    (launches : κ → Launch) (db : Db) (hdb : Usable lists db) (moves : List (Move κ Weather Empty)) :
    EveryState (sideBySide handle)
        (fun c => Truthful lists c.shared ∧ db.schema.Grows c.shared.schema ∧
          (∀ row ∈ db.versions, row ∈ c.shared.versions) ∧
          ∀ k, (c.place k).rest = .ret (.ok ()) →
            Served (launches k).owner ((launches k).migrations lists) c.shared)
        (launched lists launches db) moves ∧
      let left := (moves.foldl (sideBySide handle) (launched lists launches db)).shared
      ∀ owner now, ∃ db',
        (openWithMigrations owner (lists owner)).run (handle (quiet now)) left = (.ok (), db') ∧
          Complete owner (lists owner) db' ∧ Spares owner (lists owner) left db' := by
  obtain ⟨⟨progress, hagrees⟩, hfree⟩ := hdb
  have hrelies : ∀ k, ((launched lists launches db).place k).rest.Relies handle (Evolves lists)
      (Ensures lists (launches k).owner (script ((launches k).migrations lists)).length
        ((launches k).migrations lists).length) db := by
    intro k
    exact openWithMigrations_relies hsound hapart (List.take_append_drop _ _).symm
      ⟨progress, hagrees, Nat.zero_le _, Nat.zero_le _⟩
  have hrun := everyState_iff_prefix.mp
    (Foundation.run_relies Evolves.refl (@Evolves.trans lists) hrelies moves)
  refine ⟨ everyState_iff_prefix.mpr fun pre hpre => ?_, ?_⟩
  · obtain ⟨hevolves, hreturned⟩ := hrun pre hpre
    obtain ⟨progress', hagrees', -⟩ := hevolves.progress progress hagrees
    refine ⟨hagrees'.truthful hsound, hevolves.schema, hevolves.rows, fun k hk => ?_⟩
    exact Reached.served hsound (List.take_append_drop _ _).symm (hreturned k _ hk rfl)
  · intro left owner now
    have hevolves := (hrun moves (List.prefix_refl _)).1
    obtain ⟨progress', hagrees', -⟩ := hevolves.progress progress hagrees
    obtain ⟨db', progress'', hopen, hagrees'', hfull⟩ :=
      openWithMigrations_alone now hsound hapart hagrees' (hevolves.unclaimed hfree)
    refine ⟨db', hopen, hagrees''.complete hfull, ?_⟩
    have hspares := @openWithMigrations_spares owner (lists owner) (quiet now) left
    rw [hopen] at hspares
    exact hspares

/-! ### Two builds on one file -/

/-- An old build and a new one open the tokens; the new one stops half way, and the old one
finds the database busy. -/
def twoBuilds : Bool → Launch
  | true => ⟨"tokens", 2⟩
  | false => ⟨"tokens", 1⟩

def twoBuildsMoves : List (Move Bool Weather Empty) :=
  List.replicate 7 (.call true (quiet 1)) ++ [.call false (quiet 2), .call false ⟨true, none, 2⟩]

/-- On a file with tokens but without versions, the next opening ends with the second
version recorded and the column there. -/
theorem migrations_converge_demo :
    let old : Db := ⟨build ((script (shipped "tokens")).take 2), Table.empty⟩
    let left := (twoBuildsMoves.foldl (sideBySide handle) (launched shipped twoBuilds old)).shared
    ∃ db', (openWithMigrations "tokens" (shipped "tokens")).run (handle (quiet 3)) left =
        (.ok (), db') ∧ "subject" ∈ columnsOf db' "tokens" ∧
      ∃ row ∈ db'.versions, row.owner = "tokens" ∧ row.version = 2 ∧
        row.name = "add_subject_column" := by
  obtain ⟨-, hnext⟩ := migrations_converge shipped sound_shipped apart_shipped twoBuilds _
    (usable_unversioned apart_shipped "tokens" 2) twoBuildsMoves
  obtain ⟨db', hopen, hcomplete, -⟩ := hnext "tokens" 3
  refine ⟨db', hopen, ?_, ?_⟩
  · have htokens := hcomplete.schema "tokens" (by decide +kernel)
    have hthere : "subject" ∈ columnsOf ⟨build (script (shipped "tokens")), Table.empty⟩ "tokens" := by
      decide +kernel
    unfold columnsOf at hthere ⊢
    rw [htokens]
    exact hthere
  · exact (hcomplete.rows 2 "add_subject_column").mpr (by decide +kernel)

end DbMigrate
end Artifacts
