import Artifacts.Foundation.Rely
import Artifacts.Foundation.Tables

/-!
# Schema migrations

Every SQLite store brings its database up to date when it opens it: the migrations whose
version is above the recorded one run in order, and each is recorded when it is through.
An opening is a program of single statements, for nothing holds them together: the process
may stop between any two of them, any of them may fail, and another process may be doing
the same to the same file.

`Weather` is what may go wrong from outside at one statement.  `Db` has the schema and the
recorded versions; the rows of the other tables are left out, as no migration looks at them.
-/

namespace Artifacts
namespace DbMigrate

open Foundation

/-! ### Statements -/

structure Column where
  name : String
  decl : String
  deriving DecidableEq, Repr

/-- What `sqlite_master` holds under a name, as far as the migrations make it: the columns and
constraints of a table, or what an index is over. -/
inductive Item where
  | table (columns : List Column) (constraints : List String)
  | index (table : String) (columns : List String) (condition : Option String)
  deriving DecidableEq, Repr

/-- The schema of a database file. -/
abbrev Schema := String → Option Item

/-- `CREATE TABLE IF NOT EXISTS`, `CREATE INDEX IF NOT EXISTS`, `ALTER TABLE ADD COLUMN`. -/
inductive Statement where
  | createTable (name : String) (columns : List Column) (constraints : List String)
  | createIndex (name : String) (table : String) (columns : List String)
      (condition : Option String)
  | addColumn (table : String) (column : Column)
  deriving DecidableEq, Repr

inductive SqlError where
  /-- Busy, a full disk, a lost file: whatever the statement is. -/
  | unavailable
  | noSuchTable (name : String)
  | noSuchColumn (name : String)
  | duplicateColumn (name : String)
  | nameTaken (name : String)
  | constraint
  deriving DecidableEq, Repr

namespace Statement

/-- The name a statement may write. -/
def target : Statement → String
  | .createTable name _ _ => name
  | .createIndex name _ _ _ => name
  | .addColumn table _ => table

/-- The names it looks at. -/
def names : Statement → List String
  | .createTable name _ _ => [name]
  | .createIndex name table _ _ => [name, table]
  | .addColumn table _ => [table]

/-- What SQLite puts under the target; nothing if the item is there. -/
def write (schema : Schema) : Statement → Except SqlError (Option Item)
  | .createTable name columns constraints =>
      match schema name with
      | none => .ok (some (.table columns constraints))
      | some (.table _ _) => .ok none
      | some (.index _ _ _) => .error (.nameTaken name)
  | .createIndex name table columns condition =>
      match schema table with
      | some (.table own _) =>
          match schema name with
          | none =>
              match columns.find? fun column => !(own.map Column.name).contains column with
              | none => .ok (some (.index table columns condition))
              | some missing => .error (.noSuchColumn missing)
          | some (.index _ _ _) => .ok none
          | some (.table _ _) => .error (.nameTaken name)
      | _ => .error (.noSuchTable table)
  | .addColumn table column =>
      match schema table with
      | some (.table columns constraints) =>
          if (columns.map Column.name).contains column.name then
            .error (.duplicateColumn column.name)
          else .ok (some (.table (columns ++ [column]) constraints))
      | _ => .error (.noSuchTable table)

/-- One statement, which takes effect as a whole or not at all. -/
def exec (schema : Schema) (s : Statement) : Except SqlError Schema :=
  match s.write schema with
  | .error e => .error e
  | .ok none => .ok schema
  | .ok (some item) => .ok (Function.update schema s.target (some item))

end Statement

/-! ### The database -/

structure VersionRow where
  owner : String
  version : Nat
  name : String
  appliedAt : Int
  deriving DecidableEq, Repr

/-- `PRIMARY KEY (namespace, version)`: an insert of a pair that is there fails, and with it the
opening that came second. -/
def VersionRow.key (row : VersionRow) : String × Nat := (row.owner, row.version)

/-- A database file: its schema, and the rows of its `schema_version`. -/
structure Db where
  schema : Schema
  versions : Table VersionRow.key

def emptyDb : Db := ⟨fun _ => none, Table.empty⟩

/-- What an opening asks of the database, one statement at a time. Another opening may run between
any two of them, and each of them may fail. -/
inductive Sql where
  | connect
  | pragmas
  | exec (s : Statement)
  | maxVersion (owner : String)
  | tableInfo (table : String)
  | record (owner : String) (version : Nat) (name : String)

@[reducible] def Sql.Ans : Sql → Type
  | .maxVersion _ => Except SqlError Nat
  | .tableInfo _ => Except SqlError (List String)
  | .connect | .pragmas | .exec _ | .record _ _ _ => Except SqlError Unit

/-- What the surroundings add to a statement: it may fail, a query may break off after some
of its rows, and the clock shows some time. -/
structure Weather where
  fails : Bool
  rows : Option Nat
  now : Int

/-- The rows that a query gets to before it breaks off; the error behind them is filtered
out. -/
def Weather.cut {α : Type} (w : Weather) (rows : List α) : List α :=
  match w.rows with
  | none => rows
  | some n => rows.take n

def hasVersions (db : Db) : Bool := (db.schema "schema_version").isSome

def columnsOf (db : Db) (table : String) : List String :=
  match db.schema table with
  | some (.table columns _) => columns.map Column.name
  | _ => []

/-- The largest recorded version, 0 if there is none. -/
def highWater (db : Db) (owner : String) : Nat :=
  (((db.versions.select fun row => row.owner == owner).map VersionRow.version).max?).getD 0

/-- SQLite. -/
def handle (w : Weather) : (op : Sql) → Db → op.Ans × Db
  | .connect, db => (if w.fails then .error .unavailable else .ok (), db)
  | .pragmas, db => (if w.fails then .error .unavailable else .ok (), db)
  | .exec s, db =>
      if w.fails then (.error .unavailable, db)
      else
        match s.exec db.schema with
        | .error e => (.error e, db)
        | .ok schema => (.ok (), { db with schema })
  | .maxVersion owner, db =>
      (if w.fails then .error .unavailable
      else if hasVersions db then .ok (highWater db owner)
      else .error (.noSuchTable "schema_version"), db)
  | .tableInfo table, db =>
      (if w.fails then .error .unavailable else .ok (w.cut (columnsOf db table)), db)
  | .record owner version name, db =>
      if w.fails then (.error .unavailable, db)
      else if hasVersions db then
        match db.versions.insert ⟨owner, version, name, w.now⟩ with
        | none => (.error .constraint, db)
        | some versions => (.ok (), { db with versions })
      else (.error (.noSuchTable "schema_version"), db)

/-! ### An opening -/

abbrev Opening := Program Sql Sql.Ans (Except SqlError Unit)

def Sql.ask (op : Sql) : Program Sql Sql.Ans op.Ans := Program.perform op

/-- `Migration`.  Each `up` is a batch of statements, or calls of
`add_column_if_missing`. -/
structure Migration where
  version : Nat
  name : String
  up : List Statement

/-- `add_column_if_missing`. Between the look at the columns and the change another opening may add
the column, and then the statement fails. -/
def addColumnIfMissing (table : String) (column : Column) : Opening :=
  Program.andThen (Sql.ask (.tableInfo table)) fun names : List String =>
    if names.contains column.name then .ret (.ok ())
    else Sql.ask (.exec (.addColumn table column))

/-- One statement of an `up`; a column is added only if it is missing. -/
def apply : Statement → Opening
  | .addColumn table column => addColumnIfMissing table column
  | s => Sql.ask (.exec s)

def applyAll : List Statement → Opening
  | [] => .ret (.ok ())
  | s :: rest => (apply s).andThen fun _ => applyAll rest

/-- The migrations above the version that was read. -/
def runPending (owner : String) (current : Nat) : List Migration → Opening
  | [] => .ret (.ok ())
  | m :: rest =>
      if m.version ≤ current then runPending owner current rest
      else
        (applyAll m.up).andThen fun _ =>
          Program.andThen (Sql.ask (.record owner m.version m.name)) fun _ : Unit =>
            runPending owner current rest

def createVersions : Statement :=
  .createTable "schema_version"
    [⟨"namespace", "TEXT NOT NULL"⟩, ⟨"version", "INTEGER NOT NULL"⟩, ⟨"name", "TEXT NOT NULL"⟩,
      ⟨"applied_at", "INTEGER NOT NULL"⟩]
    ["PRIMARY KEY (namespace, version)"]

/-- `run`: a version that cannot be read counts as 0. -/
def run (owner : String) (migrations : List Migration) : Opening :=
  Program.andThen (Sql.ask (.exec createVersions)) fun _ : Unit =>
    Program.bind (Sql.ask (.maxVersion owner)) fun current : Except SqlError Nat =>
      runPending owner (current.toOption.getD 0) migrations

/-- `open_with_migrations`: the connection, its pragmas, and the migrations of the owner. Nothing
holds the lock from one statement to the next. -/
def openWithMigrations (owner : String) (migrations : List Migration) : Opening :=
  Program.andThen (Sql.ask .connect) fun _ : Unit =>
    Program.andThen (Sql.ask .pragmas) fun _ : Unit => run owner migrations

end DbMigrate
end Artifacts
