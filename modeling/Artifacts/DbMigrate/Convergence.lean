import Artifacts.DbMigrate.Progress

/-!
# Openings that run side by side

Any number of processes open one file, each for some owner and with the migrations its
build knows of, statement by statement; statements fail and processes stop anywhere.  The
file follows its owners' migrations throughout, and the next opening that is left alone
completes them.

* `Reached` is what a process knows of the file and what no other can undo: so many statements
  have taken effect, so many migrations are recorded.
* `Evolves` is what all of them do to the file, and is transitive.
* `Ensures` is what an opening promises when it returns without an error.

The lemmas go along the program, statement by statement, and use the rules of `Relies`.
-/

namespace Artifacts
namespace DbMigrate

open Foundation

variable {lists : String → List Migration}

/-! ### What an opening relies on -/

/-- The name of the table of versions is free for it. -/
def Unclaimed (db : Db) : Prop :=
  ∀ item, db.schema "schema_version" = some item → item.isTable = true

/-- Progress is only made, and what is in the file stays. `progress` goes with any reading of the
file before; the reading behind the step is as far or farther for every owner. -/
structure Evolves (lists : String → List Migration) (db db' : Db) : Prop where
  progress : ∀ progress : (∀ owner, Progress (lists owner)), Agrees progress db →
    ∃ progress', Agrees progress' db' ∧ Ahead progress progress'
  schema : db.schema.Grows db'.schema
  rows : ∀ row ∈ db.versions, row ∈ db'.versions
  unclaimed : Unclaimed db → Unclaimed db'

theorem Evolves.refl (db : Db) : Evolves lists db db :=
  ⟨fun progress h => ⟨progress, h, Ahead.refl progress⟩, Schema.Grows.refl _, fun _ h => h, id⟩

theorem Evolves.trans {a b c : Db} (hab : Evolves lists a b) (hbc : Evolves lists b c) :
    Evolves lists a c := by
  refine ⟨fun progress h => ?_, hab.schema.trans hbc.schema,
    fun row hrow => hbc.rows row (hab.rows row hrow), fun h => hbc.unclaimed (hab.unclaimed h)⟩
  obtain ⟨progress', h', hahead⟩ := hab.progress progress h
  obtain ⟨progress'', h'', hahead'⟩ := hbc.progress progress' h'
  exact ⟨progress'', h'', hahead.trans hahead'⟩

/-- At least so much of an owner's migrations has taken effect and is recorded. -/
def Reached (lists : String → List Migration) (owner : String) (built recorded : Nat) (db : Db) :
    Prop :=
  ∃ progress : ∀ owner, Progress (lists owner), Agrees progress db ∧
    built ≤ (progress owner).built ∧ recorded ≤ (progress owner).recorded

section Knowledge

variable {owner : String} {built recorded : Nat} {db db' : Db}

theorem Reached.evolves (h : Reached lists owner built recorded db)
    (hevolves : Evolves lists db db') : Reached lists owner built recorded db' := by
  obtain ⟨progress, hagrees, hbuilt, hrecorded⟩ := h
  obtain ⟨progress', hagrees', hahead⟩ := hevolves.progress progress hagrees
  exact ⟨progress', hagrees', hbuilt.trans (hahead owner).1, hrecorded.trans (hahead owner).2⟩

/-- The rows tell how many migrations are recorded. -/
theorem Follows.recorded_le {migrations : List Migration} (hsound : Sound migrations)
    {p p' : Progress migrations} (h : Follows owner migrations p db)
    (h' : Follows owner migrations p' db) : p.recorded ≤ p'.recorded := by
  by_contra hlt
  have hlt : p'.recorded < p.recorded := by omega
  have hbound : p'.recorded < migrations.length := hlt.trans_le p.recorded_le
  have hsplit : migrations = migrations.take p'.recorded ++
      migrations[p'.recorded] :: migrations.drop (p'.recorded + 1) := by
    rw [List.getElem_cons_drop, List.take_append_drop]
  have hlength : (migrations.take p'.recorded).length = p'.recorded :=
    List.length_take_of_le p'.recorded_le
  -- The first migration that only one of them counts has a row, so the other counts it too.
  obtain ⟨m', hm', hversion, -⟩ := (h'.rows _ _).mp ((h.rows _ _).mpr
    ⟨_, mem_take_of_lt hsplit (by rw [hlength]; exact hlt), rfl, rfl⟩)
  have hordered := hsound.ordered
  rw [hsplit, List.pairwise_append] at hordered
  have hless := hordered.2.2 m' hm' _ List.mem_cons_self
  omega

/-- Two accounts of one file are parts of one. -/
theorem Agrees.join (hsound : ∀ owner, Sound (lists owner))
    {progress progress' : ∀ owner, Progress (lists owner)} (h : Agrees progress db)
    (h' : Agrees progress' db) :
    ∃ both, Agrees both db ∧ Ahead progress both ∧ Ahead progress' both := by
  have hsame : ∀ owner, (progress owner).recorded = (progress' owner).recorded := by
    intro owner
    exact Nat.le_antisymm ((h owner).recorded_le (hsound owner) (h' owner))
      ((h' owner).recorded_le (hsound owner) (h owner))
  refine ⟨fun owner => if (progress owner).built ≤ (progress' owner).built then progress' owner
    else progress owner, fun owner => ?_, fun owner => ?_, fun owner => ?_⟩
  · dsimp only
    split_ifs
    · exact h' owner
    · exact h owner
  · dsimp only
    split_ifs with hle
    · exact ⟨hle, (hsame owner).le⟩
    · exact ⟨Nat.le_refl _, Nat.le_refl _⟩
  · dsimp only
    split_ifs with hle
    · exact ⟨Nat.le_refl _, Nat.le_refl _⟩
    · exact ⟨by omega, (hsame owner).ge⟩

/-- A statement whose turn has come. -/
theorem Reached.exec (hsound : ∀ owner, Sound (lists owner)) (hapart : Apart lists)
    {pre post : List Statement} {s : Statement} (hscript : script (lists owner) = pre ++ s :: post)
    (h : Reached lists owner pre.length recorded db) {schema' : Schema}
    (hexec : s.exec db.schema = .ok schema') :
    Evolves lists db { db with schema := schema' } ∧
      Reached lists owner (pre.length + 1) recorded { db with schema := schema' } := by
  obtain ⟨known, hknown, hbuilt, hrecorded⟩ := h
  have hforeign : "schema_version" ∉ s.names := fun hmine =>
    hapart.versions owner (names_of_script hscript hmine)
  refine ⟨⟨fun progress hagrees => ?_, (Statement.exec_eq_ok hexec).2.1, fun _ hrow => hrow,
    fun hfree item hitem => hfree item ((Statement.exec_frame hexec hforeign).symm.trans hitem)⟩, ?_⟩
  · obtain ⟨both, hboth, hahead, hahead'⟩ := hagrees.join hsound hknown
    obtain ⟨next, hnext, hmore, -⟩ := hboth.exec (hsound owner) hapart hscript
      (hbuilt.trans (hahead' owner).1) hexec
    exact ⟨next, hnext, hahead.trans hmore⟩
  · obtain ⟨next, hnext, -, hmore, hkept⟩ := hknown.exec (hsound owner) hapart hscript hbuilt hexec
    exact ⟨next, hnext, hmore, by omega⟩

/-- A migration that is through. -/
theorem Reached.record (hsound : ∀ owner, Sound (lists owner)) {pre post : List Migration}
    {m : Migration} (hlist : lists owner = pre ++ m :: post)
    (h : Reached lists owner (script (pre ++ [m])).length recorded db)
    (hrecorded : pre.length ≤ recorded) {now : Int} {versions' : Table VersionRow.key}
    (hinsert : db.versions.insert ⟨owner, m.version, m.name, now⟩ = some versions') :
    Evolves lists db { db with versions := versions' } ∧
      Reached lists owner (script (pre ++ [m])).length (pre.length + 1)
        { db with versions := versions' } := by
  obtain ⟨known, hknown, hbuilt, hmany⟩ := h
  refine ⟨⟨fun progress hagrees => ?_, Schema.Grows.refl _, fun row hrow => ?_, id⟩, ?_⟩
  · obtain ⟨both, hboth, hahead, hahead'⟩ := hagrees.join hsound hknown
    obtain ⟨next, hnext, hmore, -⟩ := hboth.record hlist
      ((hrecorded.trans hmany).trans (hahead' owner).2) (hbuilt.trans (hahead' owner).1) hinsert
    exact ⟨next, hnext, hahead.trans hmore⟩
  · exact ((Table.insert_eq_some hinsert).2 row).mpr (Or.inl hrow)
  · obtain ⟨next, hnext, -, hsame, hmore⟩ := hknown.record hlist (hrecorded.trans hmany) hbuilt hinsert
    exact ⟨next, hnext, by omega, by omega⟩

end Knowledge
/-! ### What the database answers -/

section Answers

variable (w : Weather) (db : Db)

theorem handle_exec (s : Statement) :
    (∃ e : SqlError, handle w (.exec s) db = (.error e, db)) ∨
      ∃ schema', s.exec db.schema = .ok schema' ∧
        handle w (.exec s) db = (.ok (), { db with schema := schema' }) := by
  simp only [handle]
  split_ifs
  · exact Or.inl ⟨_, rfl⟩
  · split
    · exact Or.inl ⟨_, rfl⟩
    · rename_i schema' hexec
      exact Or.inr ⟨schema', hexec, rfl⟩

theorem handle_record (owner : String) (version : Nat) (name : String) :
    (∃ e : SqlError, handle w (.record owner version name) db = (.error e, db)) ∨
      ∃ versions', db.versions.insert ⟨owner, version, name, w.now⟩ = some versions' ∧
        handle w (.record owner version name) db = (.ok (), { db with versions := versions' }) := by
  simp only [handle]
  split_ifs
  · exact Or.inl ⟨_, rfl⟩
  · split
    · exact Or.inl ⟨_, rfl⟩
    · rename_i versions' hinsert
      exact Or.inr ⟨versions', hinsert, rfl⟩
  · exact Or.inl ⟨_, rfl⟩

/-- A query that breaks off has seen some of the columns. -/
theorem handle_tableInfo {table : String} {names : List String}
    (h : (handle w (.tableInfo table) db).1 = .ok names) :
    ∀ name ∈ names, name ∈ columnsOf db table := by
  have hanswer : (if w.fails then (.error .unavailable : Except SqlError (List String))
      else .ok (w.cut (columnsOf db table))) = .ok names := h
  split_ifs at hanswer
  · obtain rfl := Except.ok.inj hanswer
    intro name hname
    unfold Weather.cut at hname
    split at hname
    · exact hname
    · exact List.mem_of_mem_take hname

theorem handle_maxVersion {owner : String} {current : Nat}
    (h : (handle w (.maxVersion owner) db).1 = .ok current) : current = highWater db owner := by
  have hanswer : (if w.fails then (.error .unavailable : Except SqlError Nat)
      else if hasVersions db then .ok (highWater db owner)
      else .error (.noSuchTable "schema_version")) = .ok current := h
  split_ifs at hanswer
  · exact (Except.ok.inj hanswer).symm

end Answers

/-! ### An opening among others -/

/-- If it went through, so much has been reached. An opening that fails promises nothing but that
the file has not gone back. -/
def Ensures (lists : String → List Migration) (owner : String) (built recorded : Nat)
    (result : Except SqlError Unit) (db : Db) : Prop :=
  result = .ok () → Reached lists owner built recorded db

section Openings

variable {owner : String} {built recorded : Nat} {db : Db}

theorem Ensures.evolves {db' : Db} {result : Except SqlError Unit} (hevolves : Evolves lists db db')
    (h : Ensures lists owner built recorded result db) :
    Ensures lists owner built recorded result db' :=
  fun hok => (h hok).evolves hevolves

theorem Ensures.error (e : SqlError) : Ensures lists owner built recorded (.error e) db := by
  intro h
  cases h

/-- One part of an opening, and then the next. -/
theorem relies_andThen {α : Type} {first : Program Sql Sql.Ans (Except SqlError α)}
    {next : α → Opening}
    (h : first.Relies handle (Evolves lists) (fun result db => ∀ a, result = .ok a →
      (next a).Relies handle (Evolves lists) (Ensures lists owner built recorded) db) db) :
    (first.andThen next).Relies handle (Evolves lists) (Ensures lists owner built recorded) db := by
  refine Program.Relies.andThen Evolves.refl (h.mono fun result db hresult => ?_)
  cases result with
  | error e => exact fun db' _ => Ensures.error e
  | ok a => exact hresult a rfl

variable (hsound : ∀ owner, Sound (lists owner)) (hapart : Apart lists)
include hsound hapart

/-- One statement. -/
theorem exec_relies {pre post : List Statement} {s : Statement}
    (hscript : script (lists owner) = pre ++ s :: post)
    (h : Reached lists owner pre.length recorded db) :
    (Sql.ask (.exec s) : Opening).Relies handle (Evolves lists)
      (Ensures lists owner (pre.length + 1) recorded) db := by
  refine Program.relies_perform (fun _ _ _ hevolves hpost => hpost.evolves hevolves)
    fun db' hevolves w => ?_
  rcases handle_exec w db' s with ⟨e, hanswer⟩ | ⟨schema', hexec, hanswer⟩
  · rw [hanswer]
    exact ⟨Evolves.refl db', Ensures.error e⟩
  · rw [hanswer]
    obtain ⟨hmore, hreached⟩ := (h.evolves hevolves).exec hsound hapart hscript hexec
    exact ⟨hmore, fun _ => hreached⟩

omit hapart in
/-- A column that is there has been added. -/
theorem Reached.column {pre post : List Statement} {table : String} {column : Column}
    (hscript : script (lists owner) = pre ++ .addColumn table column :: post)
    (h : Reached lists owner pre.length recorded db) (hthere : column.name ∈ columnsOf db table) :
    Reached lists owner (pre.length + 1) recorded db := by
  obtain ⟨progress, hagrees, hbuilt, hrecorded⟩ := h
  exact ⟨progress, hagrees, hagrees.column (hsound owner) hscript hbuilt hthere, hrecorded⟩

theorem apply_relies {pre post : List Statement} {s : Statement}
    (hscript : script (lists owner) = pre ++ s :: post)
    (h : Reached lists owner pre.length recorded db) :
    (apply s).Relies handle (Evolves lists) (Ensures lists owner (pre.length + 1) recorded) db := by
  cases s with
  | createTable name columns constraints => exact exec_relies hsound hapart hscript h
  | createIndex name host columns condition => exact exec_relies hsound hapart hscript h
  | addColumn table column =>
      refine relies_andThen (Program.relies_perform
        (fun _ _ _ hevolves hpost names hnames =>
          (hpost names hnames).stable (@Evolves.trans lists) hevolves) fun db' hevolves w => ?_)
      refine ⟨Evolves.refl db', fun names hnames => ?_⟩
      have hreached := h.evolves hevolves
      show Program.Relies handle (Evolves lists) (Ensures lists owner (pre.length + 1) recorded)
        (if names.contains column.name = true then .ret (.ok ())
          else Sql.ask (.exec (.addColumn table column))) db'
      by_cases hthere : names.contains column.name = true
      · have hcolumn := handle_tableInfo w db' hnames _ (List.contains_iff_mem.mp hthere)
        rw [if_pos hthere]
        exact Program.relies_ret fun db'' hevolves' _ =>
          (hreached.column hsound hscript hcolumn).evolves hevolves'
      · rw [if_neg hthere]
        exact exec_relies hsound hapart hscript hreached

theorem applyAll_relies {pre stmts post : List Statement}
    (hscript : script (lists owner) = pre ++ stmts ++ post)
    (h : Reached lists owner pre.length recorded db) :
    (applyAll stmts).Relies handle (Evolves lists)
      (Ensures lists owner (pre.length + stmts.length) recorded) db := by
  induction stmts generalizing pre db with
  | nil => exact Program.relies_ret fun db' hevolves _ => h.evolves hevolves
  | cons s rest ih =>
      have hone : script (lists owner) = pre ++ s :: (rest ++ post) := by
        rw [hscript]
        simp
      refine relies_andThen ((apply_relies hsound hapart hone h).mono fun result db' hresult _ hok => ?_)
      have hlength : pre.length + (s :: rest).length = (pre ++ [s]).length + rest.length := by
        simp only [List.length_cons, List.length_append, List.length_nil]
        omega
      rw [hlength]
      refine ih (by rw [hscript]; simp) ?_
      rw [List.length_append]
      exact hresult hok

/-- **The pending migrations**, whatever version was read: the ones that are skipped are
recorded. -/
theorem runPending_relies {current : Nat} {pre rest post : List Migration}
    (hlist : lists owner = pre ++ rest ++ post)
    (h : Reached lists owner (script pre).length recorded db) (hrecorded : pre.length ≤ recorded)
    (hcurrent : ∀ before m after, lists owner = before ++ m :: after → m.version ≤ current →
      before.length < recorded) :
    (runPending owner current rest).Relies handle (Evolves lists)
      (Ensures lists owner (script (pre ++ rest)).length (pre ++ rest).length) db := by
  induction rest generalizing pre recorded db with
  | nil =>
      rw [List.append_nil]
      refine Program.relies_ret fun db' hevolves _ => ?_
      obtain ⟨progress, hagrees, hbuilt, hmany⟩ := h.evolves hevolves
      exact ⟨progress, hagrees, hbuilt, hrecorded.trans hmany⟩
  | cons m rest ih =>
      have hone : lists owner = pre ++ m :: (rest ++ post) := by
        rw [hlist]
        simp
      have hnext : lists owner = (pre ++ [m]) ++ rest ++ post := by
        rw [hlist]
        simp
      have hwhole : pre ++ m :: rest = (pre ++ [m]) ++ rest := by simp
      have hscript : script (lists owner) = script pre ++ m.up ++ script (rest ++ post) := by
        rw [hone]
        simp [script]
      have hlength : (script (pre ++ [m])).length = (script pre).length + m.up.length := by
        simp [script]
      rw [hwhole, runPending]
      split_ifs with hskip
      · -- What was read says that it is recorded, so that its statements have taken effect.
        have hlt := hcurrent pre m _ hone hskip
        have hmore : (pre ++ [m]).length ≤ recorded := by
          rw [List.length_append, List.length_singleton]
          exact hlt
        refine ih hnext ?_ hmore hcurrent
        obtain ⟨progress, hagrees, -, hmany⟩ := h
        refine ⟨progress, hagrees, ?_, hmany⟩
        have hone' : lists owner = (pre ++ [m]) ++ (rest ++ post) := by
          rw [hone]
          simp
        exact (progress owner).covers hone' (hmore.trans hmany)
      · -- Otherwise its statements are run, whoever else runs them too, and then it is recorded.
        refine relies_andThen ((applyAll_relies hsound hapart hscript h).mono
          fun result db' hresult _ hok => ?_)
        have hbuilt := hresult hok
        rw [← hlength] at hbuilt
        refine relies_andThen (Program.relies_perform (fun _ _ _ hevolves hpost a ha =>
          (hpost a ha).stable (@Evolves.trans lists) hevolves) fun db'' hevolves w => ?_)
        rcases handle_record w db'' owner m.version m.name with
          ⟨e, hanswer⟩ | ⟨versions', hinsert, hanswer⟩
        · rw [hanswer]
          refine ⟨Evolves.refl db'', fun a ha => ?_⟩
          cases ha
        · rw [hanswer]
          obtain ⟨hmore, hreached⟩ :=
            (hbuilt.evolves hevolves).record hsound hone hrecorded hinsert
          refine ⟨hmore, fun _ _ => ?_⟩
          -- both counts are of one file, so the larger of the two has been reached
          have hboth : Reached lists owner (script (pre ++ [m])).length
              (max recorded (pre.length + 1)) { db'' with versions := versions' } := by
            obtain ⟨progress, hagrees, hbuilt', hmany⟩ :=
              (hbuilt.evolves hevolves).evolves hmore
            obtain ⟨progress', hagrees', -, hmany'⟩ := hreached
            have hsame := (hagrees' owner).recorded_le (hsound owner) (hagrees owner)
            exact ⟨progress, hagrees, hbuilt', by omega⟩
          have hcount : (pre ++ [m]).length ≤ max recorded (pre.length + 1) := by
            rw [List.length_append, List.length_singleton]
            exact le_max_right _ _
          refine ih hnext hboth hcount fun before other after hother hle => ?_
          have hlt := hcurrent before other after hother hle
          omega

omit hapart in
/-- What was read, or 0. -/
theorem Reached.highWater (h : Reached lists owner 0 0 db) :
    ∃ recorded, Reached lists owner 0 recorded db ∧
      ∀ before m after, lists owner = before ++ m :: after →
        m.version ≤ DbMigrate.highWater db owner → before.length < recorded := by
  obtain ⟨progress, hagrees, -, -⟩ := h
  refine ⟨(progress owner).recorded, ⟨progress, hagrees, Nat.zero_le _, Nat.le_refl _⟩, ?_⟩
  intro before m after hlist hle
  exact (hagrees.le_highWater_iff (hsound owner) hlist).mp hle

omit hsound in
/-- The table of versions may come at any time. -/
theorem evolves_createVersions {schema' : Schema}
    (hexec : createVersions.exec db.schema = .ok schema') :
    Evolves lists db { db with schema := schema' } := by
  obtain ⟨hdone, hgrows, -⟩ := Statement.exec_eq_ok hexec
  refine ⟨fun progress h => ⟨progress, h.createVersions hapart hexec, Ahead.refl progress⟩,
    hgrows, fun _ h => h, fun _ item hitem => ?_⟩
  obtain ⟨table, htable, hkind⟩ := hdone
  obtain rfl := Option.some.inj (hitem.symm.trans htable)
  exact hkind

theorem run_relies {edition later : List Migration} (hlist : lists owner = edition ++ later)
    (h : Reached lists owner 0 0 db) :
    (run owner edition).Relies handle (Evolves lists)
      (Ensures lists owner (script edition).length edition.length) db := by
  refine relies_andThen (Program.relies_perform (fun _ _ _ hevolves hpost a ha =>
    (hpost a ha).stable (@Evolves.trans lists) hevolves) fun db₁ hevolves₁ w => ?_)
  have hwhole : lists owner = [] ++ edition ++ later := hlist
  have hpending : ∀ db', Reached lists owner 0 0 db' →
      (Program.bind (Sql.ask (.maxVersion owner)) fun current : Except SqlError Nat =>
        runPending owner (current.toOption.getD 0) edition).Relies handle (Evolves lists)
          (Ensures lists owner (script edition).length edition.length) db' := by
    intro db' hreached
    refine Program.Relies.bind Evolves.refl (Program.relies_perform
      (fun _ _ _ hevolves hpost => hpost.stable (@Evolves.trans lists) hevolves)
      fun db₂ hevolves₂ w => ⟨Evolves.refl db₂, ?_⟩)
    have hreached₂ := hreached.evolves hevolves₂
    cases hread : (handle w (.maxVersion owner) db₂).1 with
    | error e =>
        -- Nothing is skipped.
        refine runPending_relies hsound hapart hwhole hreached₂ (Nat.zero_le _) ?_
        intro before m after hother hle
        have hmem : m ∈ lists owner := by
          rw [hother]
          simp
        have hpositive := (hsound owner).positive m hmem
        have hzero : m.version ≤ 0 := hle
        omega
    | ok current =>
        obtain ⟨recorded, hrecorded, hskipped⟩ := hreached₂.highWater hsound
        rw [← handle_maxVersion w db₂ hread] at hskipped
        exact runPending_relies hsound hapart hwhole hrecorded (Nat.zero_le _) hskipped
  rcases handle_exec w db₁ createVersions with ⟨e, hanswer⟩ | ⟨schema', hexec, hanswer⟩
  · rw [hanswer]
    refine ⟨Evolves.refl db₁, fun a ha => ?_⟩
    cases ha
  · rw [hanswer]
    have hmore := evolves_createVersions hapart hexec
    exact ⟨hmore, fun _ _ => hpending _ ((h.evolves hevolves₁).evolves hmore)⟩

/-- **An opening** of an owner, of a build that knows the first of its migrations. -/
theorem openWithMigrations_relies {edition later : List Migration}
    (hlist : lists owner = edition ++ later) (h : Reached lists owner 0 0 db) :
    (openWithMigrations owner edition).Relies handle (Evolves lists)
      (Ensures lists owner (script edition).length edition.length) db := by
  refine relies_andThen (Program.relies_perform (fun _ _ _ hevolves hpost a ha =>
    (hpost a ha).stable (@Evolves.trans lists) hevolves) fun db₁ hevolves₁ w =>
      ⟨Evolves.refl db₁, fun _ _ => ?_⟩)
  refine relies_andThen (Program.relies_perform (fun _ _ _ hevolves hpost a ha =>
    (hpost a ha).stable (@Evolves.trans lists) hevolves) fun db₂ hevolves₂ w =>
      ⟨Evolves.refl db₂, fun _ _ => ?_⟩)
  exact run_relies hsound hapart hlist ((h.evolves hevolves₁).evolves hevolves₂)

end Openings
end DbMigrate
end Artifacts
