import Artifacts.Audit.Chain
import Artifacts.Foundation.Separators

/-!
# What `verify_chain` detects

An attacker with write access to the database rewrites the hashed columns of one
row, or deletes one row, of a chain that `record` built.

* A rewrite is detected exactly when it changes `ts` or the zero-free pieces of
  the five hashed words: `NULL` and the empty string are hashed alike, so are
  `NULL` and a `repo_id` that does not parse, and zero bytes inside the words
  are taken for separators.
* A deletion below the newest row is detected exactly when the row's own hash is
  not the hash it names.

The edits are of one row at a time, and the attacker does not hash anew what he has changed.
That the newest row is gone, or several of the newest, leaves no trace in the chain.
-/

namespace Artifacts
namespace Audit

open Foundation Rust

namespace AuditTable

/-- `UPDATE audit_events SET <the hashed columns> WHERE id = ?`. -/
def rewrite (t : AuditTable) (id : Nat) (columns : AuditColumns) : AuditTable where
  rows := t.rows.map fun row => if row.id = id then { row with columns := columns } else row
  lastId := t.lastId
  sorted := by
    refine List.pairwise_map.mpr (t.sorted.imp fun hlt => ?_)
    split_ifs <;> exact hlt
  bounded := by
    intro row hrow
    obtain ⟨old, hold, rfl⟩ := List.mem_map.mp hrow
    have hle := t.bounded old hold
    split_ifs <;> exact hle

/-- `DELETE FROM audit_events WHERE id = ?`. -/
def deleteRow (t : AuditTable) (id : Nat) : AuditTable :=
  t.keep fun row => row.id != id

/-- The table after recording some events, oldest first. -/
def recordAll (sha256 : List UInt8 → Vector UInt8 32) (events : List AuditEvent) : AuditTable :=
  events.foldl (record sha256) empty

end AuditTable

/-- `verify_chain` reports an error, whichever. The report need not name the row that was touched.
-/
def Detected (sha256 : List UInt8 → Vector UInt8 32) (t : AuditTable) : Prop :=
  ∃ e, t.verifyChain sha256 = .error e

/-- The zero-free pieces of the words hashed for some stored columns, in order. -/
def AuditColumns.hashedPieces (columns : AuditColumns) : List (List UInt8) :=
  pieces 0
    [asBytes columns.event, asBytes columns.actor,
      asBytes (((decodeRepoId columns.repoId).map RepoId.text).getD ""),
      asBytes columns.fieldsJson, asBytes (columns.requestId.getD "")]

variable {sha256 : List UInt8 → Vector UInt8 32}

theorem chained_recordAll (events : List AuditEvent) :
    Chained sha256 (AuditTable.recordAll sha256 events) := by
  have hfold : ∀ (t : AuditTable), Chained sha256 t →
      Chained sha256 (events.foldl (AuditTable.record sha256) t) := by
    induction events with
    | nil => exact fun t h => h
    | cons evt events ih => exact fun t h => ih (t.record sha256 evt) (h.record evt)
  exact hfold AuditTable.empty Chained.empty

/-- Rows of one table are told apart by their ids. -/
theorem AuditTable.row_ext (t : AuditTable) {row row' : AuditRow} (h : row ∈ t.rows)
    (h' : row' ∈ t.rows) (hid : row.id = row'.id) : row = row' := by
  have hnodup : (t.rows.map AuditRow.id).Nodup :=
    List.pairwise_map.mpr (t.sorted.imp fun hlt => Nat.ne_of_lt hlt)
  exact List.inj_on_of_nodup_map hnodup h h' hid

/-- A table of hashed rows escapes detection exactly when it is linked and sealed. -/
theorem not_detected_iff {t : AuditTable} (hashed : ∀ row ∈ t.rows, row.rowHash.isSome = true) :
    ¬ Detected sha256 t ↔
      Linked AuditRow.prevHash AuditRow.rowHash (some genesisHash) t.rows ∧
        ∀ row ∈ t.rows, Sealed sha256 row := by
  have hchained : t.chained = t.rows := List.filter_eq_self.mpr hashed
  have hok : ¬ Detected sha256 t ↔ ∃ ok, t.verifyChain sha256 = .ok ok := by
    rw [Detected]
    cases hverify : t.verifyChain sha256 with
    | error e => simp
    | ok v => simp
  rw [hok]
  simp only [verifyChain_eq_ok_iff, hchained]
  constructor
  · rintro ⟨ok, hlinked, hsealed, -⟩
    exact ⟨hlinked, hsealed⟩
  · rintro ⟨hlinked, hsealed⟩
    exact ⟨⟨t.rows.length⟩, hlinked, hsealed, rfl⟩

/-- The hashed string determines the timestamp and the pieces of the words. -/
theorem hashInput_rewrite_eq_iff (row : AuditRow) (columns : AuditColumns) :
    ({ row with columns := columns } : AuditRow).hashInput = row.hashInput ↔
      columns.ts = row.columns.ts ∧ columns.hashedPieces = row.columns.hashedPieces := by
  have hwords : ∀ evt : AuditEvent, evt.words ≠ [] := fun evt => by simp [AuditEvent.words]
  simp only [AuditRow.hashInput, hashInput_eq]
  rw [List.append_cancel_left_eq]
  constructor
  · intro h
    obtain ⟨hts, hjoined⟩ := List.append_inj h (by simp)
    exact ⟨toLeBytes_inj.mp hts,
      (intercalate_eq_iff_pieces (hwords _) (hwords _)).mp hjoined⟩
  · rintro ⟨hts, hpieces⟩
    have hsame : pieces 0 ({ row with columns := columns } : AuditRow).decode.words =
        pieces 0 row.decode.words := hpieces
    exact congrArg₂ (· ++ ·) (toLeBytes_inj.mpr hts)
      ((intercalate_eq_iff_pieces (hwords _) (hwords _)).mpr hsame)

/-- The rows of a rewritten table, seen from the rewritten row. -/
theorem AuditTable.mem_rewrite (t : AuditTable) {row : AuditRow} (hrow : row ∈ t.rows)
    (columns : AuditColumns) :
    ({ row with columns := columns } : AuditRow) ∈ (t.rewrite row.id columns).rows :=
  List.mem_map.mpr ⟨row, hrow, by simp⟩

/-- Rewriting one row leaves the other rows sealed, so the chain stays sealed
exactly when the rewritten row is. -/
theorem sealed_rewrite_iff {t : AuditTable} (h : Chained sha256 t) {row : AuditRow}
    (hrow : row ∈ t.rows) (columns : AuditColumns) :
    (∀ row' ∈ (t.rewrite row.id columns).rows, Sealed sha256 row') ↔
      Sealed sha256 { row with columns := columns } := by
  constructor
  · intro hall
    exact hall _ (t.mem_rewrite hrow columns)
  · intro hsealed row' hrow'
    obtain ⟨old, hold, rfl⟩ := List.mem_map.mp hrow'
    split_ifs with hid
    · rw [t.row_ext hold hrow hid]
      exact hsealed
    · exact h.sealed old hold

/-- **Rewriting a row.** -/
theorem detected_rewrite_iff {t : AuditTable} (h : Chained sha256 t) {row : AuditRow}
    (hrow : row ∈ t.rows) (columns : AuditColumns)
    (hinj : InjectiveOn sha256 (t.rows ++ (t.rewrite row.id columns).rows)) :
    Detected sha256 (t.rewrite row.id columns) ↔
      columns.ts ≠ row.columns.ts ∨ columns.hashedPieces ≠ row.columns.hashedPieces := by
  have hashed : ∀ row' ∈ (t.rewrite row.id columns).rows, row'.rowHash.isSome = true := by
    intro row' hrow'
    obtain ⟨old, hold, rfl⟩ := List.mem_map.mp hrow'
    have := h.hashed old hold
    split_ifs <;> exact this
  have hlinked : Linked AuditRow.prevHash AuditRow.rowHash (some genesisHash)
      (t.rewrite row.id columns).rows := by
    refine (linked_map_iff ?_ ?_).mpr h.linked
    · intro old _
      split_ifs <;> rfl
    · intro old _
      split_ifs <;> rfl
  have hsealed : Sealed sha256 { row with columns := columns } ↔
      ({ row with columns := columns } : AuditRow).hashInput = row.hashInput := by
    obtain ⟨p, hprev, -⟩ := h.sealed row hrow
    have hhash := h.rowHash_eq hrow
    constructor
    · rintro ⟨p', hp', hhash'⟩
      refine hinj _ (List.mem_append_right _ (t.mem_rewrite hrow columns)) _
        (List.mem_append_left _ hrow) ?_
      rw [hhash, Option.some.injEq] at hhash'
      rw [← Vector.toList_inj, hhash', AuditRow.hashInput, hp']
      rfl
    · intro heq
      refine ⟨p, hprev, ?_⟩
      rw [hhash, ← heq, AuditRow.hashInput, hprev]
      rfl
  rw [← not_iff_not, not_detected_iff hashed, sealed_rewrite_iff h hrow, hsealed,
    hashInput_rewrite_eq_iff]
  simp [hlinked]

/-- **Deleting a row** that is not the newest. -/
theorem detected_deleteRow_iff {t : AuditTable} (h : Chained sha256 t) {row newer : AuditRow}
    (hrow : row ∈ t.rows) (hnewer : newer ∈ t.rows) (hlt : row.id < newer.id) :
    Detected sha256 (t.deleteRow row.id) ↔ row.rowHash ≠ row.prevHash := by
  obtain ⟨before, after, hrows⟩ := List.append_of_mem hrow
  have hsorted := t.sorted
  rw [hrows, List.pairwise_append, List.pairwise_cons] at hsorted
  obtain ⟨-, ⟨hafter, -⟩, hbefore⟩ := hsorted
  have hkept : (t.deleteRow row.id).rows = before ++ after := by
    have hb : ∀ x ∈ before, x.id ≠ row.id := fun x hx =>
      Nat.ne_of_lt (hbefore x hx row List.mem_cons_self)
    have ha : ∀ x ∈ after, x.id ≠ row.id := fun x hx => Nat.ne_of_gt (hafter x hx)
    change t.rows.filter _ = _
    rw [hrows, List.filter_append, List.filter_cons_of_neg (by simp)]
    rw [List.filter_eq_self.mpr (by simpa using hb), List.filter_eq_self.mpr (by simpa using ha)]
  have hne : after ≠ [] := by
    rintro rfl
    rw [hrows, List.mem_append, List.mem_singleton] at hnewer
    rcases hnewer with hold | rfl
    · exact absurd hlt (Nat.lt_asymm (hbefore newer hold row List.mem_cons_self))
    · exact absurd hlt (Nat.lt_irrefl _)
  have hashed : ∀ x ∈ (t.deleteRow row.id).rows, x.rowHash.isSome = true :=
    fun x hx => h.hashed x (List.mem_of_mem_filter hx)
  have hsealed : ∀ x ∈ (t.deleteRow row.id).rows, Sealed sha256 x :=
    fun x hx => h.sealed x (List.mem_of_mem_filter hx)
  have hlinked := h.linked
  rw [hrows] at hlinked
  rw [← not_iff_not, not_detected_iff hashed, not_not, hkept, linked_delete_iff hlinked hne,
    ← hkept]
  exact and_iff_left hsealed

/-- **What tampering a recorded chain shows.** A row that is rewritten is detected exactly when its
`ts` or the zero-free pieces of its hashed words have changed, as long as no two rows share a
digest. A row that is deleted below the newest one is detected exactly when its hash is not the hash
it names. The table is what any list of events records, and the rewritten columns are any. The
newest row is left out: without it the chain still verifies. -/
theorem tampering_detected_iff (sha256 : List UInt8 → Vector UInt8 32)
    (events : List AuditEvent) (row : AuditRow)
    (hrow : row ∈ (AuditTable.recordAll sha256 events).rows) :
    (∀ columns, columns ≠ row.columns →
        InjectiveOn sha256 ((AuditTable.recordAll sha256 events).rows ++
          ((AuditTable.recordAll sha256 events).rewrite row.id columns).rows) →
        (Detected sha256 ((AuditTable.recordAll sha256 events).rewrite row.id columns) ↔
          columns.ts ≠ row.columns.ts ∨ columns.hashedPieces ≠ row.columns.hashedPieces)) ∧
      ((∃ newer ∈ (AuditTable.recordAll sha256 events).rows, row.id < newer.id) →
        (Detected sha256 ((AuditTable.recordAll sha256 events).deleteRow row.id) ↔
          row.rowHash ≠ row.prevHash)) := by
  have h : Chained sha256 (AuditTable.recordAll sha256 events) := chained_recordAll events
  constructor
  · intro columns _ hinj
    exact detected_rewrite_iff h hrow columns hinj
  · rintro ⟨newer, hnewer, hlt⟩
    exact detected_deleteRow_iff h hrow hnewer hlt

/-- SHA-256 of `repoCreated` with another actor. -/
def malloryHash : Vector UInt8 32 :=
  #v[99, 246, 245, 235, 162, 22, 39, 57, 40, 175, 173, 207, 180, 66, 136, 221,
    76, 158, 152, 154, 167, 8, 188, 83, 168, 253, 31, 123, 32, 188, 24, 119]

/-- SHA-256 on the strings hashed for the two sample events and the rewritten one. -/
def sha256Rewritten : List UInt8 → Vector UInt8 32 :=
  sha256Lookup
    [(hashInput genesisHash repoCreated, repoCreatedHash),
      (hashInput repoCreatedHash.toList repoDeleted, repoDeletedHash),
      (hashInput genesisHash { repoCreated with actor := "mallory" }, malloryHash)]

/-- The row that recording `repoCreated` into an empty table leaves. -/
def repoCreatedRow : AuditRow where
  id := 1
  columns := repoCreated.encode
  prevHash := some genesisHash
  rowHash := some repoCreatedHash.toList

/-- A new actor on the first of two rows is detected, and so is its deletion. -/
theorem tampering_detected_first_row :
    Detected sha256Rewritten
        ((AuditTable.recordAll sha256Rewritten [repoCreated, repoDeleted]).rewrite 1
          { repoCreated.encode with actor := "mallory" }) ∧
      Detected sha256Rewritten
        ((AuditTable.recordAll sha256Rewritten [repoCreated, repoDeleted]).deleteRow 1) :=
  have h := tampering_detected_iff sha256Rewritten [repoCreated, repoDeleted] repoCreatedRow
    (by decide)
  ⟨(h.1 { repoCreated.encode with actor := "mallory" } (by decide) (by decide)).mpr
      (Or.inr (by decide)),
    (h.2 (by decide)).mpr (by decide)⟩

/-- A `NULL` request id rewritten to the empty string is not detected. -/
theorem tampering_null_to_empty_undetected :
    InjectiveOn sha256Sample
        ((AuditTable.recordAll sha256Sample [repoCreated]).rows ++
          ((AuditTable.recordAll sha256Sample [repoCreated]).rewrite 1
            { repoCreated.encode with requestId := some "" }).rows) ∧
      ({ repoCreated.encode with requestId := some "" } : AuditColumns) ≠ repoCreated.encode ∧
      ((AuditTable.recordAll sha256Sample [repoCreated]).rewrite 1
        { repoCreated.encode with requestId := some "" }).verifyChain sha256Sample = .ok ⟨1⟩ := by
  decide

end Audit
end Artifacts
