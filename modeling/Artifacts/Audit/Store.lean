import Artifacts.Foundation.HashChain
import Artifacts.Ids
import Artifacts.Rust.Bytes

/-!
# The audit log and its hash chain

`AuditTable` is the table `audit_events` of one SQLite database, its rows in
ascending `id`.  `record`, `pruneOlderThan` and `verifyChain` are the methods of
`SqliteAuditStore`; database failures are out of the model, so `record` and
`pruneOlderThan` always commit.

SHA-256 is a parameter: a function from byte strings to 32 bytes.

* `hashRow` is the digest of a row: of the digest before it, its `ts` and its five words.
* `verifyLoop` reads the rows in order; `verifyLoop_eq_ok_iff` says of it once and for all when
  it accepts, in terms of `Linked`.
* `AuditTable` has its order as a field, so no lemma has to prove it again.
-/

namespace Artifacts
namespace Audit

open Foundation Rust

/-- One row of the audit log, as the crate reads and writes it. -/
structure AuditEvent where
  id : Nat
  ts : Int64
  event : String
  actor : String
  repoId : Option RepoId
  fieldsJson : String
  requestId : Option String
  deriving DecidableEq, Repr

/-- Seed of the hash chain. -/
def genesisHash : List UInt8 := List.replicate 32 0

/-- The words that `hash_row` separates by a zero byte. -/
def AuditEvent.words (evt : AuditEvent) : List (List UInt8) :=
  [asBytes evt.event, asBytes evt.actor, asBytes ((evt.repoId.map RepoId.text).getD ""),
    asBytes evt.fieldsJson, asBytes (evt.requestId.getD "")]

/-- The byte string that `hash_row` feeds to the digest, update by update. -/
def hashInput (prevHash : List UInt8) (evt : AuditEvent) : List UInt8 :=
  prevHash ++ toLeBytes evt.ts ++
    asBytes evt.event ++ [0] ++
    asBytes evt.actor ++ [0] ++
    asBytes ((evt.repoId.map RepoId.text).getD "") ++ [0] ++
    asBytes evt.fieldsJson ++ [0] ++
    asBytes (evt.requestId.getD "")

/-- The hashed columns of a stored row.  `repo_id` is plain text here: the
decoding into a `RepoId` happens on read. -/
structure AuditColumns where
  ts : Int64
  event : String
  actor : String
  repoId : Option String
  fieldsJson : String
  requestId : Option String
  deriving DecidableEq, Repr

/-- A stored row. Rows older than the chain migration have no hashes. -/
structure AuditRow where
  id : Nat
  columns : AuditColumns
  prevHash : Option (List UInt8)
  rowHash : Option (List UInt8)
  deriving DecidableEq, Repr

/-- `row.get::<_, Option<String>>(4)?.and_then(|s| RepoId::try_from(s).ok())`. -/
def decodeRepoId (stored : Option String) : Option RepoId :=
  stored.bind fun s => (RepoId.tryFrom s).toOption

/-- The event a stored row decodes to. -/
def AuditRow.decode (row : AuditRow) : AuditEvent where
  id := row.id
  ts := row.columns.ts
  event := row.columns.event
  actor := row.columns.actor
  repoId := decodeRepoId row.columns.repoId
  fieldsJson := row.columns.fieldsJson
  requestId := row.columns.requestId

/-- The columns that `record` binds for an event. -/
def AuditEvent.encode (evt : AuditEvent) : AuditColumns where
  ts := evt.ts
  event := evt.event
  actor := evt.actor
  repoId := evt.repoId.map RepoId.text
  fieldsJson := evt.fieldsJson
  requestId := evt.requestId

/-- `audit_events`: the rows in ascending `id`, and the highest `id` ever given
out (`AUTOINCREMENT` does not reuse the ids of deleted rows). -/
structure AuditTable where
  rows : List AuditRow
  lastId : Nat
  sorted : rows.Pairwise (fun older newer => older.id < newer.id)
  bounded : ∀ row ∈ rows, row.id ≤ lastId

namespace AuditTable

/-- A freshly migrated database. -/
def empty : AuditTable where
  rows := []
  lastId := 0
  sorted := List.Pairwise.nil
  bounded := by simp

/-- `WHERE row_hash IS NOT NULL ORDER BY id ASC`. -/
def chained (t : AuditTable) : List AuditRow :=
  t.rows.filter fun row => row.rowHash.isSome

/-- The rows that a row predicate selects, as a table. -/
def keep (t : AuditTable) (p : AuditRow → Bool) : AuditTable where
  rows := t.rows.filter p
  lastId := t.lastId
  sorted := t.sorted.filter p
  bounded := fun row hrow => t.bounded row (List.mem_of_mem_filter hrow)

end AuditTable

/-- Result of a successful `verify_chain` run. -/
structure ChainVerifyOk where
  verified : Nat
  deriving DecidableEq, Repr

section Sha256

variable (sha256 : List UInt8 → Vector UInt8 32)

/-- `hash_row`: the digest of the hash before it and the columns of the event, as the store is given
it. `verify_chain` makes the same of the columns it reads back. -/
def hashRow (prevHash : List UInt8) (evt : AuditEvent) : List UInt8 :=
  (sha256 (hashInput prevHash evt)).toList

/-- The digest `record` chains to: the newest chained row's, else the genesis. -/
def AuditTable.tailHash (t : AuditTable) : List UInt8 :=
  match t.chained.getLast?.bind AuditRow.rowHash with
  | some h => h
  | none => genesisHash

/-- `SqliteAuditStore::record`. The new row goes behind the newest one that is there, under the next
id, and is chained to the last hash that the table has. -/
def AuditTable.record (t : AuditTable) (evt : AuditEvent) : AuditTable where
  rows := t.rows ++
    [{ id := t.lastId + 1
       columns := evt.encode
       prevHash := some t.tailHash
       rowHash := some (hashRow sha256 t.tailHash evt) }]
  lastId := t.lastId + 1
  sorted := by
    refine List.pairwise_append.mpr ⟨t.sorted, List.pairwise_singleton _ _, ?_⟩
    intro row hrow new hnew
    rw [List.mem_singleton.mp hnew]
    exact Nat.lt_succ_of_le (t.bounded row hrow)
  bounded := by
    intro row hrow
    rcases List.mem_append.mp hrow with hold | hnew
    · exact Nat.le_succ_of_le (t.bounded row hold)
    · exact Nat.le_of_eq (congrArg AuditRow.id (List.mem_singleton.mp hnew))

/-- `SqliteAuditStore::prune_older_than`: the table left, and how many rows went. -/
def AuditTable.pruneOlderThan (t : AuditTable) (cutoffTs : Int64) : AuditTable × Nat :=
  (t.keep fun row => !(row.columns.ts < cutoffTs),
    (t.rows.filter fun row => row.columns.ts < cutoffTs).length)

/-- The row loop of `verify_chain`. -/
def verifyLoop (expectedPrev : Option (List UInt8)) (verified : Nat) :
    List AuditRow → Result ChainVerifyOk
  | [] => .ok ⟨verified⟩
  | row :: rows =>
      match row.prevHash, row.rowHash with
      | none, _ =>
          .error (.db "Invalid column type Null at index: 7, name: prev_hash")
      | some _, none =>
          .error (.db "Invalid column type Null at index: 8, name: row_hash")
      | some storedPrev, some storedHash =>
          if storedPrev ≠ expectedPrev.getD genesisHash then
            .error (.other ("audit chain broken at row id=" ++ toString row.id ++
              ": prev_hash mismatch"))
          else if hashRow sha256 storedPrev row.decode ≠ storedHash then
            .error (.other ("audit chain broken at row id=" ++ toString row.id ++
              ": row_hash mismatch"))
          else
            verifyLoop (some storedHash) (verified + 1) rows

/-- `SqliteAuditStore::verify_chain`. It walks the rows that have a hash, from the oldest on, and
stops at the first that does not fit. -/
def AuditTable.verifyChain (t : AuditTable) : Result ChainVerifyOk :=
  verifyLoop sha256 none 0 t.chained

/-- A row whose stored hash is the recomputed one, from the hash it names as the one before and the
columns as they are read back. -/
def Sealed (row : AuditRow) : Prop :=
  ∃ prevHash, row.prevHash = some prevHash ∧
    row.rowHash = some (hashRow sha256 prevHash row.decode)

end Sha256

/-! ### What each operation does -/

section Lemmas

variable {sha256 : List UInt8 → Vector UInt8 32}

@[simp] theorem length_hashRow (prevHash : List UInt8) (evt : AuditEvent) :
    (hashRow sha256 prevHash evt).length = 32 := by
  simp [hashRow]

@[simp] theorem length_genesisHash : genesisHash.length = 32 := by
  simp [genesisHash]

/-- The hashed string is a fixed-width header followed by the joined words. -/
theorem hashInput_eq (prevHash : List UInt8) (evt : AuditEvent) :
    hashInput prevHash evt =
      prevHash ++ (toLeBytes evt.ts ++ [(0 : UInt8)].intercalate evt.words) := by
  simp [hashInput, AuditEvent.words, List.intercalate]

@[simp] theorem decodeRepoId_text (id : Option RepoId) :
    decodeRepoId (id.map RepoId.text) = id := by
  cases id with
  | none => rfl
  | some id => simp [decodeRepoId, Except.toOption]

/-- Reading a recorded row gives back the event, under its new id. -/
theorem decode_encode (evt : AuditEvent) (id : Nat) (prevHash rowHash : Option (List UInt8)) :
    (AuditRow.mk id evt.encode prevHash rowHash).decode = { evt with id := id } := by
  simp [AuditRow.decode, AuditEvent.encode]

/-- The id does not enter the hash. -/
@[simp] theorem hashRow_id (prevHash : List UInt8) (evt : AuditEvent) (id : Nat) :
    hashRow sha256 prevHash { evt with id := id } = hashRow sha256 prevHash evt := rfl

/-- The row loop succeeds exactly on linked, sealed rows, and counts them. -/
theorem verifyLoop_eq_ok_iff (expectedPrev : Option (List UInt8)) (verified : Nat)
    (rows : List AuditRow) (ok : ChainVerifyOk) :
    verifyLoop sha256 expectedPrev verified rows = .ok ok ↔
      Linked AuditRow.prevHash AuditRow.rowHash (some (expectedPrev.getD genesisHash)) rows ∧
        (∀ row ∈ rows, Sealed sha256 row) ∧ ok.verified = verified + rows.length := by
  induction rows generalizing expectedPrev verified with
  | nil =>
      cases ok
      simp [verifyLoop, eq_comm]
  | cons row rows ih =>
      unfold verifyLoop
      split
      · rename_i hprev
        simp [Sealed, hprev]
      · rename_i hprev hhash
        simp [Sealed, hhash]
      · rename_i storedPrev storedHash hprev hhash
        have hlength : verified + (row :: rows).length = verified + 1 + rows.length := by
          simp only [List.length_cons]
          omega
        simp only [linked_cons, hprev, hhash, List.forall_mem_cons, hlength]
        split_ifs with hlink hseal
        · simp [hlink]
        · simp [Sealed, hprev, hhash, Ne.symm hseal]
        · simp only [ne_eq, not_not] at hlink hseal
          have hsealed : Sealed sha256 row := ⟨storedPrev, hprev, by rw [hhash, hseal]⟩
          rw [ih]
          simp [hsealed, hlink]

/-- **Specification of `verify_chain`.** -/
theorem verifyChain_eq_ok_iff (t : AuditTable) (ok : ChainVerifyOk) :
    t.verifyChain sha256 = .ok ok ↔
      Linked AuditRow.prevHash AuditRow.rowHash (some genesisHash) t.chained ∧
        (∀ row ∈ t.chained, Sealed sha256 row) ∧ ok.verified = t.chained.length := by
  simp [AuditTable.verifyChain, verifyLoop_eq_ok_iff]

/-- `record` chains to the tip of the chained rows. -/
theorem tailHash_eq_tip (t : AuditTable) :
    some t.tailHash = tip AuditRow.rowHash (some genesisHash) t.chained := by
  rw [tip_eq_getLast, AuditTable.tailHash]
  cases hlast : t.chained.getLast? with
  | none => rfl
  | some row =>
      have hmem : row ∈ t.chained := List.mem_of_getLast? hlast
      have hsome : row.rowHash.isSome = true := by
        simpa using (List.mem_filter.mp hmem).2
      obtain ⟨h, hh⟩ := Option.isSome_iff_exists.mp hsome
      simp [hh]

end Lemmas

end Audit
end Artifacts
