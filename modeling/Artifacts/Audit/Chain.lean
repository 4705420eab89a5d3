import Artifacts.Audit.Store
import Artifacts.Foundation.Runs

/-!
# Runs of `record` and `prune_older_than`

The chain's invariant is `Chained`: every row carries hashes, the links start at
the genesis hash, and every row is sealed.  `record` keeps it; a prune keeps it
only when no row it deletes stands before a row it leaves, because
`verify_chain` expects the first row to name the genesis hash and every other row
to name a row that is still there.

SHA-256 is a parameter.  That its digests differ on the rows that meet is asked for once, as
`CollisionFree`, and only where a prune is read off the chain it leaves.  A table that was
edited by hand is the subject of `Tamper`.
-/

namespace Artifacts
namespace Audit

open Foundation Rust

/-- The invariant of a table whose chain verifies in full: every row has a hash, which is that of
its columns, and names the hash of the row before it. The first row names the genesis hash, so the
oldest rows are all there. -/
structure Chained (sha256 : List UInt8 → Vector UInt8 32) (t : AuditTable) : Prop where
  hashed : ∀ row ∈ t.rows, row.rowHash.isSome = true
  linked : Linked AuditRow.prevHash AuditRow.rowHash (some genesisHash) t.rows
  sealed : ∀ row ∈ t.rows, Sealed sha256 row

/-- The calls of a run. -/
inductive AuditOp where
  | record (evt : AuditEvent)
  | pruneOlderThan (cutoffTs : Int64)
  deriving DecidableEq, Repr

/-- The string whose digest `verify_chain` recomputes for a stored row. -/
def AuditRow.hashInput (row : AuditRow) : List UInt8 :=
  Audit.hashInput (row.prevHash.getD []) row.decode

/-- `verify_chain` succeeds and counts every row of the table. It passes over rows without a hash,
so the count is part of it. -/
def Verifies (sha256 : List UInt8 → Vector UInt8 32) (t : AuditTable) : Prop :=
  t.verifyChain sha256 = .ok ⟨t.rows.length⟩

instance (sha256 : List UInt8 → Vector UInt8 32) : DecidablePred (Verifies sha256) :=
  fun t => inferInstanceAs (Decidable (t.verifyChain sha256 = .ok ⟨t.rows.length⟩))

/-- Pruning meets the chain's needs: a row older than the cutoff is followed
only by rows that are older than the cutoff too. -/
def PrunesNewest (t : AuditTable) : AuditOp → Prop
  | .record _ => True
  | .pruneOlderThan cutoffTs =>
      t.rows.Pairwise fun older newer =>
        older.columns.ts < cutoffTs → newer.columns.ts < cutoffTs

instance (t : AuditTable) : ∀ op, Decidable (PrunesNewest t op)
  | .record _ => isTrue trivial
  | .pruneOlderThan cutoffTs =>
      decidable_of_iff (t.rows.Pairwise fun older newer : AuditRow =>
        older.columns.ts < cutoffTs → newer.columns.ts < cutoffTs) Iff.rfl

/-- SHA-256 is injective on the strings hashed for the given rows. -/
def InjectiveOn (sha256 : List UInt8 → Vector UInt8 32) (rows : List AuditRow) : Prop :=
  ∀ row ∈ rows, ∀ row' ∈ rows,
    sha256 row.hashInput = sha256 row'.hashInput → row.hashInput = row'.hashInput

instance (sha256 : List UInt8 → Vector UInt8 32) (rows : List AuditRow) :
    Decidable (InjectiveOn sha256 rows) :=
  inferInstanceAs (Decidable (∀ row ∈ rows, ∀ row' ∈ rows,
    sha256 row.hashInput = sha256 row'.hashInput → row.hashInput = row'.hashInput))

/-- No two strings hashed for the table collide, and none hashes to the genesis. -/
def CollisionFree (sha256 : List UInt8 → Vector UInt8 32) (t : AuditTable) : Prop :=
  InjectiveOn sha256 t.rows ∧ ∀ row ∈ t.rows, (sha256 row.hashInput).toList ≠ genesisHash

instance (sha256 : List UInt8 → Vector UInt8 32) : DecidablePred (CollisionFree sha256) :=
  fun t => inferInstanceAs (Decidable (InjectiveOn sha256 t.rows ∧
    ∀ row ∈ t.rows, (sha256 row.hashInput).toList ≠ genesisHash))

section Runs

variable (sha256 : List UInt8 → Vector UInt8 32)

/-- One call on the store. -/
def AuditTable.apply (t : AuditTable) : AuditOp → AuditTable
  | .record evt => t.record sha256 evt
  | .pruneOlderThan cutoffTs => (t.pruneOlderThan cutoffTs).1

end Runs

variable {sha256 : List UInt8 → Vector UInt8 32}

namespace Chained

theorem chained_eq {t : AuditTable} (h : Chained sha256 t) : t.chained = t.rows := by
  rw [AuditTable.chained, List.filter_eq_self]
  exact h.hashed

theorem verifies {t : AuditTable} (h : Chained sha256 t) : Verifies sha256 t := by
  rw [Verifies, verifyChain_eq_ok_iff, h.chained_eq]
  exact ⟨h.linked, h.sealed, rfl⟩

theorem empty : Chained sha256 AuditTable.empty where
  hashed := by simp [AuditTable.empty]
  linked := trivial
  sealed := by simp [AuditTable.empty]

/-- **Append step.** -/
theorem record {t : AuditTable} (h : Chained sha256 t) (evt : AuditEvent) :
    Chained sha256 (t.record sha256 evt) where
  hashed := by
    intro row hrow
    rcases List.mem_append.mp hrow with hold | hnew
    · exact h.hashed row hold
    · rw [List.mem_singleton.mp hnew]
      rfl
  linked := by
    refine (linked_snoc _ _ _).mpr ⟨h.linked, ?_⟩
    change some t.tailHash = _
    rw [tailHash_eq_tip, h.chained_eq]
  sealed := by
    intro row hrow
    rcases List.mem_append.mp hrow with hold | hnew
    · exact h.sealed row hold
    · rw [List.mem_singleton.mp hnew]
      refine ⟨t.tailHash, rfl, ?_⟩
      rw [decode_encode]
      rfl

/-- A selection of rows keeps the invariant if it keeps the links. -/
theorem keep {t : AuditTable} (h : Chained sha256 t) {p : AuditRow → Bool}
    (hlinked : Linked AuditRow.prevHash AuditRow.rowHash (some genesisHash)
      (t.rows.filter p)) : Chained sha256 (t.keep p) where
  hashed := fun row hrow => h.hashed row (List.mem_of_mem_filter hrow)
  linked := hlinked
  sealed := fun row hrow => h.sealed row (List.mem_of_mem_filter hrow)

/-- Every link of the chain is a digest of 32 bytes. -/
theorem prevHash_length {t : AuditTable} (h : Chained sha256 t) {row : AuditRow}
    (hrow : row ∈ t.rows) {prevHash : List UInt8} (hprev : row.prevHash = some prevHash) :
    prevHash.length = 32 := by
  have hmem := h.linked.prev_mem hrow
  rw [hprev, linkDigests, List.mem_cons, List.mem_map] at hmem
  rcases hmem with hgenesis | ⟨below, hbelow, hhash⟩
  · obtain rfl := Option.some.inj hgenesis
    exact length_genesisHash
  · obtain ⟨p, -, hsealed⟩ := h.sealed below hbelow
    rw [hsealed] at hhash
    obtain rfl := Option.some.inj hhash
    exact length_hashRow p below.decode

theorem rowHash_eq {t : AuditTable} (h : Chained sha256 t) {row : AuditRow}
    (hrow : row ∈ t.rows) : row.rowHash = some (sha256 row.hashInput).toList := by
  obtain ⟨p, hprev, hhash⟩ := h.sealed row hrow
  rw [hhash, AuditRow.hashInput, hprev]
  rfl

/-- Without collisions the digests of the chain are pairwise distinct. -/
theorem digests_nodup {t : AuditTable} (h : Chained sha256 t) (hfree : CollisionFree sha256 t) :
    (linkDigests AuditRow.rowHash (some genesisHash) t.rows).Nodup := by
  refine h.linked.digests_nodup ?_ ?_
  · intro row hrow row' hrow' heq
    rw [h.rowHash_eq hrow, h.rowHash_eq hrow', Option.some.injEq, Vector.toList_inj] at heq
    have hinput := hfree.1 row hrow row' hrow' heq
    obtain ⟨p, hp, -⟩ := h.sealed row hrow
    obtain ⟨p', hp', -⟩ := h.sealed row' hrow'
    -- the link is the first 32 bytes of the hashed string
    have hlength : p.length = p'.length := by
      rw [h.prevHash_length hrow hp, h.prevHash_length hrow' hp']
    simp only [AuditRow.hashInput, hp, hp', Option.getD_some, hashInput_eq] at hinput
    rw [hp, hp', (List.append_inj hinput hlength).1]
  · intro row hrow heq
    rw [h.rowHash_eq hrow] at heq
    exact hfree.2 row hrow (Option.some.inj heq)

/-- **Prune step.** A prune of the newest rows keeps the chain. -/
theorem prune {t : AuditTable} (h : Chained sha256 t) {cutoffTs : Int64}
    (hnewest : PrunesNewest t (.pruneOlderThan cutoffTs)) :
    Chained sha256 (t.pruneOlderThan cutoffTs).1 := by
  refine h.keep (h.linked.of_prefix ((filter_prefix_iff_pairwise _ _).mpr ?_))
  refine hnewest.imp fun hts hkept => ?_
  simp only [Bool.not_eq_true', decide_eq_false_iff_not] at hkept ⊢
  exact fun hold => hkept (hts hold)

/-- **Prune step, converse.** Without collisions no other prune does. -/
theorem prunesNewest_of_verifies {t : AuditTable} (h : Chained sha256 t)
    (hfree : CollisionFree sha256 t) {cutoffTs : Int64}
    (hverifies : Verifies sha256 (t.pruneOlderThan cutoffTs).1) :
    PrunesNewest t (.pruneOlderThan cutoffTs) := by
  have hchained : (t.pruneOlderThan cutoffTs).1.chained = (t.pruneOlderThan cutoffTs).1.rows :=
    List.filter_eq_self.mpr fun row hrow => h.hashed row (List.mem_of_mem_filter hrow)
  have hlinked := ((verifyChain_eq_ok_iff _ _).mp hverifies).1
  rw [hchained] at hlinked
  have hunder := (linked_sublist_iff h.linked (h.digests_nodup hfree)
    List.filter_sublist).mp hlinked
  refine ((filter_prefix_iff_pairwise _ _).mp hunder).imp fun hts hold => ?_
  by_contra hnew
  simp only [Bool.not_eq_true', decide_eq_false_iff_not] at hts
  exact hts hnew hold

theorem apply {t : AuditTable} (h : Chained sha256 t) {op : AuditOp}
    (hnewest : PrunesNewest t op) : Chained sha256 (t.apply sha256 op) := by
  cases op with
  | record evt => exact h.record evt
  | pruneOlderThan cutoffTs => exact h.prune hnewest

end Chained

/-- **When the audit chain verifies along a run.** From an empty table, every state of a run
verifies in full if each prune deletes newest rows only; without digest collisions this is also
necessary. The run is any list of `record` and `prune_older_than` calls, with any events and
cutoffs. SHA-256 is a parameter: the first half holds of every digest function, and only the second
half asks that no two rows that meet in the run share a digest. -/
theorem verify_chain_along_run (sha256 : List UInt8 → Vector UInt8 32) (ops : List AuditOp) :
    (EveryStep (AuditTable.apply sha256) PrunesNewest .empty ops →
        EveryState (AuditTable.apply sha256) (Verifies sha256) .empty ops) ∧
      (EveryState (AuditTable.apply sha256) (CollisionFree sha256) .empty ops →
        EveryState (AuditTable.apply sha256) (Verifies sha256) .empty ops →
        EveryStep (AuditTable.apply sha256) PrunesNewest .empty ops) := by
  constructor
  · exact everyState_of_everyStep (fun t h => h.verifies) (fun t op h => h.apply) Chained.empty
  · intro hfree hverifies
    refine everyStep_of_everyState (I := Chained sha256) (fun t op h => h.apply) ?_
      Chained.empty (hverifies.and hfree)
    intro t op h hbefore hafter
    cases op with
    | record evt => trivial
    | pruneOlderThan cutoffTs => exact h.prunesNewest_of_verifies hbefore.2 hafter.1

/-! ### A retention prune at work -/

/-- SHA-256 on the strings of a short run, as pairs of string and digest. -/
def sha256Lookup (known : List (List UInt8 × Vector UInt8 32)) (bytes : List UInt8) :
    Vector UInt8 32 :=
  ((known.find? fun entry => entry.1 == bytes).map Prod.snd).getD (Vector.replicate 32 0)

def repoCreated : AuditEvent where
  id := 0
  ts := 1
  event := "repo.create"
  actor := "admin"
  repoId := some ⟨"demo-1", by decide⟩
  fieldsJson := "\x7b\x7d"
  requestId := none

def repoDeleted : AuditEvent :=
  { repoCreated with ts := 10, event := "repo.delete" }

def repoCreatedHash : Vector UInt8 32 :=
  #v[213, 215, 17, 64, 130, 170, 163, 56, 2, 243, 205, 147, 70, 181, 130, 216,
    61, 182, 85, 129, 80, 86, 89, 104, 106, 189, 97, 101, 121, 212, 125, 123]

def repoDeletedHash : Vector UInt8 32 :=
  #v[152, 21, 23, 164, 133, 61, 147, 122, 55, 64, 136, 30, 155, 245, 159, 80,
    49, 248, 255, 99, 150, 197, 149, 204, 227, 64, 122, 97, 230, 39, 176, 213]

/-- SHA-256 on the strings hashed for the two events above. -/
def sha256Sample : List UInt8 → Vector UInt8 32 :=
  sha256Lookup
    [(hashInput genesisHash repoCreated, repoCreatedHash),
      (hashInput repoCreatedHash.toList repoDeleted, repoDeletedHash)]

/-- Pruning the older of two events leaves a chain that does not verify. -/
theorem verify_chain_fails_after_prune :
    ¬ EveryState (AuditTable.apply sha256Sample) (Verifies sha256Sample) .empty
      [.record repoCreated, .record repoDeleted, .pruneOlderThan 5] := by
  decide

/-- Both directions on runs that prune everything, and that prune the oldest. -/
theorem verify_chain_along_sample_runs :
    EveryState (AuditTable.apply sha256Sample) (Verifies sha256Sample) .empty
        [.record repoCreated, .record repoDeleted, .pruneOlderThan 11] ∧
      EveryStep (AuditTable.apply sha256Sample) PrunesNewest .empty
        [.record repoCreated, .record repoDeleted] :=
  ⟨(verify_chain_along_run sha256Sample
      [.record repoCreated, .record repoDeleted, .pruneOlderThan 11]).1 (by decide),
    (verify_chain_along_run sha256Sample
      [.record repoCreated, .record repoDeleted]).2 (by decide) (by decide)⟩

end Audit
end Artifacts
