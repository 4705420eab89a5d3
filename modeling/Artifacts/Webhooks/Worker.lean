import Artifacts.Foundation.Runs
import Artifacts.Webhooks.SealedSecrets

/-!
# The delivery workers

A worker claims rows of the queue, sends each and marks what came of it.  `Outbox` is the
queue together with the deliveries that workers hold; a worker that crashes is one that
never goes on, and one that is slow marks its row whenever it likes.  Rows leave the queue
only when they are final and final rows are not claimed again, but the number of
deliveries is bounded by the column `attempts`, which a claim does not look at and a late
mark sets back.

`Outbox.Covered` is the invariant behind the bound: the sends of a row so far are no more than its
column says.  Whether the other side has received anything is not part of the state; a send
is counted when it is handed out.
-/

namespace Artifacts
namespace Webhooks
namespace Sqlite

open Events Foundation Rust Secrets

/-! ### One delivery -/

/-- `WORKER_MAX_ATTEMPTS`. -/
def workerMaxAttempts : Nat := 8

/-- `WORKER_BACKOFF_BASE_SECS`. -/
def workerBackoffBaseSecs : Nat := 60

/-- `WORKER_BACKOFF_MAX_SECS`. -/
def workerBackoffMaxSecs : Nat := 3600

/-- `worker_backoff_secs`: it doubles from attempt to attempt, up to an hour. -/
def workerBackoffSecs (attempt : Nat) : Int64 :=
  let shift := min (attempt - 1) 20
  let secs := workerBackoffBaseSecs * (1 <<< shift)
  Int64.ofNat (min secs workerBackoffMaxSecs)

/-- What the request of a delivery comes to. -/
inductive Sending where
  | ok (status : Nat)
  /-- `ureq::Error::Status`. -/
  | status (code : Nat)
  | transport

/-- The reason to send again, where there is one. -/
def Sending.retryReason : Sending → Option String
  | .ok _ => none
  | .status code => if 400 ≤ code ∧ code < 500 then none else some (toString code)
  | .transport => some "network"

/-- The mark of `dispatch_row`. -/
def Store.markDispatched (store : Store) (now : Int64) (row : PendingDelivery) :
    Sending → Store
  | .ok status => store.markDeliveryFinalized now row.id "success" (some (toString status))
  | .status code =>
      if 400 ≤ code ∧ code < 500 then
        store.markDeliveryFinalized now row.id "client_error" (some (toString code))
      else
        retryable (toString code)
  | .transport => retryable "network"
where
  retryable (reason : String) : Store :=
    if workerMaxAttempts ≤ row.attempts then
      store.markDeliveryFinalized now row.id "exhausted" (some reason)
    else
      store.markDeliveryRetry row.id row.attempts (now + workerBackoffSecs row.attempts) reason

/-! ### Workers on a queue -/

/-- The store, what workers hold, and how often each row was sent. -/
structure Outbox where
  store : Store
  claimed : List PendingDelivery
  /-- Sent, and yet to be marked. -/
  sent : List PendingDelivery
  dispatched : Nat → Nat

inductive Work where
  | enqueue (now : Int64) (repoId : RepoId) (kind : String) (payload : List UInt8)
  | claim (now : Int64) (limit : Nat)
  | send (row : PendingDelivery)
  | mark (now : Int64) (row : PendingDelivery) (sending : Sending)
  | prune (cutoff : Int64)
  /-- The workers that are under way are gone. -/
  | restart
  /-- The subscriptions or the master key change. -/
  | registry (webhooks : Table HookRow.id) (masterKey : MasterKey)

variable (crates : Crates)

def Outbox.step (s : Outbox) : Work → Outbox
  | .enqueue now repoId kind payload =>
      { s with store := (s.store.enqueueDelivery now repoId kind payload).1 }
  | .claim now limit =>
      { s with
        store := (s.store.claimPendingDeliveries crates now limit).1
        claimed := s.claimed ++ (s.store.claimPendingDeliveries crates now limit).2 }
  | .send row =>
      if row ∈ s.claimed then
        { s with
          claimed := s.claimed.erase row
          sent := row :: s.sent
          dispatched := Function.update s.dispatched row.id (s.dispatched row.id + 1) }
      else s
  | .mark now row sending =>
      if row ∈ s.sent then
        { s with store := s.store.markDispatched now row sending, sent := s.sent.erase row }
      else s
  | .prune cutoff => { s with store := (s.store.pruneFinalized cutoff).1 }
  | .restart => { s with claimed := [], sent := [] }
  | .registry webhooks masterKey =>
      { s with store := { s.store with webhooks := webhooks, masterKey := masterKey } }

/-- A row is not removed before it is final. -/
def Outbox.KeepsPending (s : Outbox) (w : Work) : Prop :=
  ∀ row ∈ s.store.deliveries.rows, row.finalizedAt = none →
    (s.step crates w).store.deliveries.has row.id = true

def Outbox.Final (s : Outbox) (id : Nat) : Prop :=
  ∃ row ∈ s.store.deliveries.rows, row.id = id ∧ row.finalizedAt.isSome = true

/-- The ids that a step claims. -/
def Outbox.claims (s : Outbox) : Work → List Nat
  | .claim now limit =>
      (s.store.claimPendingDeliveries crates now limit).2.map PendingDelivery.id
  | _ => []

/-- The column `attempts` of a row counts its claims: the row is not claimed after its last attempt,
and while it is not final no mark sets the column back. Both can happen when a worker stops before
its mark, or marks late. -/
def Outbox.Counted (id : Nat) (s : Outbox) : Work → Prop
  | .claim now limit =>
      ∀ row ∈ s.store.due now limit, row.id = id → row.attempts < workerMaxAttempts
  | .mark _ row sending =>
      row ∈ s.sent → row.id = id → sending.retryReason.isSome = true →
        row.attempts < workerMaxAttempts →
          ∀ stored ∈ s.store.deliveries.rows, stored.id = id → stored.finalizedAt = none →
            stored.attempts ≤ row.attempts
  | _ => True

instance (id : Nat) (s : Outbox) (w : Work) : Decidable (s.Counted id w) := by
  cases w with
  | claim now limit =>
      exact inferInstanceAs (Decidable (∀ row ∈ s.store.due now limit,
        row.id = id → row.attempts < workerMaxAttempts))
  | mark now row sending =>
      exact inferInstanceAs (Decidable (row ∈ s.sent → row.id = id →
        sending.retryReason.isSome = true → row.attempts < workerMaxAttempts →
          ∀ stored ∈ s.store.deliveries.rows, stored.id = id → stored.finalizedAt = none →
            stored.attempts ≤ row.attempts))
  | enqueue now repoId kind payload => exact inferInstanceAs (Decidable True)
  | send row => exact inferInstanceAs (Decidable True)
  | prune cutoff => exact inferInstanceAs (Decidable True)
  | restart => exact inferInstanceAs (Decidable True)
  | registry webhooks masterKey => exact inferInstanceAs (Decidable True)

instance (s : Outbox) (id : Nat) : Decidable (s.Final id) :=
  inferInstanceAs (Decidable (∃ row ∈ s.store.deliveries.rows,
    row.id = id ∧ row.finalizedAt.isSome = true))

variable {crates}

/-! ### What the operations do to a row -/

/-- A mark makes the row final, or sets its columns for another attempt. -/
theorem markDispatched_cases (store : Store) (now : Int64) (row : PendingDelivery)
    (sending : Sending) :
    (∃ outcome status, store.markDispatched now row sending =
      store.markDeliveryFinalized now row.id outcome status) ∨
    (sending.retryReason.isSome = true ∧ row.attempts < workerMaxAttempts ∧
      ∃ next reason, store.markDispatched now row sending =
        store.markDeliveryRetry row.id row.attempts next reason) := by
  have hretryable : ∀ reason,
      (∃ outcome status, Store.markDispatched.retryable store now row reason =
        store.markDeliveryFinalized now row.id outcome status) ∨
      (row.attempts < workerMaxAttempts ∧ ∃ next reason',
        Store.markDispatched.retryable store now row reason =
          store.markDeliveryRetry row.id row.attempts next reason') := by
    intro reason
    unfold Store.markDispatched.retryable
    by_cases hmax : workerMaxAttempts ≤ row.attempts
    · rw [if_pos hmax]
      exact Or.inl ⟨_, _, rfl⟩
    · rw [if_neg hmax]
      exact Or.inr ⟨Nat.lt_of_not_le hmax, _, _, rfl⟩
  cases sending with
  | ok status => exact Or.inl ⟨_, _, rfl⟩
  | status code =>
      unfold Store.markDispatched Sending.retryReason
      dsimp only
      by_cases hclient : 400 ≤ code ∧ code < 500
      · rw [if_pos hclient]
        exact Or.inl ⟨_, _, rfl⟩
      · rw [if_neg hclient, if_neg hclient]
        exact (hretryable (toString code)).imp id fun h => ⟨rfl, h⟩
  | transport => exact (hretryable "network").imp id fun h => ⟨rfl, h⟩

/-- A row behind an update of one id is an old one, or the update of that row. -/
theorem mem_updateDeliveries {store : Store} {id : Nat} {f : DeliveryRow → DeliveryRow}
    (hf : ∀ row, (f row).id = row.id) {after : DeliveryRow}
    (h : after ∈ (store.updateDeliveries (fun row => row.id == id) f hf).deliveries.rows) :
    ∃ stored ∈ store.deliveries.rows,
      (stored.id = id ∧ after = f stored) ∨ after = stored := by
  obtain ⟨stored, hstored, heq⟩ := (Table.mem_update hf).mp h
  refine ⟨stored, hstored, ?_⟩
  by_cases hid : (stored.id == id) = true
  · rw [if_pos hid] at heq
    exact Or.inl ⟨eq_of_beq hid, heq.symm⟩
  · rw [if_neg hid] at heq
    exact Or.inr heq.symm

/-- The rows after a mark: each is an old one, as final as before. -/
theorem mem_markDispatched {store : Store} {now : Int64} {row : PendingDelivery}
    {sending : Sending} {after : DeliveryRow}
    (h : after ∈ (store.markDispatched now row sending).deliveries.rows) :
    ∃ stored ∈ store.deliveries.rows, stored.id = after.id ∧
      (stored.finalizedAt.isSome = true → after.finalizedAt.isSome = true) ∧
      (after.finalizedAt = none → after.attempts = stored.attempts ∨
        stored.id = row.id ∧ sending.retryReason.isSome = true ∧
          row.attempts < workerMaxAttempts ∧ after.attempts = row.attempts) := by
  rcases markDispatched_cases store now row sending with
    ⟨outcome, status, hmark⟩ | ⟨hretry, hmax, next, reason, hmark⟩
  · rw [hmark] at h
    obtain ⟨stored, hstored, ⟨-, rfl⟩ | rfl⟩ := mem_updateDeliveries _ h
    · exact ⟨stored, hstored, rfl, fun _ => rfl, fun hnone => by cases hnone⟩
    · exact ⟨after, hstored, rfl, id, fun _ => Or.inl rfl⟩
  · rw [hmark] at h
    obtain ⟨stored, hstored, ⟨hid, rfl⟩ | rfl⟩ := mem_updateDeliveries _ h
    · exact ⟨stored, hstored, rfl, id, fun _ => Or.inr ⟨hid, hretry, hmax, rfl⟩⟩
    · exact ⟨after, hstored, rfl, id, fun _ => Or.inl rfl⟩

/-- A row that is claimed is not final, and is in the table. -/
theorem mem_due {store : Store} {now : Int64} {limit : Nat} {row : DeliveryRow}
    (h : row ∈ store.due now limit) :
    row ∈ store.deliveries.rows ∧ row.finalizedAt = none := by
  have hselect := (List.mem_insertionSort _).mp (List.mem_of_mem_take h)
  obtain ⟨hrow, hdue⟩ := Table.mem_select.mp hselect
  unfold DeliveryRow.isDue at hdue
  exact ⟨hrow, Option.isNone_iff_eq_none.mp (Bool.and_eq_true_iff.mp hdue).1⟩

/-- A claim takes each row once. -/
theorem due_nodup (store : Store) (now : Int64) (limit : Nat) :
    ((store.due now limit).map DeliveryRow.id).Nodup := by
  unfold Store.due
  have hselected : ((store.deliveries.select (DeliveryRow.isDue now)).map DeliveryRow.id).Nodup :=
    store.deliveries.distinct.sublist (List.filter_sublist.map DeliveryRow.id)
  have hsorted := (((List.perm_insertionSort (fun a b : DeliveryRow => a.id ≤ b.id)
    (store.deliveries.select (DeliveryRow.isDue now))).map DeliveryRow.id).nodup_iff).mpr hselected
  exact hsorted.sublist ((List.take_sublist _ _).map DeliveryRow.id)

/-- The rows after a claim. -/
theorem mem_claimed (crates : Crates) {store : Store} {now : Int64} {limit : Nat} {after : DeliveryRow}
    (h : after ∈ (store.claimPendingDeliveries crates now limit).1.deliveries.rows) :
    ∃ stored ∈ store.deliveries.rows, stored.id = after.id ∧
      stored.finalizedAt = after.finalizedAt ∧
      (stored ∈ store.due now limit ∧ after.attempts = stored.attempts + 1 ∨
        (∀ row ∈ store.due now limit, row.id ≠ after.id) ∧ after.attempts = stored.attempts) := by
  obtain ⟨stored, hstored, heq⟩ := List.mem_map.mp h
  refine ⟨stored, hstored, ?_⟩
  by_cases hclaimed : ((store.due now limit).any fun row => row.id == stored.id) = true
  · rw [if_pos hclaimed] at heq
    subst heq
    obtain ⟨row, hrow, hid⟩ := List.any_eq_true.mp hclaimed
    obtain rfl := Table.ext_key (mem_due hrow).1 hstored (eq_of_beq hid)
    exact ⟨rfl, rfl, Or.inl ⟨hrow, rfl⟩⟩
  · rw [if_neg hclaimed] at heq
    subst heq
    refine ⟨rfl, rfl, Or.inr ⟨?_, rfl⟩⟩
    intro row hrow hid
    exact hclaimed (List.any_eq_true.mpr ⟨row, hrow, beq_iff_eq.mpr hid⟩)

theorem pushes_next (now : Int64) (kind : String) (payload : List UInt8) (rows : List HookRow)
    (store : Store) :
    store.next ≤ (rows.foldl (fun store row => store.push (newDelivery now kind payload row))
      store).next := by
  induction rows generalizing store with
  | nil => exact Nat.le_refl _
  | cons row rows ih => exact Nat.le_trans (Nat.le_succ _) (ih (store.push _))

/-- The rows after deliveries are queued. -/
theorem mem_enqueued {store : Store} {now : Int64} {repoId : RepoId} {kind : String}
    {payload : List UInt8} {after : DeliveryRow}
    (h : after ∈ (store.enqueueDelivery now repoId kind payload).1.deliveries.rows) :
    after ∈ store.deliveries.rows ∨ store.next ≤ after.id := by
  rcases mem_pushes now kind payload _ store after h with hold | ⟨hnew, -⟩
  · exact Or.inl hold
  · exact Or.inr hnew

/-- No row is lost when deliveries are queued. -/
theorem mem_pushes_of_mem (now : Int64) (kind : String) (payload : List UInt8)
    (rows : List HookRow) (store : Store) {row : DeliveryRow}
    (h : row ∈ store.deliveries.rows) :
    row ∈ (rows.foldl (fun store row => store.push (newDelivery now kind payload row))
      store).deliveries.rows := by
  induction rows generalizing store with
  | nil => exact h
  | cons hook rows ih => exact ih (store.push _) (List.mem_append_left _ h)

/-- An update of rows that keeps their ids keeps every id. -/
theorem has_updateDeliveries {store : Store} {p : DeliveryRow → Bool}
    {f : DeliveryRow → DeliveryRow} (hf : ∀ row, (f row).id = row.id) {row : DeliveryRow}
    (h : row ∈ store.deliveries.rows) :
    (store.updateDeliveries p f hf).deliveries.has row.id = true := by
  refine Table.has_iff.mpr ⟨_, (Table.mem_update hf).mpr ⟨row, h, rfl⟩, ?_⟩
  split
  · exact hf row
  · rfl

/-! ### Removal -/

/-- **A row is in the queue until it is final.** -/
theorem keepsPending (s : Outbox) (w : Work) : s.KeepsPending crates w := by
  intro row hrow hpending
  have hstays : s.store.deliveries.has row.id = true := Table.has_iff.mpr ⟨row, hrow, rfl⟩
  cases w with
  | enqueue now repoId kind payload =>
      exact Table.has_iff.mpr ⟨row, mem_pushes_of_mem now kind payload _ s.store hrow, rfl⟩
  | claim now limit => exact has_updateDeliveries (DeliveryRow.leased_id now) hrow
  | send sent =>
      unfold Outbox.step
      dsimp only
      split
      · exact hstays
      · exact hstays
  | mark now sent sending =>
      unfold Outbox.step
      dsimp only
      split
      · change (s.store.markDispatched now sent sending).deliveries.has row.id = true
        rcases markDispatched_cases s.store now sent sending with
          ⟨outcome, status, hmark⟩ | ⟨-, -, next, reason, hmark⟩
        · rw [hmark, Store.markDeliveryFinalized]
          exact has_updateDeliveries _ hrow
        · rw [hmark, Store.markDeliveryRetry]
          exact has_updateDeliveries _ hrow
      · exact hstays
  | prune cutoff =>
      -- a row that is not final is not stale
      refine Table.has_iff.mpr ⟨row, Table.mem_delete.mpr ⟨hrow, ?_⟩, rfl⟩
      unfold DeliveryRow.isStale
      rw [hpending]
  | restart => exact hstays
  | registry webhooks masterKey => exact hstays

/-! ### Final rows -/

/-- An id whose row is final, or was and is gone. Ids are not given again, so it stays retired. -/
def Outbox.Retired (id : Nat) (s : Outbox) : Prop :=
  id < s.store.next ∧
    ∀ row ∈ s.store.deliveries.rows, row.id = id → row.finalizedAt.isSome = true

theorem Outbox.Final.retired {s : Outbox} {id : Nat} (h : s.Final id) : s.Retired id := by
  obtain ⟨row, hrow, rfl, hfinal⟩ := h
  refine ⟨s.store.below row hrow, ?_⟩
  intro other hother hid
  rw [Table.ext_key hother hrow hid]
  exact hfinal

/-- A final row is not due. -/
theorem Outbox.Retired.not_claimed {s : Outbox} {id : Nat} (h : s.Retired id) (w : Work) :
    id ∉ s.claims crates w := by
  intro hclaimed
  cases w with
  | claim now limit =>
      change id ∈ ((s.store.due now limit).map (pending crates s.store.masterKey)).map
        PendingDelivery.id at hclaimed
      rw [List.map_map] at hclaimed
      obtain ⟨row, hrow, hid⟩ := List.mem_map.mp hclaimed
      obtain ⟨hmem, hpending⟩ := mem_due hrow
      have hfinal := h.2 row hmem hid
      rw [hpending] at hfinal
      cases hfinal
  | enqueue now repoId kind payload => cases hclaimed
  | send row => cases hclaimed
  | mark now row sending => cases hclaimed
  | prune cutoff => cases hclaimed
  | restart => cases hclaimed
  | registry webhooks masterKey => cases hclaimed

/-- What is final stays final, and ids are not given twice. -/
theorem Outbox.Retired.step {s : Outbox} {id : Nat} (h : s.Retired id) (w : Work) :
    (s.step crates w).Retired id := by
  cases w with
  | enqueue now repoId kind payload =>
      refine ⟨Nat.lt_of_lt_of_le h.1 (pushes_next now kind payload _ s.store), ?_⟩
      intro row hrow hid
      rcases mem_enqueued hrow with hold | hnew
      · exact h.2 row hold hid
      · have hlt := h.1
        omega
  | claim now limit =>
      refine ⟨h.1, ?_⟩
      intro row hrow hid
      obtain ⟨stored, hstored, hsame, hfinal, -⟩ := mem_claimed crates hrow
      rw [← hfinal]
      exact h.2 stored hstored (hsame.trans hid)
  | send row =>
      unfold Outbox.step
      dsimp only
      split
      · exact h
      · exact h
  | mark now row sending =>
      unfold Outbox.step
      dsimp only
      split
      · constructor
        · rcases markDispatched_cases s.store now row sending with
            ⟨outcome, status, hmark⟩ | ⟨-, -, next, reason, hmark⟩
          · rw [hmark]
            exact h.1
          · rw [hmark]
            exact h.1
        · intro after hafter hid
          obtain ⟨stored, hstored, hsame, hfinal, -⟩ := mem_markDispatched hafter
          exact hfinal (h.2 stored hstored (hsame.trans hid))
      · exact h
  | prune cutoff =>
      refine ⟨h.1, ?_⟩
      intro row hrow hid
      exact h.2 row (Table.mem_delete.mp hrow).1 hid
  | restart => exact h
  | registry webhooks masterKey => exact h

/-- **A final row is not claimed again.** -/
theorem final_not_claimed {s : Outbox} {id : Nat} (h : s.Final id) (work : List Work) :
    EveryStep (Outbox.step crates) (fun s w => id ∉ s.claims crates w) s work := by
  have hretired := h.retired
  clear h
  induction work generalizing s with
  | nil => trivial
  | cons w work ih => exact ⟨hretired.not_claimed w, ih (hretired.step w)⟩

/-! ### The number of attempts -/

/-- How often a row was sent, or is held by a worker that is about to. -/
def Outbox.attempted (s : Outbox) (id : Nat) : Nat :=
  s.dispatched id + s.claimed.countP fun row => row.id == id

/-- The column `attempts` of a row that is not final covers what was done with it. -/
structure Outbox.Covered (id : Nat) (s : Outbox) : Prop where
  most : s.attempted id ≤ workerMaxAttempts
  counted : ∀ row ∈ s.store.deliveries.rows, row.id = id → row.finalizedAt = none →
    s.attempted id ≤ row.attempts
  fresh : s.store.next ≤ id → s.attempted id = 0

/-- What a claim hands out for one id: its row, once, or nothing. -/
theorem countP_claimed (store : Store) (now : Int64) (limit id : Nat) :
    ((store.claimPendingDeliveries crates now limit).2.countP fun row => row.id == id) =
      if ∃ row ∈ store.due now limit, row.id = id then 1 else 0 := by
  have hcount : ((store.claimPendingDeliveries crates now limit).2.countP fun row => row.id == id) =
      ((store.due now limit).map DeliveryRow.id).count id := by
    change ((store.due now limit).map (pending crates store.masterKey)).countP _ = _
    rw [List.countP_map, List.count, List.countP_map]
    rfl
  rw [hcount]
  by_cases h : ∃ row ∈ store.due now limit, row.id = id
  · rw [if_pos h]
    exact List.count_eq_one_of_mem (due_nodup store now limit) (List.mem_map.mpr h)
  · rw [if_neg h]
    exact List.count_eq_zero.mpr fun hmem => h (List.mem_map.mp hmem)

theorem attempted_send {s : Outbox} {row : PendingDelivery} (hrow : row ∈ s.claimed) (id : Nat) :
    Outbox.attempted
      { s with
        claimed := s.claimed.erase row
        sent := row :: s.sent
        dispatched := Function.update s.dispatched row.id (s.dispatched row.id + 1) } id =
      s.attempted id := by
  have hperm : (s.claimed.countP fun other => other.id == id) =
      (row :: s.claimed.erase row).countP fun other => other.id == id :=
    (List.perm_cons_erase hrow).countP_eq _
  unfold Outbox.attempted
  dsimp only
  rw [hperm, List.countP_cons]
  by_cases hid : row.id = id
  · subst hid
    rw [Function.update_self, if_pos (beq_self_eq_true _)]
    omega
  · rw [Function.update_of_ne (Ne.symm hid), if_neg fun h => hid (eq_of_beq h)]
    omega

/-- A step that queues nothing new and only takes attempts back. -/
theorem Outbox.Covered.shrink {s s' : Outbox} {id : Nat} (h : s.Covered id)
    (hattempted : s'.attempted id ≤ s.attempted id) (hnext : s.store.next ≤ s'.store.next)
    (hrows : ∀ row ∈ s'.store.deliveries.rows, row.id = id → row.finalizedAt = none →
      s.attempted id ≤ row.attempts) : s'.Covered id where
  most := Nat.le_trans hattempted h.most
  counted row hrow hid hpending := Nat.le_trans hattempted (hrows row hrow hid hpending)
  fresh hle := by
    have hzero := h.fresh (Nat.le_trans hnext hle)
    omega

/-- A claim counts once for every row that it takes. -/
theorem Outbox.Covered.claim {s : Outbox} {id : Nat} (h : s.Covered id) (now : Int64) (limit : Nat)
    (hcounted : s.Counted id (.claim now limit)) :
    (s.step crates (.claim now limit)).Covered id := by
  have hattempted : (s.step crates (.claim now limit)).attempted id =
      s.attempted id + if ∃ row ∈ s.store.due now limit, row.id = id then 1 else 0 := by
    unfold Outbox.attempted Outbox.step
    dsimp only
    rw [List.countP_append, countP_claimed, Nat.add_assoc]
  constructor
  · rw [hattempted]
    by_cases hdue : ∃ row ∈ s.store.due now limit, row.id = id
    · obtain ⟨row, hrow, hid⟩ := hdue
      have hcovered := h.counted row (mem_due hrow).1 hid (mem_due hrow).2
      have hmax := hcounted row hrow hid
      rw [if_pos ⟨row, hrow, hid⟩]
      omega
    · rw [if_neg hdue]
      exact h.most
  · intro row hrow hid hpending
    obtain ⟨stored, hstored, hsame, hfinal, hclaim⟩ := mem_claimed crates hrow
    have hcovered := h.counted stored hstored (hsame.trans hid) (hfinal.trans hpending)
    rw [hattempted]
    rcases hclaim with ⟨hdue, hattempts⟩ | ⟨hnot, hattempts⟩
    · rw [if_pos ⟨stored, hdue, hsame.trans hid⟩]
      omega
    · rw [if_neg fun ⟨other, hdue, hother⟩ => hnot other hdue (hother.trans hid.symm)]
      omega
  · intro hle
    rw [hattempted, h.fresh hle, if_neg]
    intro hdue
    obtain ⟨row, hrow, hid⟩ := hdue
    have hlt := s.store.below row (mem_due hrow).1
    change s.store.next ≤ id at hle
    omega

/-- A mark that leaves a row pending writes a number that covers the claims. -/
theorem Outbox.Covered.mark {s : Outbox} {id : Nat} (h : s.Covered id) (now : Int64)
    (row : PendingDelivery) (sending : Sending) (hcounted : s.Counted id (.mark now row sending)) :
    (s.step crates (.mark now row sending)).Covered id := by
  unfold Outbox.step
  dsimp only
  by_cases hrow : row ∈ s.sent
  · rw [if_pos hrow]
    refine h.shrink (Nat.le_refl _) ?_ ?_
    · change s.store.next ≤ (s.store.markDispatched now row sending).next
      rcases markDispatched_cases s.store now row sending with
        ⟨outcome, status, hmark⟩ | ⟨-, -, next, reason, hmark⟩
      · rw [hmark]
        exact Nat.le_refl _
      · rw [hmark]
        exact Nat.le_refl _
    · intro after hafter hid hpending
      obtain ⟨stored, hstored, hsame, hfinal, hcolumn⟩ := mem_markDispatched hafter
      have hstoredPending : stored.finalizedAt = none := by
        by_contra hne
        have hsome := hfinal (Option.isSome_iff_ne_none.mpr hne)
        rw [hpending] at hsome
        cases hsome
      have hcovered := h.counted stored hstored (hsame.trans hid) hstoredPending
      rcases hcolumn hpending with hattempts | ⟨hrowId, hretry, hmax, hattempts⟩
      · omega
      · -- the mark is no older than the last claim
        have hid' : stored.id = id := hsame.trans hid
        have hle := hcounted hrow (hrowId.symm.trans hid') hretry hmax stored hstored hid'
          hstoredPending
        omega
  · rw [if_neg hrow]
    exact h

/-- **Every step that counts keeps the attempts covered.** -/
theorem Outbox.Covered.step {s : Outbox} {id : Nat} (h : s.Covered id) (w : Work)
    (hcounted : s.Counted id w) : (s.step crates w).Covered id := by
  cases w with
  | enqueue now repoId kind payload =>
      refine h.shrink (Nat.le_refl _) (pushes_next now kind payload _ s.store) ?_
      intro row hrow hid hpending
      rcases mem_enqueued hrow with hold | hnew
      · exact h.counted row hold hid hpending
      · -- nothing was done with an id that is new
        rw [h.fresh (hid ▸ hnew)]
        exact Nat.zero_le _
  | claim now limit => exact h.claim now limit hcounted
  | send row =>
      unfold Outbox.step
      dsimp only
      by_cases hrow : row ∈ s.claimed
      · rw [if_pos hrow]
        exact h.shrink (Nat.le_of_eq (attempted_send hrow id)) (Nat.le_refl _) h.counted
      · rw [if_neg hrow]
        exact h
  | mark now row sending => exact h.mark now row sending hcounted
  | prune cutoff =>
      refine h.shrink (Nat.le_refl _) (Nat.le_refl _) ?_
      intro row hrow hid hpending
      exact h.counted row (Table.mem_delete.mp hrow).1 hid hpending
  | restart =>
      refine h.shrink ?_ (Nat.le_refl _) h.counted
      exact Nat.add_le_add_left (Nat.zero_le _) _
  | registry webhooks masterKey => exact h.shrink (Nat.le_refl _) (Nat.le_refl _) h.counted

/-- A queue that was just opened: nobody holds a row, and nothing was sent. -/
def Outbox.opened (store : Store) : Outbox where
  store := store
  claimed := []
  sent := []
  dispatched _ := 0

theorem Outbox.opened_covered (store : Store) (id : Nat) : (Outbox.opened store).Covered id where
  most := Nat.zero_le _
  counted _ _ _ _ := Nat.zero_le _
  fresh _ := rfl

/-- **What a delivery goes through**, in every run: no row is removed before it is final; once a row
is final it is not claimed again; and a row is sent at most `WORKER_MAX_ATTEMPTS` times, if no claim
finds its attempts used up and no mark comes after a later claim. Queueing, claims of any number of
workers, late marks, restarts and pruning come in any order. The condition belongs to the bound
alone: the first two parts hold without it. -/
theorem delivery_discipline (crates : Crates) (store : Store) (work : List Work) :
    EveryStep (Outbox.step crates) (Outbox.KeepsPending crates) (Outbox.opened store) work ∧
    (∀ pre rest id, work = pre ++ rest →
      (pre.foldl (Outbox.step crates) (Outbox.opened store)).Final id →
        EveryStep (Outbox.step crates) (fun s w => id ∉ s.claims crates w)
          (pre.foldl (Outbox.step crates) (Outbox.opened store)) rest) ∧
    ∀ id, EveryStep (Outbox.step crates) (Outbox.Counted id) (Outbox.opened store) work →
      EveryState (Outbox.step crates) (fun s => s.dispatched id ≤ workerMaxAttempts)
        (Outbox.opened store) work := by
  refine ⟨?_, ?_, ?_⟩
  · generalize Outbox.opened store = s
    induction work generalizing s with
    | nil => trivial
    | cons w work ih => exact ⟨keepsPending s w, ih (s.step crates w)⟩
  · intro pre rest id _ hfinal
    exact final_not_claimed hfinal rest
  · intro id hcounted
    refine everyState_of_everyStep (I := Outbox.Covered id) ?_ (fun _ w hs hw => hs.step w hw)
      (Outbox.opened_covered store id) hcounted
    intro s hs
    exact Nat.le_trans (Nat.le_add_right _ _) hs.most

/-- A store with one subscription. -/
def sampleStore : Store := (siteOf ((Table.empty : Table HookRow.id).replace legacyRow)).store

/-- The delivery for it, as a claim hands it out. -/
def sampleDelivery (attempts : Nat) : PendingDelivery where
  id := 1
  hookId := hookId
  url := "https://alice.example/hook"
  secret := none
  kind := "commit"
  payload := [1]
  attempts := attempts

/-- A delivery that goes through at the second attempt. -/
theorem delivery_discipline_twice :
    let failed := [Work.enqueue 0 sampleRepo "commit" [1], .claim 0 32, .send (sampleDelivery 1),
      .mark 5 (sampleDelivery 1) .transport, .claim 65 32, .send (sampleDelivery 2),
      .mark 66 (sampleDelivery 2) (.ok 200)]
    let rest := [Work.claim 1000 32, .prune 2000, .claim 3000 32]
    EveryStep (Outbox.step sampleCrates) (fun s w => 1 ∉ s.claims sampleCrates w)
        (failed.foldl (Outbox.step sampleCrates) (Outbox.opened sampleStore)) rest ∧
      EveryState (Outbox.step sampleCrates) (fun s => s.dispatched 1 ≤ workerMaxAttempts)
        (Outbox.opened sampleStore) (failed ++ rest) := by
  intro failed rest
  obtain ⟨-, hfinal, hsent⟩ := delivery_discipline sampleCrates sampleStore (failed ++ rest)
  exact ⟨hfinal failed rest 1 rfl (by decide +kernel), hsent 1 (by decide +kernel)⟩

/-- Nine workers that crash after they have sent. -/
def crashes : List Work :=
  .enqueue 0 sampleRepo "commit" [1] ::
    (List.range 9).flatMap fun i =>
      [.claim (Int64.ofNat (60 * i)) 32, .send (sampleDelivery (i + 1))]

/-- Four times a worker is slower than its lease, and marks its row after the worker that
has claimed it next; a ninth delivery comes after that. -/
def lateMarks : List Work :=
  .enqueue 0 sampleRepo "commit" [1] ::
    ((List.range 4).flatMap fun i =>
      let start := 10000 * i
      [.claim (Int64.ofNat start) 32, .send (sampleDelivery (i + 1)),
        .claim (Int64.ofNat (start + 60)) 32, .send (sampleDelivery (i + 2)),
        .mark (Int64.ofNat (start + 61)) (sampleDelivery (i + 2)) .transport,
        .mark (Int64.ofNat (start + 62)) (sampleDelivery (i + 1)) .transport]) ++
    [.claim 40000 32, .send (sampleDelivery 5)]

/-- Both send one delivery nine times. -/
theorem sent_nine_times :
    ((crashes.foldl (Outbox.step sampleCrates) (Outbox.opened sampleStore)).dispatched 1 = 9 ∧
        ¬ EveryState (Outbox.step sampleCrates) (fun s => s.dispatched 1 ≤ workerMaxAttempts)
          (Outbox.opened sampleStore) crashes) ∧
      (lateMarks.foldl (Outbox.step sampleCrates) (Outbox.opened sampleStore)).dispatched 1 = 9 ∧
        ¬ EveryState (Outbox.step sampleCrates) (fun s => s.dispatched 1 ≤ workerMaxAttempts)
          (Outbox.opened sampleStore) lateMarks := by
  decide +kernel

end Sqlite
end Webhooks
end Artifacts
