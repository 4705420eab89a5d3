import Artifacts.Events
import Artifacts.Foundation.Tables
import Artifacts.Rust.Bytes
import Artifacts.Secrets
import Artifacts.Webhooks.Registry
import Mathlib.Algebra.Ring.Nat
import Mathlib.Data.List.Sort

/-!
# The webhook store

`Store` is `SqliteWebhookRegistry` whole: the subscriptions with their sealed secrets,
the queue of deliveries, and the master key that is installed.  A subscription keeps its
secret as base64 of the ciphertext next to a nonce; without a nonce it is the plaintext
of a row from before there were keys.  A queued delivery keeps the ciphertext itself.

The statements of one method run in one transaction.  Where a method takes a snapshot of the key
first, the two parts are separate definitions, so that `RotationRace` can take them apart.
-/

namespace Artifacts
namespace Webhooks
namespace Sqlite

open Events Foundation Rust Secrets

structure Subscription where
  id : String
  repoId : RepoId
  url : String
  secret : Option String
  events : List EventKind

/-- A row of `webhooks`. -/
structure HookRow where
  id : String
  repoId : String
  url : String
  secret : Option String
  secretNonce : Option (List UInt8)
  events : List EventKind
  createdAt : Int64
  revokedAt : Option Int64

/-- A row of `webhook_deliveries`. -/
structure DeliveryRow where
  id : Nat
  hookId : String
  url : String
  secret : Option (List UInt8)
  secretNonce : Option (List UInt8)
  kind : String
  payload : List UInt8
  attempts : Nat
  lastStatus : Option String
  nextAttemptAt : Int64
  createdAt : Int64
  finalizedAt : Option Int64
  finalizedOutcome : Option String

structure PendingDelivery where
  id : Nat
  hookId : String
  url : String
  secret : Option String
  kind : String
  payload : List UInt8
  attempts : Nat
  deriving DecidableEq, Repr

/-- `SqliteWebhookRegistry`: its two tables, and the key it holds in memory. `next` is the id that
`AUTOINCREMENT` gives next, which is above all that are in use. -/
structure Store where
  webhooks : Table HookRow.id
  deliveries : Table DeliveryRow.id
  next : Nat
  below : ∀ row ∈ deliveries.rows, row.id < next
  masterKey : MasterKey

variable (crates : Crates)

/-! ### Subscriptions -/

/-- The two columns that `add` fills for a secret. -/
def sealSecret (key : MasterKey) (nonce : Nonce) (secret : Option String) :
    Option String × Option (List UInt8) :=
  match secret with
  | none => (none, none)
  | some plaintext =>
      match sealBytes crates key nonce (asBytes plaintext) with
      | .ok (ct, nonce) => (some (Base64.standard.encode ct), some nonce.bytes)
      -- logged
      | .error _ => (none, none)

/-- The row that `add` inserts, sealed under a snapshot of the key. -/
def newRow (key : MasterKey) (now : Int64) (uuid : String) (nonce : Nonce) (sub : Subscription) :
    HookRow :=
  let (secret, secretNonce) := sealSecret crates key nonce sub.secret
  { id := if sub.id.isEmpty then uuid else sub.id
    repoId := sub.repoId.text
    url := sub.url
    secret := secret
    secretNonce := secretNonce
    events := sub.events
    createdAt := now
    revokedAt := none }

/-- `INSERT INTO webhooks`. -/
def Store.insertHook (store : Store) (row : HookRow) : Store × Result String :=
  match store.webhooks.insert row with
  | none => (store, .error (.db "UNIQUE constraint failed: webhooks.id"))
  | some webhooks => ({ store with webhooks := webhooks }, .ok row.id)

/-- `add`: the secret is sealed under the key that is installed, and the row goes in under its id,
drawn if none is given. -/
def Store.add (store : Store) (now : Int64) (uuid : String) (nonce : Nonce) (sub : Subscription) :
    Store × Result String :=
  store.insertHook (newRow crates store.masterKey now uuid nonce sub)

/-- The secret of a row, as `row_to_sub` reads it. -/
def rowSecret (key : MasterKey) (row : HookRow) : Option String :=
  match row.secret, row.secretNonce with
  | none, _ => none
  -- a row from before secrets were sealed
  | some s, none => some s
  | some ctB64, some nonceVec =>
      match Nonce.tryFrom nonceVec with
      | none => none
      | some nonce =>
          match Base64.standard.decode ctB64 with
          | none => none
          | some ct =>
              match unsealBytes crates key ct nonce with
              | .error _ => none
              | .ok pt => fromUtf8 pt

/-- `row_to_sub`. A secret that does not open is left out, and the subscription is listed without
one. -/
def rowToSub (key : MasterKey) (row : HookRow) : Option Subscription :=
  match RepoId.tryFrom row.repoId with
  | .error _ => none
  | .ok repoId => some ⟨row.id, repoId, row.url, rowSecret crates key row, row.events⟩

/-- `repo_id = ? AND revoked_at IS NULL`. -/
def HookRow.activeFor (repoId : RepoId) (row : HookRow) : Bool :=
  row.repoId == repoId.text && row.revokedAt.isNone

/-- `list`. -/
def Store.list (store : Store) (repoId : RepoId) : List Subscription :=
  (store.webhooks.select (HookRow.activeFor repoId)).filterMap (rowToSub crates store.masterKey)

/-- `matching`. -/
def Store.matching (store : Store) (repoId : RepoId) (kind : String) : List Subscription :=
  (store.list crates repoId).filter fun s => wants s.events kind

/-! ### Rotation of the master key -/

/-- One row of the transaction of `rotate_master_key`. -/
def reseal (old new : MasterKey) (nonce : Nonce) (row : HookRow) : Result HookRow :=
  match row.secret, row.secretNonce with
  | some ctB64, some nonceBlob =>
      match Nonce.tryFrom nonceBlob with
      | none =>
          .error (.other ("webhook row " ++ row.id ++ ": nonce wrong length (" ++
            toString nonceBlob.length ++ " bytes)"))
      | some oldNonce =>
          match Base64.standard.decode ctB64 with
          | none =>
              .error (.other ("webhook row " ++ row.id ++ ": ciphertext base64 decode: " ++
                crates.decodeError ctB64))
          | some ct =>
              match unsealBytes crates old ct oldNonce with
              | .error e =>
                  .error (.other ("webhook row " ++ row.id ++ ": unseal under old key: " ++
                    e.display))
              | .ok pt => do
                  let (newCt, newNonce) ← sealBytes crates new nonce pt
                  return { row with
                    secret := some (Base64.standard.encode newCt)
                    secretNonce := some newNonce.bytes }
  | _, _ => .ok row

/-- The row after the transaction. -/
def resealed (old new : MasterKey) (nonces : String → Nonce) (row : HookRow) : HookRow :=
  match reseal crates old new (nonces row.id) row with
  | .ok row => row
  | .error _ => row

theorem resealed_id (old new : MasterKey) (nonces : String → Nonce) (row : HookRow) :
    (resealed crates old new nonces row).id = row.id := by
  unfold resealed reseal
  split
  · rename_i row' h
    split at h
    · split at h
      · cases h
      · split at h
        · cases h
        · split at h
          · cases h
          · cases h
            rfl
    · cases h
      rfl
  · rfl

/-- A row that the transaction counts. -/
def HookRow.isSealed (row : HookRow) : Bool := row.secret.isSome && row.secretNonce.isSome

/-- The error that a row stops the transaction with. -/
def resealError (old new : MasterKey) (nonces : String → Nonce) (row : HookRow) : Option Error :=
  match reseal crates old new (nonces row.id) row with
  | .ok _ => none
  | .error e => some e

/-- The transaction of `rotate_master_key`: the first row that fails rolls it back. -/
def reencrypt (webhooks : Table HookRow.id) (old new : MasterKey) (nonces : String → Nonce) :
    Result (Table HookRow.id × Nat) :=
  match webhooks.rows.findSome? (resealError crates old new nonces) with
  | some e => .error e
  | none =>
      .ok (webhooks.update (fun _ => true) (resealed crates old new nonces)
          (resealed_id crates old new nonces),
        (webhooks.select HookRow.isSealed).length)

/-- `rotate_master_key`, with the nonces it draws for the rows. -/
def Store.rotateMasterKey (store : Store) (nonces : String → Nonce) (new : MasterKey) :
    Store × Result Nat :=
  match reencrypt crates store.webhooks store.masterKey new nonces with
  | .error e => (store, .error e)
  | .ok (webhooks, count) => ({ store with webhooks := webhooks, masterKey := new }, .ok count)

/-! ### The queue -/

/-- A row behind all the others. -/
def Store.push (store : Store) (row : DeliveryRow) : Store where
  webhooks := store.webhooks
  deliveries := store.deliveries.append { row with id := store.next } (by
    rw [Bool.eq_false_iff]
    intro h
    obtain ⟨old, hold, hid⟩ := Table.has_iff.mp h
    have hlt := store.below old hold
    dsimp only at hid
    omega)
  next := store.next + 1
  below := by
    intro other hother
    rcases List.mem_append.mp hother with hold | hnew
    · exact Nat.lt_succ_of_lt (store.below other hold)
    · rw [List.mem_singleton.mp hnew]
      exact Nat.lt_succ_self _
  masterKey := store.masterKey

/-- What `enqueue_delivery` inserts for one subscription. -/
def newDelivery (now : Int64) (kind : String) (payload : List UInt8) (row : HookRow) :
    DeliveryRow where
  id := 0
  hookId := row.id
  url := row.url
  -- a secret that is no base64 is dropped
  secret := row.secret.bind Base64.standard.decode
  secretNonce := row.secretNonce
  kind := kind
  payload := payload
  attempts := 0
  lastStatus := none
  nextAttemptAt := now
  createdAt := now
  finalizedAt := none
  finalizedOutcome := none

/-- The subscriptions that `enqueue_delivery` selects. -/
def Store.wanting (store : Store) (repoId : RepoId) (kind : String) : List HookRow :=
  (store.webhooks.select (HookRow.activeFor repoId)).filter fun row => wants row.events kind

/-- `enqueue_delivery`: one row for each subscription that wants the event, with its target and its
sealed secret as they are now. -/
def Store.enqueueDelivery (store : Store) (now : Int64) (repoId : RepoId) (kind : String)
    (payload : List UInt8) : Store × Nat :=
  let rows := store.wanting repoId kind
  (rows.foldl (fun store row => store.push (newDelivery now kind payload row)) store, rows.length)

/-- `INFLIGHT_RESCHEDULE_SECS`: how long a claimed delivery is out of the reach of other claims. -/
def inflightRescheduleSecs : Int64 := 60

/-- `finalized_at IS NULL AND next_attempt_at <= ?`. -/
def DeliveryRow.isDue (now : Int64) (row : DeliveryRow) : Bool :=
  row.finalizedAt.isNone && decide (row.nextAttemptAt ≤ now)

/-- The rows that `claim_pending_deliveries` selects, by id. -/
def Store.due (store : Store) (now : Int64) (limit : Nat) : List DeliveryRow :=
  ((store.deliveries.select (DeliveryRow.isDue now)).insertionSort
    (fun a b => a.id ≤ b.id)).take limit

/-- A claimed row is not due again for a while. -/
def DeliveryRow.leased (now : Int64) (row : DeliveryRow) : DeliveryRow :=
  { row with nextAttemptAt := now + inflightRescheduleSecs, attempts := row.attempts + 1 }

theorem DeliveryRow.leased_id (now : Int64) (row : DeliveryRow) : (row.leased now).id = row.id :=
  rfl

/-- The secret that a claim hands out. -/
def deliverySecret (key : MasterKey) (row : DeliveryRow) : Option String :=
  match row.secret, row.secretNonce with
  | some ct, some nonceVec =>
      match Nonce.tryFrom nonceVec with
      | none => none
      | some nonce =>
          match unsealBytes crates key ct nonce with
          | .error _ => none
          | .ok pt => fromUtf8 pt
  | _, _ => none

/-- What a claim hands out for a row; the count is cast to `u32`. -/
def pending (key : MasterKey) (row : DeliveryRow) : PendingDelivery where
  id := row.id
  hookId := row.hookId
  url := row.url
  secret := deliverySecret crates key row
  kind := row.kind
  payload := row.payload
  attempts := (row.attempts + 1) % 2 ^ 32

/-- An update of rows that keeps their ids. -/
def Store.updateDeliveries (store : Store) (p : DeliveryRow → Bool) (f : DeliveryRow → DeliveryRow)
    (hf : ∀ row, (f row).id = row.id) : Store where
  webhooks := store.webhooks
  deliveries := store.deliveries.update p f hf
  next := store.next
  below := by
    intro row hrow
    obtain ⟨old, hold, rfl⟩ := List.mem_map.mp hrow
    split
    · rw [hf]
      exact store.below old hold
    · exact store.below old hold
  masterKey := store.masterKey

/-- `claim_pending_deliveries`. The rows that are due are put off and handed out; how often one was
claimed before is not looked at. -/
def Store.claimPendingDeliveries (store : Store) (now : Int64) (limit : Nat) :
    Store × List PendingDelivery :=
  let rows := store.due now limit
  (store.updateDeliveries (fun row => rows.any fun claimed => claimed.id == row.id)
      (DeliveryRow.leased now) (DeliveryRow.leased_id now),
    rows.map (pending crates store.masterKey))

/-- `mark_delivery_retry`. It sets the attempts to what the worker says, whatever the row has by
then. -/
def Store.markDeliveryRetry (store : Store) (id attempts : Nat) (nextAttemptAt : Int64)
    (lastStatus : String) : Store :=
  store.updateDeliveries (fun row => row.id == id)
    (fun row =>
      { row with
        attempts := attempts, nextAttemptAt := nextAttemptAt, lastStatus := some lastStatus })
    (fun _ => rfl)

/-- `mark_delivery_finalized`. It does not ask whether the row is final already. -/
def Store.markDeliveryFinalized (store : Store) (now : Int64) (id : Nat) (outcome : String)
    (lastStatus : Option String) : Store :=
  store.updateDeliveries (fun row => row.id == id)
    (fun row =>
      { row with
        finalizedAt := some now, finalizedOutcome := some outcome, lastStatus := lastStatus })
    (fun _ => rfl)

/-- `finalized_at IS NOT NULL AND finalized_at < ?`. -/
def DeliveryRow.isStale (cutoff : Int64) (row : DeliveryRow) : Bool :=
  match row.finalizedAt with
  | none => false
  | some t => decide (t < cutoff)

/-- `prune_finalized`: the rows that were final before the cutoff go, and their number is returned.
-/
def Store.pruneFinalized (store : Store) (cutoff : Int64) : Store × Nat :=
  ({ webhooks := store.webhooks
     deliveries := store.deliveries.delete (DeliveryRow.isStale cutoff)
     next := store.next
     below := fun row hrow => store.below row (List.mem_filter.mp hrow).1
     masterKey := store.masterKey },
    (store.deliveries.select (DeliveryRow.isStale cutoff)).length)

end Sqlite
end Webhooks
end Artifacts
