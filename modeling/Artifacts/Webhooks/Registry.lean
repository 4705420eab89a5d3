import Artifacts.Events
import Artifacts.Foundation.Tables

/-!
# Webhook subscriptions

`Registry` is the table `webhooks` of `SqliteWebhookRegistry`, without the signing
secrets, which do not decide who is notified.  A subscription is never deleted:
`remove` marks it as revoked.  `publishEvent` queues one delivery for each
subscription that matches.

This is the part that REST requests see.  Secrets, keys and the queue with its leases are in
`Sqlite`.
-/

namespace Artifacts
namespace Webhooks

open Events Foundation

structure Subscription where
  id : String
  repoId : RepoId
  url : String
  events : List EventKind
  deriving DecidableEq, Repr

structure WebhookRow where
  id : String
  repoId : String
  url : String
  events : List EventKind
  createdAt : Int64
  revokedAt : Option Int64
  deriving DecidableEq, Repr

/-- The table `webhooks`. -/
abbrev Registry := Table WebhookRow.id

/-- What `enqueue_delivery` inserts for one subscription. -/
structure Delivery where
  hookId : String
  url : String
  kind : String
  payload : Event
  nextAttemptAt : Int64
  createdAt : Int64
  deriving DecidableEq, Repr

/-- `row_to_sub`. A row whose repo is no valid id is left out of every listing. -/
def rowToSub (row : WebhookRow) : Option Subscription :=
  match RepoId.tryFrom row.repoId with
  | .error _ => none
  | .ok repoId => some ⟨row.id, repoId, row.url, row.events⟩

/-- `repo_id = ? AND revoked_at IS NULL`. -/
def WebhookRow.activeFor (repoId : RepoId) (row : WebhookRow) : Bool :=
  row.repoId == repoId.text && row.revokedAt.isNone

/-- No list of kinds stands for all of them. -/
def wants (events : List EventKind) (kind : String) : Bool :=
  events.isEmpty || events.any fun e => e.asStr == kind

def WebhookRow.revoked (now : Int64) (row : WebhookRow) : WebhookRow :=
  { row with revokedAt := some now }

theorem WebhookRow.revoked_id (now : Int64) (row : WebhookRow) : (row.revoked now).id = row.id :=
  rfl

namespace Registry

/-- `add`; `uuid` is what `Uuid::new_v4` drew. -/
def add (registry : Registry) (now : Int64) (uuid : String) (sub : Subscription) :
    Registry × Result String :=
  let id := if sub.id.isEmpty then uuid else sub.id
  match registry.insert ⟨id, sub.repoId.text, sub.url, sub.events, now, none⟩ with
  | none => (registry, .error (.db "UNIQUE constraint failed: webhooks.id"))
  | some registry' => (registry', .ok id)

/-- `list`: the subscriptions of the repo that were not removed, in the order of their rows. -/
def list (registry : Registry) (repoId : RepoId) : List Subscription :=
  (registry.select (WebhookRow.activeFor repoId)).filterMap rowToSub

/-- `remove`. The row stays and is marked, and its id is not free again. -/
def remove (registry : Registry) (now : Int64) (repoId : RepoId) (hookId : String) :
    Registry × Result Bool :=
  let hit row := row.id == hookId && row.activeFor repoId
  (registry.update hit (WebhookRow.revoked now) (WebhookRow.revoked_id now),
    .ok (!(registry.select hit).isEmpty))

/-- `matching`: the subscriptions of the repo that want an event of this kind. -/
def matching (registry : Registry) (repoId : RepoId) (kind : String) : List Subscription :=
  (registry.list repoId).filter fun s => wants s.events kind

/-- `enqueue_delivery`: the rows it inserts. -/
def enqueueDelivery (registry : Registry) (now : Int64) (repoId : RepoId) (kind : String)
    (payload : Event) : List Delivery :=
  ((registry.select (WebhookRow.activeFor repoId)).filter fun row => wants row.events kind).map
    fun row => ⟨row.id, row.url, kind, payload, now, now⟩

/-- `publish_event`, with the registry as the outbox: the deliveries it queues. -/
def publishEvent (registry : Registry) (now : Int64) (ev : Event) : List Delivery :=
  match RepoId.tryFrom (repoAndKind ev).1 with
  | .ok repoId => registry.enqueueDelivery now repoId (repoAndKind ev).2 ev
  -- logged, not propagated
  | .error _ => []

/-! ### Who is notified -/

/-- A subscription with this id is in force for this repo. -/
def Subscribed (registry : Registry) (repoId hookId : String) : Prop :=
  ∃ row ∈ registry.rows, row.id = hookId ∧ row.repoId = repoId ∧ row.revokedAt = none

instance (registry : Registry) (repoId hookId : String) :
    Decidable (registry.Subscribed repoId hookId) :=
  inferInstanceAs (Decidable (∃ row ∈ registry.rows, _))

variable {registry : Registry} {now : Int64}

theorem mem_publishEvent_iff {repoId : RepoId} {ev : Event} (hev : (repoAndKind ev).1 = repoId.text)
    {hookId : String} :
    hookId ∈ (registry.publishEvent now ev).map Delivery.hookId ↔
      ∃ row ∈ registry.rows, row.id = hookId ∧ row.repoId = repoId.text ∧ row.revokedAt = none ∧
        wants row.events (repoAndKind ev).2 = true := by
  unfold publishEvent enqueueDelivery
  rw [hev, RepoId.tryFrom_text]
  dsimp only
  rw [List.map_map, List.mem_map]
  constructor
  · intro h
    obtain ⟨row, hrow, hid⟩ := h
    obtain ⟨hselect, hwants⟩ := List.mem_filter.mp hrow
    obtain ⟨hmem, hactive⟩ := Table.mem_select.mp hselect
    obtain ⟨hrepo, hrevoked⟩ := Bool.and_eq_true_iff.mp hactive
    exact ⟨row, hmem, hid, eq_of_beq hrepo, Option.isNone_iff_eq_none.mp hrevoked, hwants⟩
  · intro h
    obtain ⟨row, hmem, hid, hrepo, hrevoked, hwants⟩ := h
    have hactive : row.activeFor repoId = true :=
      Bool.and_eq_true_iff.mpr ⟨beq_iff_eq.mpr hrepo, Option.isNone_iff_eq_none.mpr hrevoked⟩
    exact ⟨row, List.mem_filter.mpr ⟨Table.mem_select.mpr ⟨hmem, hactive⟩, hwants⟩, hid⟩

/-- A subscription gets some event of a repo if and only if it is in force there. -/
theorem exists_delivery_iff {repoId : RepoId} {hookId : String} :
    (∃ ev, (repoAndKind ev).1 = repoId.text ∧
        hookId ∈ (registry.publishEvent now ev).map Delivery.hookId) ↔
      registry.Subscribed repoId.text hookId := by
  constructor
  · intro h
    obtain ⟨ev, hev, hmem⟩ := h
    obtain ⟨row, hrow, hid, hrepo, hrevoked, -⟩ := (mem_publishEvent_iff hev).mp hmem
    exact ⟨row, hrow, hid, hrepo, hrevoked⟩
  · intro h
    obtain ⟨row, hrow, hid, hrepo, hrevoked⟩ := h
    -- an event of a kind the subscription asks for
    obtain ⟨kind, hkind⟩ : ∃ kind : EventKind, wants row.events kind.asStr = true := by
      unfold wants
      cases hevents : row.events with
      | nil => exact ⟨.commit, rfl⟩
      | cons kind rest => exact ⟨kind, by simp⟩
    obtain ⟨ev, hev⟩ := exists_event repoId.text kind
    refine ⟨ev, by rw [hev], (mem_publishEvent_iff (by rw [hev])).mpr ?_⟩
    rw [hev]
    exact ⟨row, hrow, hid, hrepo, hrevoked, hkind⟩

/-! ### What the operations do to them -/

/-- `add` inserts its row, or nothing. -/
theorem add_cases (registry : Registry) (now : Int64) (uuid : String) (sub : Subscription)
    (hid : sub.id = "") :
    ((∃ cause, (registry.add now uuid sub).2 = .error (.db cause)) ∧
        (registry.add now uuid sub).1 = registry) ∨
      ((registry.add now uuid sub).2 = .ok uuid ∧ registry.has uuid = false ∧
        ∀ row, row ∈ (registry.add now uuid sub).1 ↔
          row ∈ registry ∨ row = ⟨uuid, sub.repoId.text, sub.url, sub.events, now, none⟩) := by
  unfold add
  rw [hid]
  dsimp only [String.isEmpty]
  split
  · exact Or.inl ⟨⟨_, rfl⟩, rfl⟩
  · rename_i registry' hinsert
    obtain ⟨hnew, hmem⟩ := Table.insert_eq_some hinsert
    exact Or.inr ⟨rfl, hnew, hmem⟩

theorem has_remove (registry : Registry) (now : Int64) (repoId : RepoId) (hookId id : String) :
    (registry.remove now repoId hookId).1.has id = registry.has id := by
  rw [Bool.eq_iff_iff, Table.has_iff, Table.has_iff]
  constructor
  · intro h
    obtain ⟨row, hrow, hkey⟩ := h
    obtain ⟨old, hold, rfl⟩ := (Table.mem_update (WebhookRow.revoked_id now)).mp hrow
    refine ⟨old, hold, ?_⟩
    split at hkey
    · exact hkey
    · exact hkey
  · intro h
    obtain ⟨row, hrow, hkey⟩ := h
    refine ⟨_, (Table.mem_update (WebhookRow.revoked_id now)).mpr ⟨row, hrow, rfl⟩, ?_⟩
    split
    · exact hkey
    · exact hkey

theorem Subscribed.of_remove {repoId : RepoId} {repo hookId id : String}
    (h : (registry.remove now repoId hookId).1.Subscribed repo id) : registry.Subscribed repo id := by
  obtain ⟨row, hrow, hid, hrepo, hrevoked⟩ := h
  obtain ⟨old, hold, hupdated⟩ := (Table.mem_update (WebhookRow.revoked_id now)).mp hrow
  split at hupdated
  · -- a removed subscription is not in force
    subst hupdated
    cases hrevoked
  · subst hupdated
    exact ⟨old, hold, hid, hrepo, hrevoked⟩

end Registry
end Webhooks
end Artifacts
