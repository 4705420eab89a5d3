import Artifacts.Foundation.Runs
import Artifacts.Webhooks.SealedSecrets

/-!
# The two registries of subscriptions

`MemRegistry` keeps subscriptions in memory, with their secrets as they are;
`SqliteWebhookRegistry` keeps rows, seals the secrets under a master key that may be rotated,
and removes a subscription by marking its row.  Both answer the calls of the trait
`WebhookRegistry`.  The answers are the same, secrets included, until a subscription is added
under an id that a row has, be it the row of one that was removed.  The count that a rotation
answers is an exception: it is that of the sealed rows, of which memory has none.

Both registries are run side by side (`Both`), one call after another, each with the nonces that
it draws.  Deliveries are no part of this: only the SQLite registry has a queue.
-/

namespace Artifacts
namespace Webhooks
namespace Sqlite

open Events Foundation Rust Secrets

/-! ### In memory -/

abbrev MemRegistry := List Subscription

/-- The subscription with the id that `add` gives it. -/
def Subscription.named (sub : Subscription) (uuid : String) : Subscription :=
  { sub with id := if sub.id.isEmpty then uuid else sub.id }

namespace MemRegistry

def add (registry : MemRegistry) (uuid : String) (sub : Subscription) : MemRegistry × Result String :=
  (registry ++ [sub.named uuid], .ok (sub.named uuid).id)

def list (registry : MemRegistry) (repoId : RepoId) : List Subscription :=
  registry.filter fun s => s.repoId == repoId

def remove (registry : MemRegistry) (repoId : RepoId) (hookId : String) : MemRegistry × Result Bool :=
  let kept := registry.filter fun s => !(s.repoId == repoId && s.id == hookId)
  (kept, .ok (registry.length != kept.length))

def matching (registry : MemRegistry) (repoId : RepoId) (kind : String) : List Subscription :=
  (registry.filter fun s => s.repoId == repoId).filter fun s => wants s.events kind

end MemRegistry

/-! ### Removal of a row -/

def HookRow.revoked (now : Int64) (row : HookRow) : HookRow := { row with revokedAt := some now }

theorem HookRow.revoked_id (now : Int64) (row : HookRow) : (row.revoked now).id = row.id := rfl

/-- `remove`: the statement looks for the id, the repo, and that the row is in force. -/
def Store.remove (store : Store) (now : Int64) (repoId : RepoId) (hookId : String) :
    Store × Result Bool :=
  let hit row := row.id == hookId && row.activeFor repoId
  ({ store with webhooks := store.webhooks.update hit (HookRow.revoked now) (HookRow.revoked_id now) },
    .ok (!(store.webhooks.select hit).isEmpty))

/-! ### Calls and answers -/

/-- A call of `WebhookRegistry`, with the clock and the random values it draws. -/
inductive Call where
  | add (now : Int64) (uuid : String) (nonce : Nonce) (sub : Subscription)
  | list (repoId : RepoId)
  | remove (now : Int64) (repoId : RepoId) (hookId : String)
  | matching (repoId : RepoId) (kind : String)
  | rotateMasterKey (nonces : String → Nonce) (new : MasterKey)

/-- What a caller learns of a call, errors included. A rotation tells how many rows it sealed anew,
and in memory there are none to seal. -/
inductive Answer where
  | id (result : Result String)
  | subscriptions (subs : List Subscription)
  | removed (result : Result Bool)
  | rotated (count : Result Nat)

variable (crates : Crates)

def Store.call (store : Store) : Call → Store × Answer
  | .add now uuid nonce sub =>
      let (store, result) := store.add crates now uuid nonce sub
      (store, .id result)
  | .list repoId => (store, .subscriptions (store.list crates repoId))
  | .remove now repoId hookId =>
      let (store, result) := store.remove now repoId hookId
      (store, .removed result)
  | .matching repoId kind => (store, .subscriptions (store.matching crates repoId kind))
  | .rotateMasterKey nonces new =>
      let (store, result) := store.rotateMasterKey crates nonces new
      (store, .rotated result)

def MemRegistry.call (registry : MemRegistry) : Call → MemRegistry × Answer
  | .add _ uuid _ sub =>
      let (registry, result) := registry.add uuid sub
      (registry, .id result)
  | .list repoId => (registry, .subscriptions (registry.list repoId))
  | .remove _ repoId hookId =>
      let (registry, result) := registry.remove repoId hookId
      (registry, .removed result)
  | .matching repoId kind => (registry, .subscriptions (registry.matching repoId kind))
  -- the default of the trait
  | .rotateMasterKey _ _ => (registry, .rotated (.ok 0))

/-- Both registries, called alike: what the one is asked the other is asked, with the same ids and
clocks. -/
structure Both where
  store : Store
  registry : MemRegistry

def Both.step (s : Both) (call : Call) : Both where
  store := (s.store.call crates call).1
  registry := (s.registry.call call).1

/-- The rows, removed ones included, whose secret is sealed. -/
def Store.sealedRows (store : Store) : Nat := (store.webhooks.select HookRow.isSealed).length

/-- The call is answered alike.  A rotation succeeds on both sides; the rows count those they
have sealed anew, memory counts none. -/
def Both.Agree (s : Both) : Call → Prop
  | .rotateMasterKey nonces new =>
      (s.store.call crates (.rotateMasterKey nonces new)).2 = .rotated (.ok s.store.sealedRows) ∧
        (s.registry.call (.rotateMasterKey nonces new)).2 = .rotated (.ok 0)
  | call => (s.store.call crates call).2 = (s.registry.call call).2

/-- A subscription is added under an id that no row has. -/
def Both.Fresh (s : Both) : Call → Prop
  | .add _ uuid _ sub => s.store.webhooks.has (sub.named uuid).id = false
  | _ => True

/-- The registry in memory holds what the rows in force stand for, and every stored secret
can be read. -/
structure Both.Same (s : Both) : Prop where
  reads : s.store.Reads crates
  holds : s.registry = (s.store.webhooks.rows.filter fun row => row.revokedAt.isNone).filterMap
    (rowToSub crates s.store.masterKey)

variable {crates}

/-! ### Rows and subscriptions -/

/-- A test of what rows stand for is a test of the rows. -/
theorem filter_filterMap_of {α β : Type} {f : α → Option β} {p : α → Bool} {q : β → Bool} {xs : List α}
    (h : ∀ x ∈ xs, ∀ y, f x = some y → q y = p x) :
    (xs.filterMap f).filter q = (xs.filter p).filterMap f := by
  induction xs with
  | nil => rfl
  | cons x xs ih =>
      have htail := ih fun y hy => h y (List.mem_cons_of_mem x hy)
      cases hx : f x with
      | none =>
          rw [List.filterMap_cons_none hx, htail, List.filter_cons]
          split
          · rw [List.filterMap_cons_none hx]
          · rfl
      | some y =>
          have hy := h x List.mem_cons_self y hx
          rw [List.filterMap_cons_some hx, List.filter_cons, List.filter_cons, hy]
          split
          · rw [List.filterMap_cons_some hx, htail]
          · exact htail

theorem rowToSub_eq_some {key : MasterKey} {row : HookRow} {sub : Subscription}
    (h : rowToSub crates key row = some sub) :
    sub.id = row.id ∧ sub.repoId.text = row.repoId ∧ sub.url = row.url ∧
      sub.secret = rowSecret crates key row ∧ sub.events = row.events := by
  unfold rowToSub RepoId.tryFrom at h
  split at h
  · cases h
  · rename_i repoId hrepo
    split_ifs at hrepo with hvalid
    cases hrepo
    cases h
    exact ⟨rfl, rfl, rfl, rfl, rfl⟩

theorem repoId_beq_iff {key : MasterKey} {row : HookRow} {sub : Subscription} (repoId : RepoId)
    (h : rowToSub crates key row = some sub) : (sub.repoId == repoId) = (row.repoId == repoId.text) := by
  obtain ⟨-, hrepo, -⟩ := rowToSub_eq_some h
  rw [Bool.eq_iff_iff, beq_iff_eq, beq_iff_eq, ← hrepo]
  constructor
  · rintro rfl
    rfl
  · intro htext
    cases hsub : sub.repoId
    cases repoId
    simp_all

theorem rowToSub_newRow (key : MasterKey) (now : Int64) (uuid : String) (nonce : Nonce)
    (sub : Subscription) :
    rowToSub crates key (newRow crates key now uuid nonce sub) = some (sub.named uuid) := by
  have hsecret := newRow_reads crates key now uuid nonce sub
  have hrepo : RepoId.tryFrom (newRow crates key now uuid nonce sub).repoId = .ok sub.repoId := by
    unfold RepoId.tryFrom
    exact dif_pos sub.repoId.valid
  unfold rowToSub
  rw [hrepo, hsecret]
  rfl

/-- Sealing a row anew changes the two columns of its secret. -/
theorem resealed_frame (old new : MasterKey) (nonces : String → Nonce) (row : HookRow) :
    ∃ secret secretNonce, resealed crates old new nonces row =
      { row with secret := secret, secretNonce := secretNonce } := by
  unfold resealed reseal
  split
  · rename_i row' h
    split at h
    · split at h
      · cases h
      · split at h
        · cases h
        · split at h
          · cases h
          · cases h
            exact ⟨_, _, rfl⟩
    · cases h
      exact ⟨_, _, rfl⟩
  · exact ⟨_, _, rfl⟩

/-- Rows that are rewritten without becoming others stand for the same. -/
theorem filterMap_map_of {α β : Type} {f f' : α → Option β} {p : α → Bool} {g : α → α} {xs : List α}
    (h : ∀ x ∈ xs, p (g x) = p x ∧ f' (g x) = f x) :
    ((xs.map g).filter p).filterMap f' = (xs.filter p).filterMap f := by
  induction xs with
  | nil => rfl
  | cons x xs ih =>
      obtain ⟨htest, hvalue⟩ := h x List.mem_cons_self
      have htail := ih fun y hy => h y (List.mem_cons_of_mem x hy)
      rw [List.map_cons, List.filter_cons, List.filter_cons, htest]
      split
      · rw [List.filterMap_cons, List.filterMap_cons, hvalue, htail]
      · exact htail

/-- Rows that stop counting, and the others. -/
theorem filter_map_of_hit {α : Type} {hit live p : α → Bool} {g : α → α}
    (hhit : ∀ x, hit x = (live x && p x)) (hg : ∀ x, live (g x) = false) (xs : List α) :
    (xs.map fun x => if hit x then g x else x).filter live =
      (xs.filter live).filter fun x => !p x := by
  induction xs with
  | nil => rfl
  | cons x xs ih =>
      rw [List.map_cons, List.filter_cons, List.filter_cons, ih]
      cases hlive : live x with
      | false => simp [hhit, hlive]
      | true =>
          cases hp : p x with
          | false => simp [hhit, hlive, hp]
          | true => simp [hhit, hlive, hp, hg]

/-! ### One call -/

section Calls

variable {s : Both}

theorem Both.Same.list (h : s.Same crates) (repoId : RepoId) :
    s.registry.list repoId = s.store.list crates repoId := by
  unfold MemRegistry.list Store.list
  rw [h.holds, filter_filterMap_of fun row _ sub hsub => repoId_beq_iff repoId hsub, List.filter_filter]
  rfl

/-- A row in force that is asked to be removed. -/
theorem Both.Same.kept (h : s.Same crates) (repoId : RepoId) (hookId : String) :
    (s.registry.filter fun sub => !(sub.repoId == repoId && sub.id == hookId)) =
      ((s.store.webhooks.rows.filter fun row => row.revokedAt.isNone).filter
        fun row => !(row.repoId == repoId.text && row.id == hookId)).filterMap
          (rowToSub crates s.store.masterKey) := by
  rw [h.holds]
  refine filter_filterMap_of fun row _ sub hsub => ?_
  rw [repoId_beq_iff repoId hsub, (rowToSub_eq_some hsub).1]

theorem Both.Same.remove (h : s.Same crates) (now : Int64) (repoId : RepoId) (hookId : String) :
    Both.Same crates (s.step crates (.remove now repoId hookId)) where
  reads := by
    intro row hrow hsecret
    obtain ⟨stored, hstored, rfl⟩ := List.mem_map.mp hrow
    have hsame : ∀ row, rowSecret crates s.store.masterKey (HookRow.revoked now row) =
        rowSecret crates s.store.masterKey row := fun _ => rfl
    show (rowSecret crates s.store.masterKey _).isSome = true
    split
    · rename_i hhit
      rw [if_pos hhit] at hsecret
      rw [hsame]
      exact h.reads stored hstored hsecret
    · rename_i hhit
      rw [if_neg hhit] at hsecret
      exact h.reads stored hstored hsecret
  holds := by
    refine (h.kept repoId hookId).trans (congrArg _ (filter_map_of_hit ?_ ?_ _).symm)
    · intro row
      rw [HookRow.activeFor, Bool.eq_iff_iff]
      simp only [Bool.and_eq_true, beq_iff_eq]
      tauto
    · exact fun row => rfl

/-- Both say whether there was a subscription to remove. -/
theorem Both.Same.removed (h : s.Same crates) (now : Int64) (repoId : RepoId) (hookId : String) :
    (s.store.remove now repoId hookId).2 = (s.registry.remove repoId hookId).2 := by
  unfold Store.remove MemRegistry.remove
  dsimp only
  congr 1
  rw [Bool.eq_iff_iff, bne_iff_ne, Bool.not_eq_true', ← Bool.not_eq_true, List.isEmpty_iff, ne_comm,
    not_iff_not, List.length_filter_eq_length_iff]
  constructor
  · intro hnone sub hsub
    rw [h.holds, List.mem_filterMap] at hsub
    obtain ⟨row, hrow, hvalue⟩ := hsub
    obtain ⟨hrow, hlive⟩ := List.mem_filter.mp hrow
    have hnot : row ∉ s.store.webhooks.select fun row => row.id == hookId && row.activeFor repoId := by
      rw [hnone]
      exact List.not_mem_nil
    rw [Table.mem_select, not_and] at hnot
    have hmiss := hnot hrow
    rw [repoId_beq_iff repoId hvalue, (rowToSub_eq_some hvalue).1]
    simp only [HookRow.activeFor, hlive, Bool.and_true, Bool.and_eq_true, beq_iff_eq] at hmiss
    simp only [Bool.not_eq_true', Bool.and_eq_false_iff, beq_eq_false_iff_ne]
    tauto
  · intro hkept
    rw [List.eq_nil_iff_forall_not_mem]
    intro row hrow
    obtain ⟨hrow, hhit⟩ := Table.mem_select.mp hrow
    simp only [HookRow.activeFor, Bool.and_eq_true, beq_iff_eq] at hhit
    obtain ⟨hid, hrepo, hlive⟩ := hhit
    -- the row stands for a subscription, since it has the repo of the call
    have hvalue : rowToSub crates s.store.masterKey row =
        some ⟨row.id, repoId, row.url, rowSecret crates s.store.masterKey row, row.events⟩ := by
      unfold rowToSub RepoId.tryFrom
      rw [hrepo, dif_pos repoId.valid]
    have hnot := hkept _ (h.holds ▸ List.mem_filterMap.mpr
      ⟨row, List.mem_filter.mpr ⟨hrow, hlive⟩, hvalue⟩)
    simp [hid] at hnot

/-- Under a new id, `add` appends on both sides; under one that is taken, the row is refused
and the registry in memory takes the subscription. -/
theorem add_of_fresh {now : Int64} {uuid : String} {nonce : Nonce} {sub : Subscription}
    (hfresh : s.store.webhooks.has (sub.named uuid).id = false) :
    ∃ webhooks : Table HookRow.id,
      webhooks.rows = s.store.webhooks.rows ++ [newRow crates s.store.masterKey now uuid nonce sub] ∧
        s.store.add crates now uuid nonce sub =
          ({ s.store with webhooks := webhooks }, .ok (sub.named uuid).id) := by
  have hnew : s.store.webhooks.has (newRow crates s.store.masterKey now uuid nonce sub).id = false :=
    hfresh
  refine ⟨s.store.webhooks.append _ hnew, rfl, ?_⟩
  unfold Store.add Store.insertHook Table.insert
  rw [dif_pos hnew]
  rfl

theorem add_of_taken {now : Int64} {uuid : String} {nonce : Nonce} {sub : Subscription}
    (htaken : s.store.webhooks.has (sub.named uuid).id = true) :
    (s.store.add crates now uuid nonce sub).2 =
      .error (.db "UNIQUE constraint failed: webhooks.id") := by
  have hnot : ¬ s.store.webhooks.has (newRow crates s.store.masterKey now uuid nonce sub).id = false := by
    intro hfresh
    rw [show (newRow crates s.store.masterKey now uuid nonce sub).id = (sub.named uuid).id from rfl,
      htaken] at hfresh
    cases hfresh
  unfold Store.add Store.insertHook Table.insert
  rw [dif_neg hnot]

theorem Both.Same.add (h : s.Same crates) {now : Int64} {uuid : String} {nonce : Nonce}
    {sub : Subscription} (hfresh : s.Fresh (.add now uuid nonce sub)) :
    Both.Same crates (s.step crates (.add now uuid nonce sub)) where
  reads := s.store.add_reads h.reads now uuid nonce sub
  holds := by
    obtain ⟨webhooks, hrows, hadd⟩ := @add_of_fresh crates s now uuid nonce sub hfresh
    simp only [Both.step, Store.call, MemRegistry.call, MemRegistry.add, hadd, hrows]
    have hnew := @rowToSub_newRow crates s.store.masterKey now uuid nonce sub
    have hlive : (newRow crates s.store.masterKey now uuid nonce sub).revokedAt.isNone = true := rfl
    rw [List.filter_append, List.filterMap_append, ← h.holds, List.filter_singleton, hlive]
    simp [hnew]

theorem Both.Same.rotate (h : s.Same crates) (nonces : String → Nonce) (new : MasterKey) :
    Both.Same crates (s.step crates (.rotateMasterKey nonces new)) where
  reads := s.store.rotateMasterKey_reads h.reads nonces new
  holds := by
    obtain ⟨hstore, hrows⟩ := rotateMasterKey_spec nonces new h.reads
    simp only [Both.step, Store.call, MemRegistry.call, hstore]
    refine h.holds.trans (filterMap_map_of fun row hrow => ?_).symm
    obtain ⟨-, -, hsecret⟩ := hrows row hrow
    obtain ⟨secret, secretNonce, hframe⟩ := resealed_frame s.store.masterKey new nonces row
    rw [if_pos rfl]
    unfold rowToSub
    rw [hsecret, hframe]
    exact ⟨rfl, rfl⟩

theorem Both.Same.rotated (h : s.Same crates) (nonces : String → Nonce) (new : MasterKey) :
    (s.store.rotateMasterKey crates nonces new).2 = .ok s.store.sealedRows := by
  unfold Store.rotateMasterKey
  rw [reencrypt_eq_ok fun row hrow => (reseal_reads new (nonces row.id) (h.reads row hrow)).imp
    fun row' hrow' => hrow'.1]
  rfl

/-- The step lemma: what both hold stays the same. -/
theorem Both.Same.step (h : s.Same crates) (call : Call) (hfresh : s.Fresh call) :
    Both.Same crates (s.step crates call) := by
  cases call with
  | add now uuid nonce sub => exact h.add hfresh
  | list repoId => exact ⟨h.reads, h.holds⟩
  | remove now repoId hookId => exact h.remove now repoId hookId
  | matching repoId kind => exact ⟨h.reads, h.holds⟩
  | rotateMasterKey nonces new => exact h.rotate nonces new

theorem Both.Same.agree_iff (h : s.Same crates) (call : Call) : s.Agree crates call ↔ s.Fresh call := by
  cases call with
  | add now uuid nonce sub =>
      unfold Both.Agree
      cases htaken : s.store.webhooks.has (sub.named uuid).id with
      | false =>
          obtain ⟨webhooks, -, hadd⟩ := @add_of_fresh crates s now uuid nonce sub htaken
          refine iff_of_true ?_ htaken
          simp only [Store.call, MemRegistry.call, MemRegistry.add, hadd]
      | true =>
          refine iff_of_false (fun hsame => ?_) fun hfresh => ?_
          · have herror := @add_of_taken crates s now uuid nonce sub htaken
            simp only [Store.call, MemRegistry.call, MemRegistry.add, herror, Answer.id.injEq] at hsame
            cases hsame
          · rw [Both.Fresh, htaken] at hfresh
            cases hfresh
  | list repoId => exact iff_of_true (congrArg _ (h.list repoId).symm) trivial
  | remove now repoId hookId => exact iff_of_true (congrArg _ (h.removed now repoId hookId)) trivial
  | matching repoId kind =>
      refine iff_of_true (congrArg Answer.subscriptions ?_) trivial
      unfold Store.matching
      rw [← h.list repoId]
      rfl
  | rotateMasterKey nonces new =>
      exact iff_of_true ⟨congrArg Answer.rotated (h.rotated nonces new), rfl⟩ trivial

end Calls

/-- **Sealed and removed rows do not show.** A registry of sealed rows and one in memory that
start alike answer every call of a run alike, through any rotations of the master key,
exactly if every subscription that is added comes under an id that no row has.  Only the
count of a rotation differs: it is the number of sealed rows on the one side, 0 on the other. -/
theorem registries_agree_iff (crates : Crates) (s : Both) (hsame : s.Same crates) (calls : List Call) :
    EveryStep (Both.step crates) (Both.Agree crates) s calls ↔
      EveryStep (Both.step crates) Both.Fresh s calls :=
  @everyStep_iff_of_simulation _ _ _ (Both.step crates) (Both.step crates)
    (fun s t => s = t ∧ s.Same crates) (Both.Agree crates) Both.Fresh
    (fun s t call h => by
      obtain ⟨rfl, hs⟩ := h
      exact hs.agree_iff call)
    (fun s t call h hfresh => by
      obtain ⟨rfl, hs⟩ := h
      exact ⟨rfl, hs.step call hfresh⟩)
    s s ⟨rfl, hsame⟩ calls

/-- A store without rows, and nothing in memory. -/
def bothEmpty : Both := ⟨(siteOf Table.empty).store, []⟩

/-- A subscription outlives a rotation, and is removed. -/
theorem registries_agree_rotated :
    EveryStep (Both.step sampleCrates) (Both.Agree sampleCrates) bothEmpty
      [.add 100 hookId sampleNonce sampleSub, .rotateMasterKey (fun _ => sampleNonce) secondKey,
        .list sampleRepo, .remove 101 sampleRepo hookId, .list sampleRepo] := by
  have hsame : bothEmpty.Same sampleCrates := by
    constructor
    · intro row hrow
      cases hrow
    · rfl
  refine (registries_agree_iff sampleCrates bothEmpty hsame _).mpr ⟨rfl, ?_⟩
  exact ⟨trivial, trivial, trivial, trivial, trivial⟩

end Sqlite
end Webhooks
end Artifacts
