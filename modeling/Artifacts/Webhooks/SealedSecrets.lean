import Artifacts.Foundation.Runs
import Artifacts.Webhooks.Sqlite

/-!
# The secrets that deliveries carry

A delivery is signed with the secret that was copied into its row when it was queued.
`Site` remembers under which master key that was.  Rotation seals the subscriptions
anew, but not the queue, and a plaintext secret from before there were keys is copied as
if it were a ciphertext without a nonce; so a claim hands the right secrets out exactly
when neither has happened to what it claims.

`Store.Reads` says what the rows of a store can be read as, by the registry and by the queue.
The calls are whole calls here; their steps are interleaved in `RotationRace`.
-/

namespace Artifacts
namespace Webhooks
namespace Sqlite

open Events Foundation Rust Secrets

/-- The store, and the key that was installed when each delivery was queued. -/
structure Site where
  store : Store
  under : Nat → MasterKey

/-- A whole call on the store: what happens inside of it is not interrupted. Calls that overlap are
the subject of another module. -/
inductive Op where
  | add (now : Int64) (uuid : String) (nonce : Nonce) (sub : Subscription)
  | enqueue (now : Int64) (repoId : RepoId) (kind : String) (payload : List UInt8)
  | rotate (nonces : String → Nonce) (new : MasterKey)
  | claim (now : Int64) (limit : Nat)

variable (crates : Crates)

def Site.step (s : Site) : Op → Site
  | .add now uuid nonce sub => { s with store := (s.store.add crates now uuid nonce sub).1 }
  | .enqueue now repoId kind payload =>
      ⟨(s.store.enqueueDelivery now repoId kind payload).1,
        -- the new rows are those with the new ids
        fun id => if id < s.store.next then s.under id else s.store.masterKey⟩
  | .rotate nonces new => { s with store := (s.store.rotateMasterKey crates nonces new).1 }
  | .claim now limit => { s with store := (s.store.claimPendingDeliveries crates now limit).1 }

/-- **What a claim is to hand out**: for a subscription with a secret, that secret. -/
def Site.ClaimsRight (s : Site) : Op → Prop
  | .claim now limit =>
      ∀ delivery ∈ (s.store.claimPendingDeliveries crates now limit).2,
        ∀ row ∈ s.store.webhooks.rows, row.id = delivery.hookId → ∀ secret,
          rowSecret crates s.store.masterKey row = some secret → delivery.secret = some secret
  | _ => True

/-- Each delivery that is claimed for a subscription with a secret was queued from a
sealed secret, under the key that is installed now. -/
def Site.ClaimsCurrent (s : Site) : Op → Prop
  | .claim now limit =>
      ∀ delivery ∈ s.store.due now limit, ∀ row ∈ s.store.webhooks.rows,
        row.id = delivery.hookId → row.secret.isSome = true →
          row.secretNonce.isSome = true ∧ s.under delivery.id = s.store.masterKey
  | _ => True

instance (s : Site) (op : Op) : Decidable (s.ClaimsCurrent op) := by
  cases op with
  | add now uuid nonce sub => exact inferInstanceAs (Decidable True)
  | enqueue now repoId kind payload => exact inferInstanceAs (Decidable True)
  | rotate nonces new => exact inferInstanceAs (Decidable True)
  | claim now limit =>
      exact inferInstanceAs (Decidable (∀ delivery ∈ s.store.due now limit,
        ∀ row ∈ s.store.webhooks.rows, row.id = delivery.hookId → row.secret.isSome = true →
          row.secretNonce.isSome = true ∧ s.under delivery.id = s.store.masterKey))

/-- What the row of a delivery has of the secret of its subscription: the plaintext one
without a nonce, a sealed one under the key of that time. -/
def Carries (key under : MasterKey) (row : HookRow) (delivery : DeliveryRow) : Prop :=
  ∀ secret, rowSecret crates key row = some secret →
    (row.secretNonce = none ∧ delivery.secretNonce = none) ∨
      ∃ nonce : Nonce, row.secretNonce.isSome = true ∧
        delivery.secret = some (crates.cipher.encrypt under nonce (asBytes secret)) ∧
        delivery.secretNonce = some nonce.bytes

/-- Every stored secret can be read under the installed key. -/
def Store.Reads (store : Store) : Prop :=
  ∀ row ∈ store.webhooks.rows, row.secret.isSome = true →
    (rowSecret crates store.masterKey row).isSome = true

/-- Tables as they are left behind: every stored secret can be read, and every delivery
has something of the secret of its subscription, sealed under whatever key. -/
structure Site.Matched (s : Site) : Prop where
  reads : ∀ row ∈ s.store.webhooks.rows, row.secret.isSome = true →
    (rowSecret crates s.store.masterKey row).isSome = true
  listed : ∀ delivery ∈ s.store.deliveries.rows,
    s.store.webhooks.has delivery.hookId = true
  carries : ∀ delivery ∈ s.store.deliveries.rows, ∀ row ∈ s.store.webhooks.rows,
    row.id = delivery.hookId →
      Carries crates s.store.masterKey (s.under delivery.id) row delivery

variable {crates}

/-! ### Reading secrets -/

/-- What a secret that can be read looks like. -/
theorem rowSecret_eq_some {key : MasterKey} {row : HookRow} {secret : String}
    (h : rowSecret crates key row = some secret) :
    (row.secret = some secret ∧ row.secretNonce = none) ∨
      ∃ (nonce : Nonce) (ctB64 : String) (ct : List UInt8), row.secret = some ctB64 ∧
        row.secretNonce = some nonce.bytes ∧ Base64.standard.decode ctB64 = some ct ∧
        unsealBytes crates key ct nonce = .ok (asBytes secret) := by
  unfold rowSecret at h
  split at h
  · cases h
  · rename_i s hsecret hnonce
    cases h
    exact Or.inl ⟨hsecret, hnonce⟩
  · rename_i ctB64 nonceVec hsecret hnonce
    right
    split at h
    · cases h
    · rename_i nonce htry
      split at h
      · cases h
      · rename_i ct hct
        split at h
        · cases h
        · rename_i pt hpt
          unfold Nonce.tryFrom at htry
          split at htry
          · cases htry
            rw [asBytes_of_fromUtf8 h]
            exact ⟨_, ctB64, ct, hsecret, hnonce, hct, hpt⟩
          · cases htry

/-- What a sealed row that opens under `key` holds was encrypted with `key`. -/
theorem ciphertext_of_opens {key : MasterKey} {row : HookRow} {secret : String}
    (hsealed : row.isSealed = true) (hopens : rowSecret crates key row = some secret) :
    ∃ (nonce : Nonce) (ctB64 : String) (plaintext : List UInt8), row.secret = some ctB64 ∧
      row.secretNonce = some nonce.bytes ∧
        Base64.standard.decode ctB64 = some (crates.cipher.encrypt key nonce plaintext) := by
  unfold HookRow.isSealed at hsealed
  obtain ⟨-, hnonceSome⟩ := Bool.and_eq_true_iff.mp hsealed
  rcases rowSecret_eq_some hopens with ⟨-, hnone⟩ | ⟨nonce, ctB64, ct, hct, hnonce, hdec, hopen⟩
  · rw [hnone] at hnonceSome
    cases hnonceSome
  · exact ⟨nonce, ctB64, asBytes secret, hct, hnonce, by rw [hdec, unsealBytes_eq_ok hopen]⟩

/-- What was sealed under a key is read with that key. -/
theorem rowSecret_sealed {key : MasterKey} {row : HookRow} {nonce : Nonce} {secret : String}
    (hsecret : row.secret =
      some (Base64.standard.encode (crates.cipher.encrypt key nonce (asBytes secret))))
    (hnonce : row.secretNonce = some nonce.bytes) : rowSecret crates key row = some secret := by
  unfold rowSecret
  rw [hsecret, hnonce]
  dsimp only
  rw [Nonce.tryFrom_bytes]
  dsimp only
  rw [Base64.decode_encode Base64.standard_sound]
  dsimp only
  rw [unsealBytes_encrypt, if_pos rfl]
  exact fromUtf8_asBytes secret

/-- A delivery gives its secret away under the key it was sealed with, and under no other. -/
theorem deliverySecret_sealed {key under : MasterKey} {delivery : DeliveryRow} {nonce : Nonce}
    {secret : String}
    (hsecret : delivery.secret = some (crates.cipher.encrypt under nonce (asBytes secret)))
    (hnonce : delivery.secretNonce = some nonce.bytes) :
    deliverySecret crates key delivery = if key = under then some secret else none := by
  unfold deliverySecret
  rw [hsecret, hnonce]
  dsimp only
  rw [Nonce.tryFrom_bytes]
  dsimp only
  rw [unsealBytes_encrypt]
  by_cases h : key = under
  · rw [if_pos h, if_pos h]
    exact fromUtf8_asBytes secret
  · rw [if_neg h, if_neg h]

theorem deliverySecret_unsealed {key : MasterKey} {delivery : DeliveryRow}
    (hnonce : delivery.secretNonce = none) : deliverySecret crates key delivery = none := by
  unfold deliverySecret
  rw [hnonce]
  cases delivery.secret <;> rfl

/-! ### Rotation -/

/-- A row whose secret can be read is sealed anew with the same secret. -/
theorem reseal_reads {old : MasterKey} (new : MasterKey) (nonce : Nonce) {row : HookRow}
    (h : row.secret.isSome = true → (rowSecret crates old row).isSome = true) :
    ∃ row', reseal crates old new nonce row = .ok row' ∧
      row'.secret.isSome = row.secret.isSome ∧
      row'.secretNonce.isSome = row.secretNonce.isSome ∧
      rowSecret crates new row' = rowSecret crates old row := by
  cases hsecret : row.secret with
  | none =>
      refine ⟨row, ?_, by rw [hsecret], rfl, ?_⟩
      · unfold reseal
        rw [hsecret]
      · unfold rowSecret
        rw [hsecret]
  | some stored =>
      obtain ⟨secret, hread⟩ := Option.isSome_iff_exists.mp (h (by rw [hsecret]; rfl))
      rcases rowSecret_eq_some hread with ⟨hplain, hnone⟩ | ⟨oldNonce, ctB64, ct, hct, hnonce, hdec, hopen⟩
      · -- a plaintext row is left as it is
        refine ⟨row, ?_, by rw [hsecret], rfl, ?_⟩
        · unfold reseal
          rw [hplain, hnone]
        · unfold rowSecret
          rw [hplain, hnone]
      · refine ⟨{ row with
          secret := some (Base64.standard.encode (crates.cipher.encrypt new nonce (asBytes secret)))
          secretNonce := some nonce.bytes }, ?_, rfl, by rw [hnonce]; rfl, ?_⟩
        · unfold reseal
          rw [hct, hnonce]
          dsimp only
          rw [Nonce.tryFrom_bytes]
          dsimp only
          rw [hdec]
          dsimp only
          rw [hopen]
          rfl
        · rw [hread]
          exact rowSecret_sealed rfl rfl

/-- A transaction over rows that can be sealed anew goes through. -/
theorem reencrypt_eq_ok {webhooks : Table HookRow.id} {old new : MasterKey}
    {nonces : String → Nonce}
    (h : ∀ row ∈ webhooks.rows, ∃ row', reseal crates old new (nonces row.id) row = .ok row') :
    reencrypt crates webhooks old new nonces =
      .ok (webhooks.update (fun _ => true) (resealed crates old new nonces)
          (resealed_id crates old new nonces),
        (webhooks.select HookRow.isSealed).length) := by
  have hnone : webhooks.rows.findSome? (resealError crates old new nonces) = none := by
    rw [List.findSome?_eq_none_iff]
    intro row hrow
    obtain ⟨row', hok⟩ := h row hrow
    unfold resealError
    rw [hok]
  unfold reencrypt
  rw [hnone]

/-- **A rotation of readable secrets** succeeds, and every row keeps its secret. -/
theorem rotateMasterKey_spec {store : Store} (nonces : String → Nonce) (new : MasterKey)
    (h : store.Reads crates) :
    (store.rotateMasterKey crates nonces new).1 =
        { store with
          webhooks := store.webhooks.update (fun _ => true)
            (resealed crates store.masterKey new nonces)
            (resealed_id crates store.masterKey new nonces)
          masterKey := new } ∧
      ∀ row ∈ store.webhooks.rows,
        let row' := resealed crates store.masterKey new nonces row
        row'.secret.isSome = row.secret.isSome ∧
          row'.secretNonce.isSome = row.secretNonce.isSome ∧
          rowSecret crates new row' = rowSecret crates store.masterKey row := by
  have hrows : ∀ row ∈ store.webhooks.rows, ∃ row',
      reseal crates store.masterKey new (nonces row.id) row = .ok row' ∧
        row'.secret.isSome = row.secret.isSome ∧
        row'.secretNonce.isSome = row.secretNonce.isSome ∧
        rowSecret crates new row' = rowSecret crates store.masterKey row :=
    fun row hrow => reseal_reads new (nonces row.id) (h row hrow)
  constructor
  · unfold Store.rotateMasterKey
    rw [reencrypt_eq_ok fun row hrow => (hrows row hrow).imp fun row' hrow' => hrow'.1]
  · intro row hrow
    obtain ⟨row', hok, hspec⟩ := hrows row hrow
    unfold resealed
    rw [hok]
    exact hspec

/-! ### The invariant -/

/-- The rows that a new delivery may be, after some pushes. -/
theorem mem_pushes (now : Int64) (kind : String) (payload : List UInt8) (rows : List HookRow)
    (store : Store) (delivery : DeliveryRow)
    (h : delivery ∈ (rows.foldl (fun store row => store.push (newDelivery now kind payload row))
      store).deliveries.rows) :
    delivery ∈ store.deliveries.rows ∨ store.next ≤ delivery.id ∧
      ∃ row ∈ rows, delivery = { newDelivery now kind payload row with id := delivery.id } := by
  induction rows generalizing store with
  | nil => exact Or.inl h
  | cons row rows ih =>
      rcases ih _ h with hold | ⟨hid, other, hother, heq⟩
      · rcases List.mem_append.mp hold with hold | hnew
        · exact Or.inl hold
        · rw [List.mem_singleton.mp hnew]
          exact Or.inr ⟨Nat.le_refl _, row, List.mem_cons_self, rfl⟩
      · refine Or.inr ⟨Nat.le_of_succ_le hid, other, List.mem_cons_of_mem row hother, heq⟩

theorem pushes_frame (now : Int64) (kind : String) (payload : List UInt8) (rows : List HookRow)
    (store : Store) :
    (rows.foldl (fun store row => store.push (newDelivery now kind payload row))
        store).webhooks = store.webhooks ∧
      (rows.foldl (fun store row => store.push (newDelivery now kind payload row))
        store).masterKey = store.masterKey := by
  induction rows generalizing store with
  | nil => exact ⟨rfl, rfl⟩
  | cons row rows ih => exact ih (store.push (newDelivery now kind payload row))

/-- A delivery takes the secret of its subscription along as it is stored. -/
theorem carries_newDelivery (crates : Crates) (key : MasterKey) (now : Int64) (kind : String)
    (payload : List UInt8) (row : HookRow) (id : Nat) :
    Carries crates key key row { newDelivery now kind payload row with id := id } := by
  intro secret hread
  rcases rowSecret_eq_some hread with ⟨hplain, hnone⟩ | ⟨nonce, ctB64, ct, hct, hnonce, hdec, hopen⟩
  · exact Or.inl ⟨hnone, hnone⟩
  · have hct' := unsealBytes_eq_ok hopen
    refine Or.inr ⟨nonce, by rw [hnonce]; rfl, ?_, hnonce⟩
    change row.secret.bind Base64.standard.decode = _
    rw [hct, Option.bind_some, hdec, hct']

/-- A sealed secret is read back, if there is one. -/
theorem newRow_reads (crates : Crates) (key : MasterKey) (now : Int64) (uuid : String)
    (nonce : Nonce) (sub : Subscription) :
    rowSecret crates key (newRow crates key now uuid nonce sub) = sub.secret := by
  cases hsecret : sub.secret with
  | none =>
      unfold rowSecret newRow sealSecret
      rw [hsecret]
  | some secret =>
      apply rowSecret_sealed
      · unfold newRow sealSecret sealBytes
        rw [hsecret]
      · unfold newRow sealSecret sealBytes
        rw [hsecret]

theorem newRow_secret_isSome (crates : Crates) (key : MasterKey) (now : Int64) (uuid : String)
    (nonce : Nonce) (sub : Subscription) :
    (newRow crates key now uuid nonce sub).secret.isSome = sub.secret.isSome := by
  unfold newRow sealSecret sealBytes
  cases sub.secret <;> rfl

/-- A call to `add` changes the subscriptions only, by a row with a new id. -/
theorem insertHook_cases (store : Store) (row : HookRow) :
    (store.insertHook row).1 = store ∨
      store.webhooks.has row.id = false ∧
        (store.insertHook row).1.deliveries = store.deliveries ∧
        (store.insertHook row).1.masterKey = store.masterKey ∧
        ∀ other, other ∈ (store.insertHook row).1.webhooks ↔ other ∈ store.webhooks ∨ other = row := by
  unfold Store.insertHook
  cases hinsert : store.webhooks.insert row with
  | none => exact Or.inl rfl
  | some webhooks =>
      obtain ⟨hnew, hmem⟩ := Table.insert_eq_some hinsert
      exact Or.inr ⟨hnew, rfl, rfl, hmem⟩

/-- A call to `add` leaves every stored secret readable. -/
theorem Store.add_reads {store : Store} (h : store.Reads crates)
    (now : Int64) (uuid : String) (nonce : Nonce) (sub : Subscription) :
    (store.add crates now uuid nonce sub).1.Reads crates := by
  have hread := newRow_reads crates store.masterKey now uuid nonce sub
  have hsome := newRow_secret_isSome crates store.masterKey now uuid nonce sub
  have hcases := insertHook_cases store (newRow crates store.masterKey now uuid nonce sub)
  unfold Store.add
  generalize newRow crates store.masterKey now uuid nonce sub = new at *
  rcases hcases with hsame | ⟨-, -, hkey, hmem⟩
  · rw [hsame]
    exact h
  · intro row hrow hsecret
    rw [hkey]
    rcases (hmem row).mp hrow with hold | rfl
    · exact h row hold hsecret
    · rw [hread, ← hsome]
      exact hsecret

/-- So does a rotation. -/
theorem Store.rotateMasterKey_reads {store : Store} (h : store.Reads crates)
    (nonces : String → Nonce) (new : MasterKey) :
    (store.rotateMasterKey crates nonces new).1.Reads crates := by
  obtain ⟨hstore, hrows⟩ := rotateMasterKey_spec nonces new h
  rw [hstore]
  intro row' hrow' hsecret
  obtain ⟨row, hrow, heq⟩ :=
    (Table.mem_update (p := fun _ => true) (resealed_id crates store.masterKey new nonces)).mp hrow'
  obtain rfl : resealed crates store.masterKey new nonces row = row' := heq
  obtain ⟨hsome, -, hread⟩ := hrows row hrow
  change (rowSecret crates new _).isSome = true
  rw [hread]
  exact h row hrow (hsome ▸ hsecret)

theorem Site.Matched.add {s : Site} (h : s.Matched crates) (now : Int64) (uuid : String)
    (nonce : Nonce) (sub : Subscription) :
    Site.Matched crates { s with store := (s.store.add crates now uuid nonce sub).1 } := by
  have hreads := s.store.add_reads h.reads now uuid nonce sub
  have hcases := insertHook_cases s.store (newRow crates s.store.masterKey now uuid nonce sub)
  unfold Store.add at hreads ⊢
  generalize newRow crates s.store.masterKey now uuid nonce sub = row at *
  rcases hcases with hsame | ⟨hnew, hdeliveries, hkey, hmem⟩
  · rw [hsame]
    exact h
  · generalize (s.store.insertHook row).1 = store at *
    constructor
    · exact hreads
    · intro delivery hdelivery
      change delivery ∈ store.deliveries.rows at hdelivery
      rw [hdeliveries] at hdelivery
      obtain ⟨other, hother, hid⟩ := Table.has_iff.mp (h.listed delivery hdelivery)
      exact Table.has_iff.mpr ⟨other, (hmem other).mpr (Or.inl hother), hid⟩
    · intro delivery hdelivery other hother hid
      change delivery ∈ store.deliveries.rows at hdelivery
      change Carries crates store.masterKey (s.under delivery.id) other delivery
      rw [hdeliveries] at hdelivery
      rw [hkey]
      rcases (hmem other).mp hother with hold | rfl
      · exact h.carries delivery hdelivery other hold hid
      · -- no delivery is for a subscription that was not there
        have hlisted := h.listed delivery hdelivery
        rw [← hid, hnew] at hlisted
        cases hlisted

theorem Site.Matched.enqueue {s : Site} (h : s.Matched crates) (now : Int64) (repoId : RepoId)
    (kind : String) (payload : List UInt8) :
    Site.Matched crates ⟨(s.store.enqueueDelivery now repoId kind payload).1,
      fun id => if id < s.store.next then s.under id else s.store.masterKey⟩ := by
  unfold Store.enqueueDelivery
  obtain ⟨hwebhooks, hkey⟩ := pushes_frame now kind payload (s.store.wanting repoId kind) s.store
  have hmem := mem_pushes now kind payload (s.store.wanting repoId kind) s.store
  dsimp only
  generalize List.foldl (fun store row => store.push (newDelivery now kind payload row)) s.store
    (s.store.wanting repoId kind) = store at *
  constructor
  · intro row hrow hsecret
    change row ∈ store.webhooks.rows at hrow
    change (rowSecret crates store.masterKey row).isSome = true
    rw [hwebhooks] at hrow
    rw [hkey]
    exact h.reads row hrow hsecret
  · intro delivery hdelivery
    change store.webhooks.has delivery.hookId = true
    rw [hwebhooks]
    rcases hmem delivery hdelivery with hold | ⟨-, row, hrow, heq⟩
    · exact h.listed delivery hold
    · obtain ⟨hselect, -⟩ := List.mem_filter.mp hrow
      rw [heq]
      exact Table.has_iff.mpr ⟨row, (Table.mem_select.mp hselect).1, rfl⟩
  · intro delivery hdelivery row hrow hid
    change row ∈ store.webhooks.rows at hrow
    change Carries crates store.masterKey
      (if delivery.id < s.store.next then s.under delivery.id else s.store.masterKey) row delivery
    rw [hwebhooks] at hrow
    rw [hkey]
    rcases hmem delivery hdelivery with hold | ⟨hnew, other, hother, heq⟩
    · rw [if_pos (s.store.below delivery hold)]
      exact h.carries delivery hold row hrow hid
    · obtain ⟨hselect, -⟩ := List.mem_filter.mp hother
      -- one subscription has the id
      have hrow' : row = other :=
        Table.ext_key hrow (Table.mem_select.mp hselect).1 (hid.trans (by rw [heq]; rfl))
      rw [if_neg (Nat.not_lt.mpr hnew), hrow', heq]
      exact carries_newDelivery crates s.store.masterKey now kind payload other delivery.id

theorem Site.Matched.rotate {s : Site} (h : s.Matched crates) (nonces : String → Nonce)
    (new : MasterKey) :
    Site.Matched crates { s with store := (s.store.rotateMasterKey crates nonces new).1 } := by
  have hreads := s.store.rotateMasterKey_reads h.reads nonces new
  obtain ⟨hstore, hrows⟩ := rotateMasterKey_spec nonces new h.reads
  rw [hstore] at hreads ⊢
  have hold : ∀ row' ∈ (s.store.webhooks.update (fun _ => true)
      (resealed crates s.store.masterKey new nonces)
      (resealed_id crates s.store.masterKey new nonces)).rows,
      ∃ row ∈ s.store.webhooks.rows, resealed crates s.store.masterKey new nonces row = row' := by
    intro row' hrow'
    obtain ⟨row, hrow, heq⟩ := (Table.mem_update _).mp hrow'
    exact ⟨row, hrow, heq⟩
  constructor
  · exact hreads
  · intro delivery hdelivery
    obtain ⟨row, hrow, hid⟩ := Table.has_iff.mp (h.listed delivery hdelivery)
    have hupdated := (Table.mem_update (p := fun _ => true)
      (resealed_id crates s.store.masterKey new nonces)).mpr ⟨row, hrow, if_pos rfl⟩
    refine Table.has_iff.mpr ⟨_, hupdated, ?_⟩
    rw [resealed_id]
    exact hid
  · intro delivery hdelivery row' hrow' hid secret hsecret
    obtain ⟨row, hrow, rfl⟩ := hold row' hrow'
    obtain ⟨-, hnonce, hread⟩ := hrows row hrow
    change rowSecret crates new _ = some secret at hsecret
    rw [hread] at hsecret
    rw [resealed_id] at hid
    rcases h.carries delivery hdelivery row hrow hid secret hsecret with ⟨hnone, hnone'⟩ | hsealed
    · left
      rw [hnone] at hnonce
      exact ⟨Option.isNone_iff_eq_none.mp (by rw [← Option.not_isSome, hnonce]; rfl), hnone'⟩
    · obtain ⟨nonce, hsome, hct, hbytes⟩ := hsealed
      exact Or.inr ⟨nonce, hnonce.trans hsome, hct, hbytes⟩

theorem Site.Matched.claim {s : Site} (h : s.Matched crates) (now : Int64) (limit : Nat) :
    Site.Matched crates
      { s with store := (s.store.claimPendingDeliveries crates now limit).1 } := by
  constructor
  · exact h.reads
  · intro delivery hdelivery
    obtain ⟨old, hold, rfl⟩ := (Table.mem_update (DeliveryRow.leased_id now)).mp hdelivery
    split
    · exact h.listed old hold
    · exact h.listed old hold
  · intro delivery hdelivery row hrow hid
    obtain ⟨old, hold, rfl⟩ := (Table.mem_update (DeliveryRow.leased_id now)).mp hdelivery
    -- a lease touches neither the id nor the secret
    by_cases hclaimed : ((s.store.due now limit).any fun claimed => claimed.id == old.id) = true
    · rw [if_pos hclaimed] at hid ⊢
      exact h.carries old hold row hrow hid
    · rw [if_neg hclaimed] at hid ⊢
      exact h.carries old hold row hrow hid

/-- **The step lemma**, whatever the call. -/
theorem Site.Matched.step {s : Site} (h : s.Matched crates) (op : Op) :
    (s.step crates op).Matched crates := by
  cases op with
  | add now uuid nonce sub => exact h.add now uuid nonce sub
  | enqueue now repoId kind payload => exact h.enqueue now repoId kind payload
  | rotate nonces new => exact h.rotate nonces new
  | claim now limit => exact h.claim now limit

/-- A claim hands out the right secrets exactly when everything it claims is current. -/
theorem claimsRight_iff {s : Site} (h : s.Matched crates) (op : Op) :
    s.ClaimsRight crates op ↔ s.ClaimsCurrent op := by
  cases op with
  | add now uuid nonce sub => exact Iff.rfl
  | enqueue now repoId kind payload => exact Iff.rfl
  | rotate nonces new => exact Iff.rfl
  | claim now limit =>
      have hdue : ∀ delivery ∈ s.store.due now limit, delivery ∈ s.store.deliveries.rows := by
        intro delivery hdelivery
        have hsorted := List.mem_of_mem_take hdelivery
        exact (Table.mem_select.mp ((List.mem_insertionSort _).mp hsorted)).1
      constructor
      · intro hright delivery hdelivery row hrow hid hsome
        obtain ⟨secret, hread⟩ := Option.isSome_iff_exists.mp (h.reads row hrow hsome)
        have hgot := hright (pending crates s.store.masterKey delivery)
          (List.mem_map.mpr ⟨delivery, hdelivery, rfl⟩) row hrow hid secret hread
        change deliverySecret crates s.store.masterKey delivery = some secret at hgot
        rcases h.carries delivery (hdue delivery hdelivery) row hrow hid secret hread with
          ⟨-, hnone⟩ | ⟨nonce, hnonce, hct, hbytes⟩
        · rw [deliverySecret_unsealed hnone] at hgot
          cases hgot
        · rw [deliverySecret_sealed hct hbytes] at hgot
          split_ifs at hgot with hkey
          exact ⟨hnonce, hkey.symm⟩
      · intro hcurrent got hgot row hrow hid secret hread
        obtain ⟨delivery, hdelivery, rfl⟩ := List.mem_map.mp hgot
        have hsome : row.secret.isSome = true := by
          rcases rowSecret_eq_some hread with ⟨hplain, -⟩ | ⟨nonce, ctB64, ct, hct, -⟩
          · rw [hplain]
            rfl
          · rw [hct]
            rfl
        obtain ⟨hnonce, hkey⟩ := hcurrent delivery hdelivery row hrow hid hsome
        change deliverySecret crates s.store.masterKey delivery = some secret
        rcases h.carries delivery (hdue delivery hdelivery) row hrow hid secret hread with
          ⟨hnone, -⟩ | ⟨nonce, -, hct, hbytes⟩
        · rw [hnone] at hnonce
          cases hnonce
        · rw [deliverySecret_sealed hct hbytes, if_pos hkey.symm]

/-! ### Runs -/

/-- **When deliveries are signed.** Along every run of whole calls, from any tables that are left
behind, each claim hands out the secrets of the subscriptions if and only if all it claims for
subscriptions with a secret was queued from a sealed secret and under the key that is installed at
the claim. The cipher is a parameter that opens what it has sealed under the same key and nothing
else. Calls that overlap are the subject of `RotationRace`. -/
theorem claims_right_iff {s : Site} (h : s.Matched crates) (ops : List Op) :
    EveryStep (Site.step crates) (Site.ClaimsRight crates) s ops ↔
      EveryStep (Site.step crates) Site.ClaimsCurrent s ops :=
  everyStep_congr (fun _ h op _ => h.step op) (fun _ h op _ => claimsRight_iff h op) h

/-- A cipher that writes its key and its nonce in front of the plaintext. -/
def sampleCipher : Cipher where
  encrypt key nonce plaintext := key.bytes ++ nonce.bytes ++ plaintext
  decrypt key nonce ciphertext :=
    if (key.bytes ++ nonce.bytes).isPrefixOf ciphertext then some (ciphertext.drop 44) else none
  decrypt_encrypt key nonce plaintext := by
    have hlength : (key.bytes ++ nonce.bytes).length = 44 := by
      rw [List.length_append, key.size, nonce.size]
    rw [if_pos (List.isPrefixOf_iff_prefix.mpr (List.prefix_append _ _)),
      List.drop_left' hlength]
  authentic key nonce ciphertext plaintext h := by
    split_ifs at h with hprefix
    obtain ⟨rest, rfl⟩ := List.isPrefixOf_iff_prefix.mp hprefix
    have hlength : (key.bytes ++ nonce.bytes).length = 44 := by
      rw [List.length_append, key.size, nonce.size]
    rw [List.drop_left' hlength] at h
    rw [Option.some.inj h]
  wrong_key key key' nonce plaintext hne := by
    refine if_neg fun hprefix => ?_
    obtain ⟨rest, heq⟩ := List.isPrefixOf_iff_prefix.mp hprefix
    rw [List.append_assoc, List.append_assoc] at heq
    have hbytes := (List.append_inj heq (key'.size.trans key.size.symm)).1
    cases key
    cases key'
    exact hne (MasterKey.mk.injEq _ _ _ _ ▸ hbytes)

def sampleCrates : Crates where
  cipher := sampleCipher
  decodeError _ := "Invalid input length: 6"

def firstKey : MasterKey := ⟨List.replicate 32 1, rfl⟩

def secondKey : MasterKey := ⟨List.replicate 32 2, rfl⟩

def sampleNonce : Nonce := ⟨List.replicate 12 7, rfl⟩

def sampleRepo : RepoId := ⟨"demo-hooks", rfl⟩

def hookId : String := "6f1c2f7e-8f0d-4a39-9d56-0f5f4a1f3c11"

/-- A subscription to everything, with a secret. -/
def sampleSub : Subscription where
  id := ""
  repoId := sampleRepo
  url := "https://alice.example/hook"
  secret := some "s3cret"
  events := []

/-- A store with these subscriptions and an empty queue. -/
def siteOf (webhooks : Table HookRow.id) : Site where
  store := ⟨webhooks, Table.empty, 1, nofun, firstKey⟩
  under _ := firstKey

/-- A row from before secrets were sealed. -/
def legacyRow : HookRow where
  id := hookId
  repoId := "demo-hooks"
  url := "https://alice.example/hook"
  secret := some "s3cret"
  secretNonce := none
  events := []
  createdAt := 1600000000
  revokedAt := none

theorem siteOf_matched {webhooks : Table HookRow.id}
    (h : ∀ row ∈ webhooks.rows, row.secret.isSome = true →
      (rowSecret sampleCrates firstKey row).isSome = true) :
    (siteOf webhooks).Matched sampleCrates :=
  ⟨h, nofun, nofun⟩

theorem emptySite_matched : (siteOf Table.empty).Matched sampleCrates :=
  siteOf_matched fun _ hrow => absurd hrow List.not_mem_nil

/-- A rotation between two deliveries. -/
theorem claims_right_apart :
    EveryStep (Site.step sampleCrates) (Site.ClaimsRight sampleCrates) (siteOf Table.empty)
      [.add 100 hookId sampleNonce sampleSub, .enqueue 100 sampleRepo "commit" [1],
        .claim 100 32, .rotate (fun _ => sampleNonce) secondKey,
        .enqueue 101 sampleRepo "commit" [2], .claim 101 32] :=
  (claims_right_iff emptySite_matched _).mpr (by decide +kernel)

/-- A delivery of a plaintext secret, and one that was queued before a rotation, are
claimed without the secret that `matching` returns. -/
theorem claims_wrong :
    let legacy := siteOf ((Table.empty : Table HookRow.id).replace legacyRow)
    let queued := [Op.enqueue 100 sampleRepo "commit" [1]].foldl (Site.step sampleCrates) legacy
    let rotated := [Op.add 100 hookId sampleNonce sampleSub, .enqueue 100 sampleRepo "commit" [1],
      .rotate (fun _ => sampleNonce) secondKey].foldl (Site.step sampleCrates) (siteOf Table.empty)
    legacy.Matched sampleCrates ∧
      (∀ s ∈ [queued, rotated],
        (s.store.matching sampleCrates sampleRepo "commit").map (·.secret) = [some "s3cret"] ∧
          (s.store.claimPendingDeliveries sampleCrates 100 32).2.map (·.secret) = [none]) ∧
      ¬ queued.ClaimsRight sampleCrates (.claim 100 32) ∧
      ¬ rotated.ClaimsRight sampleCrates (.claim 100 32) := by
  have hlegacy : (siteOf ((Table.empty : Table HookRow.id).replace legacyRow)).Matched
      sampleCrates := siteOf_matched (by decide +kernel)
  refine ⟨hlegacy, by decide +kernel, ?_, ?_⟩
  · have hqueued := hlegacy.step (.enqueue 100 sampleRepo "commit" [1])
    exact fun h => absurd ((claimsRight_iff hqueued (.claim 100 32)).mp h) (by decide +kernel)
  · have hrotated := ((emptySite_matched.step (.add 100 hookId sampleNonce sampleSub)).step
      (.enqueue 100 sampleRepo "commit" [1])).step (.rotate (fun _ => sampleNonce) secondKey)
    exact fun h => absurd ((claimsRight_iff hrotated (.claim 100 32)).mp h) (by decide +kernel)

end Sqlite
end Webhooks
end Artifacts
