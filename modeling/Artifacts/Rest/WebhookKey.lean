import Artifacts.Auth
import Artifacts.Foundation.Interleaving
import Artifacts.Webhooks.SealedSecrets
import Mathlib.Data.Fintype.Defs

/-!
# The webhook key and its file

`admin_rotate_webhook_key` re-encrypts the table and installs the new key, and then
rewrites the key file.  Nothing ties the two together: the write may fail, may come in
another order than the rotations, and may never come.  After a restart the sealed secrets
open exactly when the file holds the key that was installed when the process stopped
(`restart_opens_iff`).  That it does follows from the order of the writes and from where
the process stops (`restart_opens_in_order`).
-/

namespace Artifacts
namespace Rest
namespace WebhookKey

open Auth Foundation Rust Secrets Webhooks.Sqlite

/-- A call to the handler, with the key and the nonces that it draws. -/
structure Job where
  /-- What `authorize_rest` makes of the headers. -/
  caller : Result Principal
  newKey : MasterKey
  nonces : String → Nonce

/-- `AdminWebhookKeyRotateResponse`. -/
structure Response where
  rotated : Nat
  key : String
  deriving DecidableEq, Repr

inductive Place where
  | start
  /-- The registry has the new key, the file is yet to be written. -/
  | rotated (count : Nat)
  | replied (reply : Result Response)

/-- The registry, and the text of `webhook-key.bin`: the two places that a rotation changes one
after the other. The file is all that a restart has to go by. -/
structure Site where
  store : Store
  file : String

/-- How `std::fs::write` ends. Only a write that is done leaves the whole text for sure. -/
inductive Write where
  | done
  /-- The file could not be opened. -/
  | refused
  /-- The file was cut and has the beginning of the new text. -/
  | torn (length : Nat)

/-- What else happens to the registry. -/
inductive Outside where
  | add (now : Int64) (uuid : String) (nonce : Nonce) (sub : Subscription)

/-- `require_admin`: the error of the credentials comes before that of the role. -/
def requireAdmin (caller : Result Principal) : Result Unit := do
  let principal ← caller
  match principal with
  | .admin => return ()
  | _ => .error (.forbidden "admin inspection endpoints require admin auth")

/-- The file after a write. -/
def Write.leave (write : Write) (text file : String) : String :=
  match write with
  | .done => text
  | .refused => file
  | .torn length => String.ofList (text.toList.take length)

variable {κ : Type} (crates : Crates) (jobs : κ → Job)

/-- One step of call `k`. -/
def act (k : κ) (write : Write) (s : Site) : Place → Site × Place
  | .start =>
      match requireAdmin (jobs k).caller with
      | .error e => (s, .replied (.error e))
      | .ok () =>
          match s.store.rotateMasterKey crates (jobs k).nonces (jobs k).newKey with
          | (store, .error e) => ({ s with store := store }, .replied (.error e))
          | (store, .ok count) => ({ s with store := store }, .rotated count)
  | .rotated count =>
      let text := (jobs k).newKey.toBase64
      -- a write that fails is logged
      ({ s with file := write.leave text s.file }, .replied (.ok ⟨count, text⟩))
  | .replied reply => (s, .replied reply)

def outside : Outside → Site → Site
  | .add now uuid nonce sub, s => { s with store := (s.store.add crates now uuid nonce sub).1 }

def step [DecidableEq κ] (c : Calls κ Site Place) (m : Move κ Write Outside) :
    Calls κ Site Place :=
  c.move (act crates jobs) (outside crates) m

/-- The key that a restart loads, without `ARTIFACTS_WEBHOOK_KEY`. -/
def restartKey (file : String) (fresh : MasterKey) : Result MasterKey :=
  (MasterKey.loadOrGenerate crates none (some file) fresh).1

/-- After a restart every sealed secret unseals. `fresh` is the key that would be made if the file
were not there. -/
def RestartOpens (s : Site) : Prop :=
  ∀ fresh, ∀ row ∈ s.store.webhooks.rows, row.isSealed = true →
    ∃ key, restartKey crates s.file fresh = .ok key ∧ (rowSecret crates key row).isSome = true

/-- The file holds the installed key, or there is nothing that it would open. -/
def KeyFiled (s : Site) : Prop :=
  MasterKey.fromBase64 crates s.file = .ok s.store.masterKey ∨
    ∀ row ∈ s.store.webhooks.rows, row.isSealed = false

instance (s : Site) : Decidable (KeyFiled crates s) :=
  inferInstanceAs (Decidable (MasterKey.fromBase64 crates s.file = .ok s.store.masterKey ∨
    ∀ row ∈ s.store.webhooks.rows, row.isSealed = false))

/-- A call that is between its rotation and its write. -/
def Place.waiting : Place → Bool
  | .rotated _ => true
  | _ => false

/-- The key that is installed is that of a call which has yet to write it. -/
def Owed (c : Calls κ Site Place) (j : κ) : Prop :=
  (c.place j).waiting = true ∧ c.shared.store.masterKey = (jobs j).newKey

/-- The writes come in an order that does no harm: a call whose key is still installed leaves the
whole of it in the file, and a call whose key was replaced meanwhile writes before the one that
replaced it.  How the rotations and the additions are ordered does not matter. -/
def InOrder (c : Calls κ Site Place) : Move κ Write Outside → Prop
  | .env _ => True
  | .call k write =>
      (c.place k).waiting = true →
        if c.shared.store.masterKey = (jobs k).newKey then
          write.leave (jobs k).newKey.toBase64 c.shared.file = (jobs k).newKey.toBase64
        else
          ∃ j, Owed jobs c j

/-- The process does not stop between the two steps of the call whose key is installed. -/
def StopsBehindWrites (c : Calls κ Site Place) : Prop := ∀ j, ¬ Owed jobs c j

/-- No stored secret is sealed. -/
def Unsealed (s : Site) : Prop := ∀ row ∈ s.store.webhooks.rows, row.isSealed = false

section Decide
variable [Fintype κ]

instance (c : Calls κ Site Place) : DecidablePred (Owed jobs c) :=
  fun _ => inferInstanceAs (Decidable (_ ∧ _))

instance (c : Calls κ Site Place) : Decidable (StopsBehindWrites jobs c) :=
  inferInstanceAs (Decidable (∀ j, ¬ Owed jobs c j))

instance (c : Calls κ Site Place) : DecidablePred (InOrder jobs c)
  | .env _ => inferInstanceAs (Decidable True)
  | .call k write => inferInstanceAs (Decidable ((c.place k).waiting = true →
      if c.shared.store.masterKey = (jobs k).newKey then
        write.leave (jobs k).newKey.toBase64 c.shared.file = (jobs k).newKey.toBase64
      else ∃ j, Owed jobs c j))

end Decide

variable {crates jobs}

/-! ### Which key opens what -/

/-- Every stored secret can be read under the installed key, if the sealed ones can. -/
theorem reads_of_sealed {store : Store}
    (h : ∀ row ∈ store.webhooks.rows, row.isSealed = true →
      (rowSecret crates store.masterKey row).isSome = true) : store.Reads crates := by
  intro row hrow hsecret
  cases hnonce : row.secretNonce with
  | none =>
      obtain ⟨secret, heq⟩ := Option.isSome_iff_exists.mp hsecret
      unfold rowSecret
      rw [heq, hnonce]
      rfl
  | some nonce =>
      refine h row hrow ?_
      unfold HookRow.isSealed
      rw [hsecret, hnonce]
      rfl

/-- A sealed secret opens under one key only. -/
theorem key_unique {key key' : MasterKey} {row : HookRow} (hsealed : row.isSealed = true)
    (h : (rowSecret crates key row).isSome = true)
    (h' : (rowSecret crates key' row).isSome = true) : key' = key := by
  obtain ⟨secret, hread⟩ := Option.isSome_iff_exists.mp h
  obtain ⟨secret', hread'⟩ := Option.isSome_iff_exists.mp h'
  obtain ⟨nonce, ctB64, plaintext, hct, hnonce, hdec⟩ := ciphertext_of_opens hsealed hread
  -- the ciphertext was made with `key`, so no other key opens it
  unfold rowSecret at hread'
  rw [hct, hnonce] at hread'
  dsimp only at hread'
  rw [Nonce.tryFrom_bytes] at hread'
  dsimp only at hread'
  rw [hdec] at hread'
  dsimp only at hread'
  rw [unsealBytes_encrypt] at hread'
  by_contra hne
  rw [if_neg hne] at hread'
  cases hread'

/-- A key file that is there is read. -/
theorem restartKey_eq (file : String) (fresh : MasterKey) :
    restartKey crates file fresh = MasterKey.fromBase64 crates file := by
  unfold restartKey MasterKey.loadOrGenerate
  dsimp only

/-- **What a restart can open**, when the stored secrets open under the installed key. -/
theorem restartOpens_iff {s : Site} (h : s.store.Reads crates) :
    RestartOpens crates s ↔ KeyFiled crates s := by
  have hsome : ∀ row : HookRow, row.isSealed = true → row.secret.isSome = true :=
    fun row hsealed => (Bool.and_eq_true_iff.mp hsealed).1
  constructor
  · intro hopens
    by_cases hnone : ∀ row ∈ s.store.webhooks.rows, row.isSealed = false
    · exact Or.inr hnone
    · left
      push Not at hnone
      obtain ⟨row, hrow, hsealed⟩ := hnone
      rw [ne_eq, Bool.not_eq_false] at hsealed
      obtain ⟨key, hload, hread⟩ := hopens s.store.masterKey row hrow hsealed
      rw [restartKey_eq] at hload
      rw [hload, key_unique hsealed (h row hrow (hsome row hsealed)) hread]
  · intro hfiled fresh row hrow hsealed
    rw [restartKey_eq]
    rcases hfiled with hfile | hnone
    · exact ⟨s.store.masterKey, hfile, h row hrow (hsome row hsealed)⟩
    · rw [hnone row hrow] at hsealed
      cases hsealed

/-! ### What a step can do -/

/-- What one step of a call does: it refuses, rotates the registry, or writes the text of its own
key to the file, whichever key is installed by then. -/
inductive Acted (crates : Crates) (jobs : κ → Job) (k : κ) (write : Write) (s : Site) :
    Place → Site → Place → Prop
  | stays (p : Place) : Acted crates jobs k write s p s p
  | refuses (e : Error) : Acted crates jobs k write s .start s (.replied (.error e))
  | rotates (store : Store) (count : Nat)
      (hrotated : s.store.rotateMasterKey crates (jobs k).nonces (jobs k).newKey =
        (store, .ok count)) :
      Acted crates jobs k write s .start { s with store := store } (.rotated count)
  | writes (count : Nat) :
      Acted crates jobs k write s (.rotated count)
        { s with file := write.leave (jobs k).newKey.toBase64 s.file }
        (.replied (.ok ⟨count, (jobs k).newKey.toBase64⟩))

/-- A rotation that fails leaves the store as it is, and one that succeeds installs its key. -/
theorem rotateMasterKey_cases (crates : Crates) (store : Store) (nonces : String → Nonce)
    (new : MasterKey) :
    (∃ e, store.rotateMasterKey crates nonces new = (store, .error e)) ∨
      ∃ store' count, store.rotateMasterKey crates nonces new = (store', .ok count) ∧
        store'.masterKey = new := by
  unfold Store.rotateMasterKey
  cases reencrypt crates store.webhooks store.masterKey new nonces with
  | error e => exact Or.inl ⟨e, rfl⟩
  | ok found => exact Or.inr ⟨_, found.2, rfl, rfl⟩

/-- **The inversion lemma.** -/
theorem acted (crates : Crates) (jobs : κ → Job) (k : κ) (write : Write) (s : Site) (p : Place) :
    Acted crates jobs k write s p (act crates jobs k write s p).1
      (act crates jobs k write s p).2 := by
  cases p with
  | start =>
      unfold act
      dsimp only
      cases requireAdmin (jobs k).caller with
      | error e => exact .refuses e
      | ok =>
          dsimp only
          rcases rotateMasterKey_cases crates s.store (jobs k).nonces (jobs k).newKey with
            ⟨e, hfailed⟩ | ⟨store, count, hrotated, -⟩
          · rw [hfailed]
            exact .refuses e
          · rw [hrotated]
            exact .rotates store count hrotated
  | rotated count => exact .writes count
  | replied reply => exact .stays _

/-! ### Runs -/

/-- One step leaves the stored secrets readable under the key that is then installed. -/
theorem step_reads [DecidableEq κ] {c : Calls κ Site Place} (h : c.shared.store.Reads crates)
    (m : Move κ Write Outside) : (step crates jobs c m).shared.store.Reads crates := by
  cases m with
  | env e =>
      cases e with
      | add now uuid nonce sub => exact c.shared.store.add_reads h now uuid nonce sub
  | call k write =>
      have hacted := acted crates jobs k write c.shared (c.place k)
      change (act crates jobs k write c.shared (c.place k)).1.store.Reads crates
      generalize act crates jobs k write c.shared (c.place k) = next at *
      generalize c.place k = p at *
      obtain ⟨s', p'⟩ := next
      dsimp only at hacted ⊢
      cases hacted with
      | stays => exact h
      | refuses e => exact h
      | rotates store count hrotated =>
          have hreads := c.shared.store.rotateMasterKey_reads h (jobs k).nonces (jobs k).newKey
          rw [hrotated] at hreads
          exact hreads
      | writes count => exact h

theorem run_reads [DecidableEq κ] (crates : Crates) (jobs : κ → Job) (c : Calls κ Site Place)
    (h : c.shared.store.Reads crates) (moves : List (Move κ Write Outside)) :
    (moves.foldl (step crates jobs) c).shared.store.Reads crates := by
  induction moves generalizing c with
  | nil => exact h
  | cons m moves ih => exact ih (step crates jobs c m) (step_reads h m)

/-- **When the process may stop.**  In every state of every run, a restart opens the
sealed secrets if and only if the file holds the installed key or nothing is sealed. -/
theorem restart_opens_iff [DecidableEq κ] (crates : Crates) (jobs : κ → Job)
    (c : Calls κ Site Place) (moves : List (Move κ Write Outside))
    (h : ∀ row ∈ c.shared.store.webhooks.rows, row.isSealed = true →
      (rowSecret crates c.shared.store.masterKey row).isSome = true) :
    EveryState (step crates jobs)
      (fun c => RestartOpens crates c.shared ↔ KeyFiled crates c.shared) c moves :=
  everyState_of_invariant (I := fun c : Calls κ Site Place => c.shared.store.Reads crates)
    (fun _ hreads => restartOpens_iff hreads) (fun _ m hreads => step_reads hreads m)
    (reads_of_sealed h) moves

def thirdKey : MasterKey := ⟨List.replicate 32 3, rfl⟩

/-- Two calls of the admin. -/
def sampleJobs (k : Bool) : Job where
  caller := .ok .admin
  newKey := if k then thirdKey else secondKey
  nonces _ := sampleNonce

/-- A server that has just started. -/
def sampleStart : Calls Bool Site Place where
  shared := ⟨(siteOf Table.empty).store, firstKey.toBase64⟩
  place _ := .start

def sampleAdd : Move Bool Write Outside := .env (.add 100 hookId sampleNonce sampleSub)

/-- A stop between the two steps, a write that fails, and two writes in the other order
than the rotations. -/
theorem restart_loses_secrets :
    MasterKey.fromBase64 sampleCrates sampleStart.shared.file =
        .ok sampleStart.shared.store.masterKey ∧
      ∀ moves ∈ [[sampleAdd, .call false .done],
          [sampleAdd, .call false .done, .call false .refused],
          [sampleAdd, .call false .done, .call true .done, .call true .done, .call false .done]],
        ¬ RestartOpens sampleCrates
          (moves.foldl (step sampleCrates sampleJobs) sampleStart).shared := by
  have hfiled : ∀ moves ∈ [[sampleAdd, .call false .done],
      [sampleAdd, .call false .done, .call false .refused],
      [sampleAdd, .call false .done, .call true .done, .call true .done, .call false .done]],
      ¬ KeyFiled sampleCrates
        (moves.foldl (step sampleCrates sampleJobs) sampleStart).shared := by
    decide +kernel
  refine ⟨MasterKey.fromBase64_toBase64 sampleCrates firstKey, ?_⟩
  intro moves hmoves hopens
  have hreads := run_reads sampleCrates sampleJobs sampleStart
    (fun _ hrow => absurd hrow List.not_mem_nil) moves
  exact hfiled moves hmoves ((restartOpens_iff hreads).mp hopens)

/-! ### Writes in order -/

/-- What writes in order keep: the file holds the installed key, or a call that has yet to write
will put it there. -/
structure Filed (crates : Crates) (jobs : κ → Job) (c : Calls κ Site Place) : Prop where
  reads : c.shared.store.Reads crates
  filed : StopsBehindWrites jobs c →
    MasterKey.fromBase64 crates c.shared.file = .ok c.shared.store.masterKey

theorem add_masterKey (crates : Crates) (store : Store) (now : Int64) (uuid : String) (nonce : Nonce)
    (sub : Subscription) :
    (store.add crates now uuid nonce sub).1.masterKey = store.masterKey := by
  unfold Store.add
  rcases insertHook_cases store (newRow crates store.masterKey now uuid nonce sub) with
    hsame | ⟨-, -, hkey, -⟩
  · rw [hsame]
  · exact hkey

/-- A step that installs no key and takes no call out of its waiting leaves what is owed. -/
theorem Filed.quiet [DecidableEq κ] {c c' : Calls κ Site Place} (h : Filed crates jobs c)
    (hreads : c'.shared.store.Reads crates) (hfile : c'.shared.file = c.shared.file)
    (hkey : c'.shared.store.masterKey = c.shared.store.masterKey)
    (hwaiting : ∀ j, (c.place j).waiting = true → (c'.place j).waiting = true) :
    Filed crates jobs c' := by
  refine ⟨hreads, fun hnone => ?_⟩
  rw [hfile, hkey]
  refine h.filed fun j howed => hnone j ⟨hwaiting j howed.1, ?_⟩
  rw [hkey]
  exact howed.2

/-- **The step lemma.** -/
theorem Filed.step [DecidableEq κ] {c : Calls κ Site Place} (h : Filed crates jobs c)
    (m : Move κ Write Outside) (horder : InOrder jobs c m) :
    Filed crates jobs (step crates jobs c m) := by
  have hreads : (WebhookKey.step crates jobs c m).shared.store.Reads crates := step_reads h.reads m
  cases m with
  | env e =>
      cases e with
      | add now uuid nonce sub =>
          exact h.quiet hreads rfl (add_masterKey crates c.shared.store now uuid nonce sub)
            fun _ hj => hj
  | call k write =>
      have hacted := acted crates jobs k write c.shared (c.place k)
      have hother : ∀ j, j ≠ k →
          (WebhookKey.step crates jobs c (.call k write)).place j = c.place j :=
        fun j hjk => Calls.move_call_place_of_ne write hjk
      have hself : (WebhookKey.step crates jobs c (.call k write)).place k =
          (act crates jobs k write c.shared (c.place k)).2 := Calls.move_call_place_self k write
      have hshared : (WebhookKey.step crates jobs c (.call k write)).shared =
          (act crates jobs k write c.shared (c.place k)).1 := rfl
      unfold InOrder at horder
      dsimp only at horder
      generalize WebhookKey.step crates jobs c (.call k write) = c' at *
      generalize act crates jobs k write c.shared (c.place k) = next at *
      generalize hp : c.place k = p at *
      obtain ⟨s', p'⟩ := next
      dsimp only at hacted hself hshared
      -- another call waits as before
      have hwaits : (p.waiting = true → p'.waiting = true) →
          ∀ j, (c.place j).waiting = true → (c'.place j).waiting = true := by
        intro hk j hj
        by_cases hjk : j = k
        · rw [hjk, hself]
          exact hk (by rwa [hjk, hp] at hj)
        · rwa [hother j hjk]
      cases hacted with
      | stays => exact h.quiet hreads (by rw [hshared]) (by rw [hshared]) (hwaits id)
      | refuses e => exact h.quiet hreads (by rw [hshared]) (by rw [hshared]) (hwaits nofun)
      | rotates store count hrotated =>
          have hkey : store.masterKey = (jobs k).newKey := by
            rcases rotateMasterKey_cases crates c.shared.store (jobs k).nonces (jobs k).newKey with
              ⟨e, hfailed⟩ | ⟨store', count', hdone, hkey⟩
            · rw [hfailed] at hrotated
              cases hrotated
            · rw [hdone] at hrotated
              cases hrotated
              exact hkey
          -- the new key is owed by the call itself
          refine ⟨hreads, fun hnone => absurd ⟨?_, ?_⟩ (hnone k)⟩
          · rw [hself]
            rfl
          · rw [hshared]
            exact hkey
      | writes count =>
          specialize horder rfl
          refine ⟨hreads, fun hnone => ?_⟩
          rw [hshared]
          by_cases hown : c.shared.store.masterKey = (jobs k).newKey
          · rw [if_pos hown] at horder
            change MasterKey.fromBase64 crates (write.leave _ _) = .ok c.shared.store.masterKey
            rw [horder, hown]
            exact MasterKey.fromBase64_toBase64 crates _
          · -- the call that replaced the key is still to write
            rw [if_neg hown] at horder
            obtain ⟨j, hwaiting, hkey⟩ := horder
            have hjk : j ≠ k := by
              rintro rfl
              exact hown hkey
            refine absurd ⟨?_, ?_⟩ (hnone j)
            · rwa [hother j hjk]
            · rw [hshared]
              exact hkey

/-- **When the sealed secrets survive a restart.**  In every run of any number of calls, with
additions in between, whose writes come in order, and which does not stop between the rotation
that installed the key and its write, a restart opens every sealed secret; so it does at any stop
with no secret sealed.  The run starts with a file that holds the installed key and with stored
secrets that open under it.  The condition is on the steps and the stop; that it is needed shows
in `restart_loses_secrets`, for each of its parts. -/
theorem restart_opens_in_order [DecidableEq κ] (crates : Crates) (jobs : κ → Job)
    (c : Calls κ Site Place)
    (hfile : MasterKey.fromBase64 crates c.shared.file = .ok c.shared.store.masterKey)
    (h : ∀ row ∈ c.shared.store.webhooks.rows, row.isSealed = true →
      (rowSecret crates c.shared.store.masterKey row).isSome = true)
    (moves : List (Move κ Write Outside))
    (hstop : EveryStep (step crates jobs) (InOrder jobs) c moves ∧
        StopsBehindWrites jobs (moves.foldl (step crates jobs) c) ∨
      Unsealed (moves.foldl (step crates jobs) c).shared) :
    RestartOpens crates (moves.foldl (step crates jobs) c).shared := by
  have hiff := everyState_iff_prefix.mp (restart_opens_iff crates jobs c moves h) _
    (List.prefix_refl moves)
  rw [hiff]
  rcases hstop with ⟨horder, hbehind⟩ | hunsealed
  · have hkept : EveryState (step crates jobs) (Filed crates jobs) c moves :=
      everyState_of_everyStep (I := Filed crates jobs) (fun _ hc => hc)
        (fun _ m hc hm => hc.step m hm) ⟨reads_of_sealed h, fun _ => hfile⟩ horder
    have hend := everyState_iff_prefix.mp hkept _ (List.prefix_refl moves)
    exact Or.inl (hend.filed hbehind)
  · exact Or.inr hunsealed

/-- Two calls at once: the second rotates before the first writes, and writes after it. -/
theorem restart_opens_in_order_two :
    RestartOpens sampleCrates
      ([sampleAdd, .call false .done, .call true .done, .call false .done, .call true .done].foldl
        (step sampleCrates sampleJobs) sampleStart).shared :=
  restart_opens_in_order sampleCrates sampleJobs sampleStart
    (MasterKey.fromBase64_toBase64 sampleCrates firstKey) (fun _ hrow => absurd hrow List.not_mem_nil)
    _ (Or.inl (by decide +kernel))

end WebhookKey
end Rest
end Artifacts
