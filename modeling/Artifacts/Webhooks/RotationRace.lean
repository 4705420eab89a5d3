import Artifacts.Foundation.Interleaving
import Artifacts.Webhooks.SealedSecrets

/-!
# Subscriptions added during a rotation

`add` takes a snapshot of the master key and inserts its row afterwards;
`rotate_master_key` takes a snapshot, re-encrypts in one transaction and swaps the key
afterwards.  Connections are pooled, so nothing keeps the steps of two calls apart.  A
secret is lost when it is sealed under a key that the table has already left, or leaves
before the row is in it.

`Kept` is the invariant of an orderly run: what is sealed in the table opens under the key of
the table, which is the installed one but between a commit and its swap.  The two orders at the
end lose a secret.
-/

namespace Artifacts
namespace Webhooks
namespace Sqlite
namespace Race

open Foundation Rust Secrets

inductive Op where
  | add (now : Int64) (uuid : String) (nonce : Nonce) (sub : Subscription)
  | rotate (nonces : String → Nonce) (new : MasterKey)

/-- How far a call has come. An `add` reads the key before it has the connection; a rotation commits
before it swaps the key. Between the two, others may act. -/
inductive Place where
  | start
  /-- An `add` has sealed its row under a snapshot of the key. -/
  | keyed (row : HookRow)
  | added (reply : Result String)
  | snapped (old : MasterKey)
  /-- The transaction of a rotation is committed. -/
  | committed (count : Nat)
  | rotated (reply : Result Nat)

/-- The store, and the secrets that were given for the ids in it. -/
structure Board where
  store : Store
  given : String → Option String

variable {κ : Type} (crates : Crates) (jobs : κ → Op)

/-- One step of call `k`. -/
def act (k : κ) (_ : Unit) (b : Board) (p : Place) : Board × Place :=
  match jobs k, p with
  | .add now uuid nonce sub, .start =>
      (b, .keyed (newRow crates b.store.masterKey now uuid nonce sub))
  | .add _ _ _ sub, .keyed row =>
      match b.store.insertHook row with
      | (_, .error e) => (b, .added (.error e))
      | (store, .ok id) => (⟨store, Function.update b.given id sub.secret⟩, .added (.ok id))
  | .rotate _ _, .start => (b, .snapped b.store.masterKey)
  | .rotate nonces new, .snapped old =>
      match reencrypt crates b.store.webhooks old new nonces with
      | .error e => (b, .rotated (.error e))
      | .ok (webhooks, count) =>
          ({ b with store := { b.store with webhooks := webhooks } }, .committed count)
  | .rotate _ new, .committed count =>
      ({ b with store := { b.store with masterKey := new } }, .rotated (.ok count))
  | _, p => (b, p)

/-- Nothing else happens to the store. -/
def step [DecidableEq κ] (c : Calls κ Board Place) (m : Move κ Unit Empty) : Calls κ Board Place :=
  c.move (act crates jobs) (fun e => nomatch e) m

/-- The call is not under way. -/
def Place.idle : Place → Bool
  | .start | .added _ | .rotated _ => true
  | _ => false

/-- A sealed secret of the table opens to what was given when its subscription was added, and not
merely to something. -/
def Opens (key : MasterKey) (b : Board) : Prop :=
  ∀ row ∈ b.store.webhooks.rows, row.isSealed = true →
    ∃ secret, b.given row.id = some secret ∧ rowSecret crates key row = some secret

/-- When no call is under way, the sealed secrets open under the installed key. -/
def Settled (c : Calls κ Board Place) : Prop :=
  (∀ k, (c.place k).idle = true) → Opens crates c.shared.store.masterKey c.shared

/-- Some rotation has committed and not swapped the key yet, and this is its new key. -/
def Between (c : Calls κ Board Place) (key : MasterKey) : Prop :=
  ∃ j, (∃ count, c.place j = .committed count) ∧ ∃ nonces, jobs j = .rotate nonces key

/-- No secret is sealed between the commit and the swap of a rotation; and when a
rotation commits, no sealed row is on its way into the table, nor has another rotation to
this snapshot of the key just committed. -/
def Orderly (c : Calls κ Board Place) : Move κ Unit Empty → Prop
  | .env e => nomatch e
  | .call k _ =>
      match jobs k, c.place k with
      | .add _ _ _ sub, .start => sub.secret.isSome = true → ∀ key, ¬ Between jobs c key
      | .rotate _ _, .snapped old =>
          (∀ j row, c.place j = .keyed row → row.isSealed = false) ∧ ¬ Between jobs c old
      | _, _ => True

/-! ### What one transaction does -/

variable {crates jobs}

/-- A row that opens under one key cannot be sealed anew from another one. -/
theorem reseal_key {key old new : MasterKey} {nonce : Nonce} {row row' : HookRow} {secret : String}
    (hsealed : row.isSealed = true) (hopens : rowSecret crates key row = some secret)
    (h : reseal crates old new nonce row = .ok row') : old = key := by
  obtain ⟨oldNonce, ctB64, plaintext, hct, hnonce, hdec⟩ := ciphertext_of_opens hsealed hopens
  unfold reseal at h
  rw [hct, hnonce] at h
  dsimp only at h
  rw [Nonce.tryFrom_bytes] at h
  dsimp only at h
  rw [hdec] at h
  dsimp only at h
  rw [unsealBytes_encrypt] at h
  by_contra hne
  rw [if_neg hne] at h
  cases h

/-- A row without a sealed secret is left as it is. -/
theorem reseal_unsealed {old new : MasterKey} {nonce : Nonce} {row : HookRow}
    (h : row.isSealed = false) : reseal crates old new nonce row = .ok row := by
  unfold reseal
  split
  · rename_i hsecret hnonce
    unfold HookRow.isSealed at h
    rw [hsecret, hnonce] at h
    cases h
  · rfl

/-- A transaction that commits has sealed every row anew. -/
theorem reencrypt_eq_ok_iff {webhooks webhooks' : Table HookRow.id} {old new : MasterKey}
    {nonces : String → Nonce} {count : Nat}
    (h : reencrypt crates webhooks old new nonces = .ok (webhooks', count)) :
    (∀ row ∈ webhooks.rows, reseal crates old new (nonces row.id) row =
      .ok (resealed crates old new nonces row)) ∧
      ∀ row', row' ∈ webhooks'.rows ↔
        ∃ row ∈ webhooks.rows, resealed crates old new nonces row = row' := by
  unfold reencrypt at h
  split at h
  · cases h
  · rename_i hnone
    cases h
    constructor
    · intro row hrow
      have hok := List.findSome?_eq_none_iff.mp hnone row hrow
      unfold resealError at hok
      unfold resealed
      cases hreseal : reseal crates old new (nonces row.id) row with
      | ok row' => rfl
      | error e =>
          rw [hreseal] at hok
          cases hok
    · intro row'
      exact Table.mem_update (resealed_id crates old new nonces)

/-- What a transaction that commits has done to a table whose secrets open. -/
theorem reencrypt_opens {b : Board} {key old new : MasterKey} {nonces : String → Nonce}
    {webhooks : Table HookRow.id} {count : Nat} (hopens : Opens crates key b)
    (h : reencrypt crates b.store.webhooks old new nonces = .ok (webhooks, count)) :
    Opens crates new { b with store := { b.store with webhooks := webhooks } } ∧
      (old = key ∨ ∀ row' ∈ webhooks.rows, row'.isSealed = false) := by
  obtain ⟨hreseal, hmem⟩ := reencrypt_eq_ok_iff h
  have hrow : ∀ row ∈ b.store.webhooks.rows,
      (row.isSealed = false ∧ resealed crates old new nonces row = row) ∨
        (old = key ∧ rowSecret crates new (resealed crates old new nonces row) =
          rowSecret crates key row ∧ row.isSealed = true) := by
    intro row hrow
    have hok := hreseal row hrow
    cases hsealed : row.isSealed with
    | false =>
        left
        rw [reseal_unsealed hsealed] at hok
        exact ⟨rfl, (Except.ok.inj hok).symm⟩
    | true =>
        right
        obtain ⟨secret, -, hread⟩ := hopens row hrow hsealed
        obtain rfl := reseal_key hsealed hread hok
        obtain ⟨row', hok', -, -, hread'⟩ :=
          reseal_reads new (nonces row.id) fun _ => by rw [hread]; rfl
        obtain rfl := Except.ok.inj (hok.symm.trans hok')
        exact ⟨rfl, hread', rfl⟩
  constructor
  · intro row' hrow' hsealed'
    obtain ⟨row, hmemRow, rfl⟩ := (hmem row').mp hrow'
    rcases hrow row hmemRow with ⟨hunsealed, hsame⟩ | ⟨-, hread, hsealed⟩
    · rw [hsame, hunsealed] at hsealed'
      cases hsealed'
    · obtain ⟨secret, hgiven, hsecret⟩ := hopens row hmemRow hsealed
      refine ⟨secret, ?_, hread.trans hsecret⟩
      rw [resealed_id]
      exact hgiven
  · by_cases hkey : old = key
    · exact Or.inl hkey
    · right
      intro row' hrow'
      obtain ⟨row, hmemRow, rfl⟩ := (hmem row').mp hrow'
      rcases hrow row hmemRow with ⟨hunsealed, hsame⟩ | ⟨hold, -⟩
      · rw [hsame]
        exact hunsealed
      · exact absurd hold hkey

/-! ### What a step can do -/

/-- What one step of a call does, with the guards it has passed. All but `inserts` and `commits`
leave the rows as they are. -/
inductive Acted (crates : Crates) (jobs : κ → Op) (k : κ) (b : Board) :
    Place → Board → Place → Prop
  | stays (p : Place) : Acted crates jobs k b p b p
  /-- The store stays, and the call has nothing to write. -/
  | quiet (p p' : Place) (hbefore : ∀ count, p ≠ .committed count)
      (hafter : ∀ count, p' ≠ .committed count) (hkeyed : ∀ row, p' ≠ .keyed row) :
      Acted crates jobs k b p b p'
  | seals (now : Int64) (uuid : String) (nonce : Nonce) (sub : Subscription)
      (hjob : jobs k = .add now uuid nonce sub) :
      Acted crates jobs k b .start b
        (.keyed (newRow crates b.store.masterKey now uuid nonce sub))
  | inserts (now : Int64) (uuid : String) (nonce : Nonce) (sub : Subscription) (row : HookRow)
      (webhooks : Table HookRow.id) (hjob : jobs k = .add now uuid nonce sub)
      (hinsert : b.store.webhooks.insert row = some webhooks) :
      Acted crates jobs k b (.keyed row)
        ⟨{ b.store with webhooks := webhooks }, Function.update b.given row.id sub.secret⟩
        (.added (.ok row.id))
  | commits (nonces : String → Nonce) (new old : MasterKey) (webhooks : Table HookRow.id)
      (count : Nat) (hjob : jobs k = .rotate nonces new)
      (hdone : reencrypt crates b.store.webhooks old new nonces = .ok (webhooks, count)) :
      Acted crates jobs k b (.snapped old)
        { b with store := { b.store with webhooks := webhooks } } (.committed count)
  | swaps (nonces : String → Nonce) (new : MasterKey) (count : Nat)
      (hjob : jobs k = .rotate nonces new) :
      Acted crates jobs k b (.committed count)
        { b with store := { b.store with masterKey := new } } (.rotated (.ok count))

/-- **The inversion lemma.** -/
theorem acted (crates : Crates) (jobs : κ → Op) (k : κ) (b : Board) (p : Place) :
    Acted crates jobs k b p (act crates jobs k () b p).1 (act crates jobs k () b p).2 := by
  unfold act
  cases hjob : jobs k with
  | add now uuid nonce sub =>
      cases p with
      | start => exact .seals now uuid nonce sub hjob
      | keyed row =>
          dsimp only [Store.insertHook]
          cases hinsert : b.store.webhooks.insert row with
          | none => exact .quiet _ _ nofun nofun nofun
          | some webhooks => exact .inserts now uuid nonce sub row webhooks hjob hinsert
      | added reply => exact .stays _
      | snapped old => exact .stays _
      | committed count => exact .stays _
      | rotated reply => exact .stays _
  | rotate nonces new =>
      cases p with
      | start => exact .quiet _ _ nofun nofun nofun
      | snapped old =>
          dsimp only
          cases hdone : reencrypt crates b.store.webhooks old new nonces with
          | error e => exact .quiet _ _ nofun nofun nofun
          | ok found => exact .commits nonces new old found.1 found.2 hjob hdone
      | committed count => exact .swaps nonces new count hjob
      | keyed row => exact .stays _
      | added reply => exact .stays _
      | rotated reply => exact .stays _

/-! ### The invariant -/

/-- The table opens under the installed key, or under the new key of every rotation that
has committed and has yet to swap it; a sealed row on its way in opens too. -/
structure Kept (crates : Crates) (jobs : κ → Op) (c : Calls κ Board Place) : Prop where
  opens : (∀ key, ¬ Between jobs c key) → Opens crates c.shared.store.masterKey c.shared
  opensNew : ∀ key, Between jobs c key → Opens crates key c.shared
  keyed : ∀ k row, c.place k = .keyed row → row.isSealed = true →
    (∀ key, ¬ Between jobs c key) ∧
      ∃ now uuid nonce sub, jobs k = .add now uuid nonce sub ∧ sub.secret.isSome = true ∧
        rowSecret crates c.shared.store.masterKey row = sub.secret

section Steps
variable {c c' : Calls κ Board Place} {k : κ}

/-- A rotation that is between its two steps afterwards was so before, or is the one that
moved. -/
theorem between_of_other (hother : ∀ j, j ≠ k → c'.place j = c.place j) {key : MasterKey}
    (h : Between jobs c' key) :
    Between jobs c key ∨ (∃ count, c'.place k = .committed count) ∧
      ∃ nonces, jobs k = .rotate nonces key := by
  obtain ⟨j, ⟨count, hplace⟩, nonces, hjob⟩ := h
  by_cases hjk : j = k
  · subst hjk
    exact Or.inr ⟨⟨count, hplace⟩, nonces, hjob⟩
  · rw [hother j hjk] at hplace
    exact Or.inl ⟨j, ⟨count, hplace⟩, nonces, hjob⟩

/-- What is between its steps is the same before and after a step that neither commits nor
swaps. -/
theorem between_congr (jobs : κ → Op) (hother : ∀ j, j ≠ k → c'.place j = c.place j)
    (hbefore : ∀ count, c.place k ≠ .committed count)
    (hafter : ∀ count, c'.place k ≠ .committed count) (key : MasterKey) :
    Between jobs c' key ↔ Between jobs c key := by
  have hsame : ∀ j count, c'.place j = .committed count ↔ c.place j = .committed count := by
    intro j count
    by_cases hjk : j = k
    · subst hjk
      exact iff_of_false (hafter count) (hbefore count)
    · rw [hother j hjk]
  unfold Between
  simp only [hsame]

/-- The table and the key stay. -/
theorem Kept.quiet (h : Kept crates jobs c) (hother : ∀ j, j ≠ k → c'.place j = c.place j)
    (hbefore : ∀ count, c.place k ≠ .committed count)
    (hafter : ∀ count, c'.place k ≠ .committed count)
    (hshared : c'.shared = c.shared)
    (hkeyed : ∀ row, c'.place k = .keyed row → row.isSealed = true →
      (∀ key, ¬ Between jobs c key) ∧
        ∃ now uuid nonce sub, jobs k = .add now uuid nonce sub ∧ sub.secret.isSome = true ∧
          rowSecret crates c.shared.store.masterKey row = sub.secret) :
    Kept crates jobs c' := by
  have hbetween := between_congr jobs hother hbefore hafter
  constructor
  · intro hnone
    rw [hshared]
    exact h.opens fun key hkey => hnone key ((hbetween key).mpr hkey)
  · intro key hkey
    rw [hshared]
    exact h.opensNew key ((hbetween key).mp hkey)
  · intro j row hplace hsealed
    rw [hshared]
    have hold : (∀ key, ¬ Between jobs c key) ∧
        ∃ now uuid nonce sub, jobs j = .add now uuid nonce sub ∧ sub.secret.isSome = true ∧
          rowSecret crates c.shared.store.masterKey row = sub.secret := by
      by_cases hjk : j = k
      · subst hjk
        exact hkeyed row hplace hsealed
      · rw [hother j hjk] at hplace
        exact h.keyed j row hplace hsealed
    exact ⟨fun key hkey => hold.1 key ((hbetween key).mp hkey), hold.2⟩

/-- A row that has been sealed is inserted under a new id. -/
theorem Kept.inserts (h : Kept crates jobs c) (hother : ∀ j, j ≠ k → c'.place j = c.place j)
    {now : Int64} {uuid : String} {nonce : Nonce} {sub : Subscription} {row : HookRow}
    {webhooks : Table HookRow.id} {reply : Result String}
    (hjob : jobs k = .add now uuid nonce sub) (hplace : c.place k = .keyed row)
    (hplace' : c'.place k = .added reply)
    (hinsert : c.shared.store.webhooks.insert row = some webhooks)
    (hshared : c'.shared = ⟨{ c.shared.store with webhooks := webhooks },
      Function.update c.shared.given row.id sub.secret⟩) : Kept crates jobs c' := by
  have hbetween := between_congr jobs hother (by rw [hplace]; nofun)
    (by rw [hplace']; nofun)
  obtain ⟨hnew, hmem⟩ := Table.insert_eq_some hinsert
  -- rows of the table before have another id
  have hgiven : ∀ other ∈ c.shared.store.webhooks.rows, c'.shared.given other.id =
      c.shared.given other.id := by
    intro other hother'
    rw [hshared]
    refine Function.update_of_ne ?_ _ _
    intro hid
    have htaken : c.shared.store.webhooks.has row.id = true :=
      Table.has_iff.mpr ⟨other, hother', hid⟩
    rw [hnew] at htaken
    cases htaken
  have hrow : ∀ other ∈ c'.shared.store.webhooks.rows,
      other ∈ c.shared.store.webhooks.rows ∨ other = row := by
    intro other hother'
    rw [hshared] at hother'
    exact (hmem other).mp hother'
  constructor
  · intro hnone other hother' hsealed
    have hnone' : ∀ key, ¬ Between jobs c key := fun key hkey => hnone key ((hbetween key).mpr hkey)
    rcases hrow other hother' with hold | rfl
    · rw [hgiven other hold, hshared]
      exact h.opens hnone' other hold hsealed
    · obtain ⟨-, now', uuid', nonce', sub', hjob', hsome, hread⟩ := h.keyed k other hplace hsealed
      rw [hjob] at hjob'
      obtain ⟨rfl, rfl, rfl, rfl⟩ := Op.add.inj hjob'
      obtain ⟨secret, hsecret⟩ := Option.isSome_iff_exists.mp hsome
      rw [hshared]
      refine ⟨secret, ?_, hread.trans hsecret⟩
      change Function.update c.shared.given other.id sub.secret other.id = some secret
      rw [Function.update_self, hsecret]
  · intro key hkey other hother' hsealed
    have hkey' := (hbetween key).mp hkey
    rcases hrow other hother' with hold | rfl
    · rw [hgiven other hold]
      exact h.opensNew key hkey' other hold hsealed
    · exact absurd hkey' ((h.keyed k other hplace hsealed).1 key)
  · intro j other hplaceOther hsealed
    by_cases hjk : j = k
    · subst hjk
      rw [hplace'] at hplaceOther
      cases hplaceOther
    · rw [hother j hjk] at hplaceOther
      obtain ⟨hnone, hadd⟩ := h.keyed j other hplaceOther hsealed
      rw [hshared]
      exact ⟨fun key hkey => hnone key ((hbetween key).mp hkey), hadd⟩

/-- A rotation commits its transaction. -/
theorem Kept.commits (h : Kept crates jobs c) (hother : ∀ j, j ≠ k → c'.place j = c.place j)
    {nonces : String → Nonce} {new old : MasterKey} {webhooks : Table HookRow.id} {count : Nat}
    (hjob : jobs k = .rotate nonces new) (hplace' : c'.place k = .committed count)
    (hdone : reencrypt crates c.shared.store.webhooks old new nonces = .ok (webhooks, count))
    (hkeyed : ∀ j row, c.place j = .keyed row → row.isSealed = false)
    (hold : ¬ Between jobs c old)
    (hshared : c'.shared =
      { c.shared with store := { c.shared.store with webhooks := webhooks } }) :
    Kept crates jobs c' := by
  constructor
  · intro hnone
    exact absurd ⟨k, ⟨count, hplace'⟩, nonces, hjob⟩ (hnone new)
  · intro key hkey
    rw [hshared]
    rcases between_of_other hother hkey with hbefore | ⟨-, nonces', hjob'⟩
    · -- the table has left this snapshot of the key, so nothing in it is sealed
      obtain ⟨-, hunsealed⟩ := reencrypt_opens (h.opensNew key hbefore) hdone
      have hne : old ≠ key := fun heq => hold (heq ▸ hbefore)
      intro row hrow hsealed
      rw [hunsealed.resolve_left hne row hrow] at hsealed
      cases hsealed
    · rw [hjob] at hjob'
      obtain ⟨rfl, rfl⟩ := Op.rotate.inj hjob'
      by_cases hbetween : ∃ key, Between jobs c key
      · obtain ⟨key, hbetween⟩ := hbetween
        exact (reencrypt_opens (h.opensNew key hbetween) hdone).1
      · have hnone : ∀ key, ¬ Between jobs c key := fun key hkey => hbetween ⟨key, hkey⟩
        exact (reencrypt_opens (h.opens hnone) hdone).1
  · intro j row hplace hsealed
    by_cases hjk : j = k
    · subst hjk
      rw [hplace'] at hplace
      cases hplace
    · rw [hother j hjk] at hplace
      rw [hkeyed j row hplace] at hsealed
      cases hsealed

/-- A rotation installs its key. -/
theorem Kept.swaps (h : Kept crates jobs c) (hother : ∀ j, j ≠ k → c'.place j = c.place j)
    {nonces : String → Nonce} {new : MasterKey} {count : Nat} {reply : Result Nat}
    (hjob : jobs k = .rotate nonces new) (hplace : c.place k = .committed count)
    (hplace' : c'.place k = .rotated reply)
    (hshared : c'.shared = { c.shared with store := { c.shared.store with masterKey := new } }) :
    Kept crates jobs c' := by
  have hnew : Between jobs c new := ⟨k, ⟨count, hplace⟩, nonces, hjob⟩
  constructor
  · intro _
    rw [hshared]
    exact h.opensNew new hnew
  · intro key hkey
    rw [hshared]
    rcases between_of_other hother hkey with hbefore | ⟨⟨count', hcommitted⟩, -⟩
    · exact h.opensNew key hbefore
    · rw [hplace'] at hcommitted
      cases hcommitted
  · intro j row hplaceRow hsealed
    by_cases hjk : j = k
    · subst hjk
      rw [hplace'] at hplaceRow
      cases hplaceRow
    · -- no sealed row is on its way while a rotation is between its steps
      rw [hother j hjk] at hplaceRow
      exact absurd hnew ((h.keyed j row hplaceRow hsealed).1 new)

end Steps

/-- **Every step of an orderly run keeps the invariant.** -/
theorem Kept.step [DecidableEq κ] {c : Calls κ Board Place} (h : Kept crates jobs c)
    (m : Move κ Unit Empty) (horderly : Orderly jobs c m) :
    Kept crates jobs (step crates jobs c m) := by
  cases m with
  | env e => exact nomatch e
  | call k input =>
      have hother : ∀ j, j ≠ k →
          (Race.step crates jobs c (.call k input)).place j = c.place j :=
        fun j hjk => Calls.move_call_place_of_ne input hjk
      have hself : (Race.step crates jobs c (.call k input)).place k =
          (act crates jobs k () c.shared (c.place k)).2 :=
        Calls.move_call_place_self k input
      have hshared : (Race.step crates jobs c (.call k input)).shared =
          (act crates jobs k () c.shared (c.place k)).1 := rfl
      have hacted := acted crates jobs k c.shared (c.place k)
      unfold Orderly at horderly
      dsimp only at horderly
      generalize Race.step crates jobs c (.call k input) = c' at *
      generalize hp : c.place k = p at *
      generalize hact : act crates jobs k () c.shared p = next at *
      obtain ⟨b', p'⟩ := next
      dsimp only at hself hshared hacted
      cases hacted with
      | stays =>
          have hplace : c'.place = c.place := by
            funext j
            by_cases hjk : j = k
            · rw [hjk, hself, hp]
            · exact hother j hjk
          have hsame : c' = c := by
            cases c
            cases c'
            exact congrArg₂ Calls.mk hshared hplace
          rw [hsame]
          exact h
      | quiet _ _ hbefore hafter hkeyed =>
          refine h.quiet hother (by rw [hp]; exact hbefore) (by rw [hself]; exact hafter) hshared ?_
          intro row hrow
          exact absurd (hself.symm.trans hrow) (hkeyed row)
      | seals now uuid nonce sub hjob =>
          rw [hjob] at horderly
          refine h.quiet hother (by rw [hp]; nofun) (by rw [hself]; nofun) hshared ?_
          intro row hrow hsealed
          obtain rfl := Place.keyed.inj (hself.symm.trans hrow)
          -- a sealed row has a secret in it, which was given
          have hsome : sub.secret.isSome = true := by
            rw [← newRow_secret_isSome crates c.shared.store.masterKey now uuid nonce sub]
            exact (Bool.and_eq_true_iff.mp hsealed).1
          exact ⟨horderly hsome, now, uuid, nonce, sub, hjob, hsome, newRow_reads ..⟩
      | inserts now uuid nonce sub row webhooks hjob hinsert =>
          exact h.inserts hother hjob hp hself hinsert hshared
      | commits nonces new old webhooks count hjob hdone =>
          rw [hjob] at horderly
          exact h.commits hother hjob hself hdone horderly.1 horderly.2 hshared
      | swaps nonces new count hjob =>
          exact h.swaps hother hjob hp hself hshared

/-- A store whose sealed secrets open, before any call. -/
theorem Kept.start {c : Calls κ Board Place} (hplace : ∀ k, c.place k = .start)
    (hopens : Opens crates c.shared.store.masterKey c.shared) : Kept crates jobs c := by
  constructor
  · intro _
    exact hopens
  · intro key hkey
    obtain ⟨j, ⟨count, hcommitted⟩, -⟩ := hkey
    rw [hplace] at hcommitted
    cases hcommitted
  · intro k row hkeyed
    rw [hplace] at hkeyed
    cases hkeyed

/-- When no call is under way, no rotation is between its steps. -/
theorem Kept.settled {c : Calls κ Board Place} (h : Kept crates jobs c) : Settled crates c := by
  intro hidle
  refine h.opens ?_
  intro key hkey
  obtain ⟨j, ⟨count, hcommitted⟩, -⟩ := hkey
  have hj := hidle j
  rw [hcommitted] at hj
  cases hj

/-- **Subscriptions added during rotations.** In an orderly run, whenever no call is under way every
sealed secret opens under the installed key to what was given. The calls are any number of additions
and rotations that take their steps in any order, from a table whose secrets open. The condition is
on the order of snapshots, commits and swaps alone. -/
theorem added_secrets_open [DecidableEq κ] (crates : Crates) (jobs : κ → Op)
    (c : Calls κ Board Place) (moves : List (Move κ Unit Empty))
    (hplace : ∀ k, c.place k = .start)
    (hopens : Opens crates c.shared.store.masterKey c.shared)
    (horderly : EveryStep (step crates jobs) (Orderly jobs) c moves) :
    EveryState (step crates jobs) (Settled crates) c moves :=
  everyState_of_everyStep (fun _ h => Kept.settled h) (fun _ m h hm => h.step m hm)
    (Kept.start hplace hopens) horderly

/-- One subscription and one rotation, on an empty store. -/
def sampleJobs : Bool → Op
  | false => .add 100 hookId sampleNonce sampleSub
  | true => .rotate (fun _ => sampleNonce) secondKey

def sampleStart : Calls Bool Board Place where
  shared := ⟨(siteOf Table.empty).store, fun _ => none⟩
  place _ := .start

theorem sampleStart_opens :
    Opens sampleCrates sampleStart.shared.store.masterKey sampleStart.shared :=
  fun _ hrow => absurd hrow List.not_mem_nil

/-- The rotation comes after the subscription. -/
theorem added_secrets_open_apart :
    EveryState (step sampleCrates sampleJobs) (Settled sampleCrates) sampleStart
      [.call false (), .call false (), .call true (), .call true (), .call true ()] := by
  have hnone : ∀ {c : Calls Bool Board Place} {key : MasterKey},
      (∀ j count, c.place j ≠ .committed count) → ¬ Between sampleJobs c key :=
    fun h hkey => by
      obtain ⟨j, ⟨count, hj⟩, -⟩ := hkey
      exact h j count hj
  refine added_secrets_open sampleCrates sampleJobs sampleStart _ (fun _ => rfl)
    sampleStart_opens ⟨?_, ?_, ?_, ?_, ?_, ?_⟩
  · intro _ key
    exact hnone nofun
  · trivial
  · trivial
  · refine ⟨?_, hnone ?_⟩
    · intro j row hkeyed
      cases j
      · cases hkeyed
      · cases hkeyed
    · intro j count
      cases j
      · nofun
      · nofun
  · trivial
  · trivial

/-- Two orders in which the subscription is sealed under the key that the table leaves. -/
theorem added_secrets_lost :
    Opens sampleCrates sampleStart.shared.store.masterKey sampleStart.shared ∧
      ∀ order ∈ [[false, true, true, true, false], [true, true, false, false, true]],
        let c := (order.map fun k => Move.call k ()).foldl (step sampleCrates sampleJobs) sampleStart
        (∀ k, (c.place k).idle = true) ∧ ¬ Settled sampleCrates c := by
  have hruns : ∀ order ∈ [[false, true, true, true, false], [true, true, false, false, true]],
      let c := (order.map fun k => Move.call k ()).foldl (step sampleCrates sampleJobs) sampleStart
      (∀ k, (c.place k).idle = true) ∧ ∃ row ∈ c.shared.store.webhooks.rows,
        row.isSealed = true ∧ rowSecret sampleCrates c.shared.store.masterKey row = none := by
    decide +kernel
  refine ⟨sampleStart_opens, ?_⟩
  intro order horder c
  obtain ⟨hidle, row, hrow, hsealed, hnone⟩ := hruns order horder
  refine ⟨hidle, fun hsettled => ?_⟩
  obtain ⟨secret, -, hread⟩ := hsettled hidle row hrow hsealed
  cases hnone.symm.trans hread

end Race
end Sqlite
end Webhooks
end Artifacts
