import Artifacts.Foundation.Tables
import Artifacts.Ids
import Artifacts.Rust.Integers

/-!
# Repository tokens

`TokenStore` is the table `tokens`, whose rows hold the SHA-256 hash of a token
and what it authorizes; the methods are those of `SqliteTokenStore`.  Database
failures are out of the model, except the one a caller can bring about: an
`INSERT` of a hash that is taken.

`Live` is what a lookup finds, at one moment; the lemmas say of each method which tokens are live
behind it.  Overflow of an expiry is left as it is in the source, and is the subject of `Ledger`.
-/

namespace Artifacts
namespace Tokens

open Foundation Rust

inductive Scope where
  | read
  | write
  deriving DecidableEq, Repr

/-- What the stores take from other crates. -/
structure Library where
  /-- SHA-256 of the UTF-8 bytes, in lowercase hexadecimal. -/
  sha256Hex : String → String
  /-- The characters that `{:?}` prints as they are. -/
  printable : Char → Bool

def Scope.asStr : Scope → String
  | .read => "read"
  | .write => "write"

/-- `Scope::parse`. -/
def Scope.parse (lib : Library) (s : String) : Result Scope :=
  if s = "read" then .ok .read
  else if s = "write" then .ok .write
  else .error (.other ("invalid scope " ++ debugStr lib.printable s))

/-- What a successful lookup tells the caller. -/
structure TokenRecord where
  repoId : RepoId
  scope : Scope
  deriving DecidableEq, Repr

structure TokenRow where
  tokenHash : String
  repoId : String
  scope : String
  createdAt : Int64
  expiresAt : Option Int64
  revokedAt : Option Int64
  subject : Option String
  deriving DecidableEq, Repr

/-- `revoked_at IS NULL AND (expires_at IS NULL OR expires_at > now)`. -/
def TokenRow.active (now : Int64) (row : TokenRow) : Bool :=
  row.revokedAt.isNone &&
    match row.expiresAt with
    | none => true
    | some expiresAt => decide (now < expiresAt)

def TokenRow.revoked (now : Int64) (row : TokenRow) : TokenRow := { row with revokedAt := some now }

theorem TokenRow.revoked_tokenHash (now : Int64) (row : TokenRow) :
    (row.revoked now).tokenHash = row.tokenHash := rfl

/-- The text columns were printed from typed values. -/
structure TokenRow.Written (row : TokenRow) : Prop where
  repo : validRepoId row.repoId = true
  scope : row.scope = Scope.read.asStr ∨ row.scope = Scope.write.asStr

/-- The table `tokens`. -/
structure TokenStore where
  table : Table TokenRow.tokenHash
  written : ∀ row ∈ table, row.Written

namespace TokenStore

def empty : TokenStore where
  table := Table.empty
  written _ h := nomatch h

/-- Store a row, unless its hash is taken. -/
def insert (store : TokenStore) (row : TokenRow) (hrow : row.Written) : Option TokenStore :=
  match h : store.table.insert row with
  | none => none
  | some table => some
      { table := table
        written := by
          intro other hother
          rcases ((Table.insert_eq_some h).2 other).mp hother with hold | rfl
          · exact store.written other hold
          · exact hrow }

/-- `UPDATE tokens SET revoked_at = now WHERE`. -/
def setRevoked (store : TokenStore) (now : Int64) (p : TokenRow → Bool) : TokenStore where
  table := store.table.update p (TokenRow.revoked now) (TokenRow.revoked_tokenHash now)
  written := by
    intro row hrow
    -- the columns that count are copied
    obtain ⟨old, hold, rfl⟩ := (Table.mem_update (TokenRow.revoked_tokenHash now)).mp hrow
    have hwritten := store.written old hold
    split
    · exact ⟨hwritten.repo, hwritten.scope⟩
    · exact hwritten

/-- The expiry of a token minted now: the sum wraps at 64 bits. -/
def expiresAt (now : Int64) (ttl : Option UInt64) : Option Int64 :=
  ttl.map fun secs => (now.toUInt64 + secs).toInt64

/-- The row `mint` inserts. -/
def mintRow (lib : Library) (now : Int64) (token : Token) (repoId : RepoId) (scope : Scope)
    (ttl : Option UInt64) (subject : Option Subject) : TokenRow where
  tokenHash := lib.sha256Hex token.text
  repoId := repoId.text
  scope := scope.asStr
  createdAt := now
  expiresAt := expiresAt now ttl
  revokedAt := none
  subject := subject.map Subject.text

theorem mintRow_written (lib : Library) (now : Int64) (token : Token) (repoId : RepoId)
    (scope : Scope) (ttl : Option UInt64) (subject : Option Subject) :
    (mintRow lib now token repoId scope ttl subject).Written where
  repo := repoId.valid
  scope := by
    cases scope with
    | read => exact Or.inl rfl
    | write => exact Or.inr rfl

/-- `mint`; `token` is what `random_token` drew. Only its hash is stored, and a hash that is there
already is an error. -/
def mint (lib : Library) (store : TokenStore) (now : Int64) (token : Token) (repoId : RepoId)
    (scope : Scope) (ttl : Option UInt64) (subject : Option Subject) :
    TokenStore × Result Token :=
  match store.insert (mintRow lib now token repoId scope ttl subject)
      (mintRow_written lib now token repoId scope ttl subject) with
  | none => (store, .error (.db "UNIQUE constraint failed: tokens.token_hash"))
  | some store' => (store', .ok token)

/-- `lookup`: the row of the token's hash that is neither revoked nor expired now. A row with an
invalid repo counts as absent, one with an unknown scope is an error. -/
def lookup (lib : Library) (store : TokenStore) (now : Int64) (token : Token) :
    Result (Option TokenRecord) :=
  match store.table.select fun row =>
      row.tokenHash == lib.sha256Hex token.text && row.active now with
  | [] => .ok none
  | row :: _ =>
      match RepoId.tryFrom row.repoId with
      -- a malformed row counts as absent
      | .error _ => .ok none
      | .ok repoId =>
          match Scope.parse lib row.scope with
          | .error e => .error e
          | .ok scope => .ok (some ⟨repoId, scope⟩)

/-- `revoke`. The first revocation counts: one that comes later says that there was nothing to
revoke. -/
def revoke (lib : Library) (store : TokenStore) (now : Int64) (token : Token) :
    TokenStore × Result Bool :=
  let hit row := row.tokenHash == lib.sha256Hex token.text && row.revokedAt.isNone
  (store.setRevoked now hit, .ok (!(store.table.select hit).isEmpty))

/-- `revoke_all_for_repo`: the tokens of the repo that are still good now. Those that have expired
stay as they are. -/
def revokeAllForRepo (store : TokenStore) (now : Int64) (repoId : RepoId) :
    TokenStore × Result Nat :=
  let hit row := row.repoId == repoId.text && row.active now
  (store.setRevoked now hit, .ok (store.table.select hit).length)

/-- `count_active`. -/
def countActive (store : TokenStore) (now : Int64) : Result Nat :=
  .ok (store.table.select fun row => row.active now).length

/-- `prune`: revoked rows, and rows that expired a grace period ago. -/
def prune (store : TokenStore) (now : Int64) (expiryGrace : UInt64) : TokenStore × Result Nat :=
  let cutoff := saturatingSub now expiryGrace.toInt64
  let hit row := row.revokedAt.isSome ||
    match row.expiresAt with
    | none => false
    | some expiresAt => decide (expiresAt ≤ cutoff)
  ({ table := store.table.delete hit
     written := fun row hrow => store.written row (Table.mem_delete.mp hrow).1 },
    .ok (store.table.select hit).length)

/-! ### The rows that authorize -/

/-- Some row with this hash authorizes requests on this repo: it is not revoked, and not expired at
`now`. -/
def Live (store : TokenStore) (now : Int64) (hash repoId : String) : Prop :=
  ∃ row ∈ store.table.rows, row.tokenHash = hash ∧ row.repoId = repoId ∧ row.active now = true

instance (store : TokenStore) (now : Int64) (hash repoId : String) :
    Decidable (store.Live now hash repoId) :=
  inferInstanceAs (Decidable (∃ row ∈ store.table.rows, _))

variable {lib : Library} {store : TokenStore} {now : Int64}

theorem parse_asStr (scope : Scope) : Scope.parse lib scope.asStr = .ok scope := by
  cases scope <;> rfl

theorem parse_eq_ok {s : String} {scope : Scope} :
    Scope.parse lib s = .ok scope ↔ s = scope.asStr := by
  constructor
  · intro h
    unfold Scope.parse at h
    split_ifs at h with hread hwrite
    · cases h
      exact hread
    · cases h
      exact hwrite
  · intro h
    rw [h]
    exact parse_asStr scope

/-- **Specification of `lookup`.** A token resolves to what its row says, if the
row is active. -/
theorem lookup_eq_some_iff {token : Token} {record : TokenRecord} :
    store.lookup lib now token = .ok (some record) ↔
      ∃ row ∈ store.table, row.tokenHash = lib.sha256Hex token.text ∧ row.active now = true ∧
        row.repoId = record.repoId.text ∧ row.scope = record.scope.asStr := by
  unfold lookup
  constructor
  · intro h
    split at h
    · cases h
    · rename_i row rest hselect
      have hrow : row ∈ store.table.select _ := hselect ▸ List.mem_cons_self
      obtain ⟨hmem, hhit⟩ := Table.mem_select.mp hrow
      obtain ⟨hhash, hactive⟩ := Bool.and_eq_true_iff.mp hhit
      split at h
      · cases h
      · rename_i repoId hrepo
        split at h
        · cases h
        · rename_i scope hscope
          cases h
          exact ⟨row, hmem, eq_of_beq hhash, hactive, RepoId.tryFrom_eq_ok.mp hrepo,
            parse_eq_ok.mp hscope⟩
  · intro h
    obtain ⟨row, hmem, hhash, hactive, hrepo, hscope⟩ := h
    have hrow : row ∈ store.table.select fun row =>
        row.tokenHash == lib.sha256Hex token.text && row.active now :=
      Table.mem_select.mpr ⟨hmem, Bool.and_eq_true_iff.mpr ⟨beq_iff_eq.mpr hhash, hactive⟩⟩
    split
    · rename_i hselect
      rw [hselect] at hrow
      cases hrow
    · rename_i first rest hselect
      -- the hash is the key, so the first row selected is this one
      have hfirst : first ∈ store.table.select _ := hselect ▸ List.mem_cons_self
      obtain ⟨hmem', hhit⟩ := Table.mem_select.mp hfirst
      obtain ⟨hhash', -⟩ := Bool.and_eq_true_iff.mp hhit
      obtain rfl : first = row := Table.ext_key hmem' hmem ((eq_of_beq hhash').trans hhash.symm)
      rw [hrepo, hscope, RepoId.tryFrom_text, parse_asStr]

/-- The rows are printed from typed values, so no lookup comes upon a malformed
one: a token resolves if and only if a row is live. -/
theorem live_iff_lookup {token : Token} {repoId : String} :
    store.Live now (lib.sha256Hex token.text) repoId ↔
      ∃ record, store.lookup lib now token = .ok (some record) ∧ record.repoId.text = repoId := by
  constructor
  · intro h
    obtain ⟨row, hmem, hhash, hrepo, hactive⟩ := h
    have hwritten := store.written row hmem
    obtain ⟨scope, hscope⟩ : ∃ scope : Scope, row.scope = scope.asStr := by
      rcases hwritten.scope with hread | hwrite
      · exact ⟨.read, hread⟩
      · exact ⟨.write, hwrite⟩
    refine ⟨⟨⟨row.repoId, hwritten.repo⟩, scope⟩, ?_, hrepo⟩
    exact lookup_eq_some_iff.mpr ⟨row, hmem, hhash, hactive, rfl, hscope⟩
  · intro h
    obtain ⟨record, hlookup, hrecord⟩ := h
    obtain ⟨row, hmem, hhash, hactive, hrepo, -⟩ := lookup_eq_some_iff.mp hlookup
    exact ⟨row, hmem, hhash, hrepo.trans hrecord, hactive⟩

/-! ### What the operations do to them -/

theorem mem_insert {store' : TokenStore} {row : TokenRow} {hrow : row.Written}
    (h : store.insert row hrow = some store') (other : TokenRow) :
    other ∈ store'.table ↔ other ∈ store.table ∨ other = row := by
  unfold insert at h
  split at h
  · cases h
  · rename_i table htable
    cases h
    exact (Table.insert_eq_some htable).2 other

/-- `mint` adds its row, or nothing. -/
theorem mint_cases (lib : Library) (store : TokenStore) (now : Int64) (token : Token)
    (repoId : RepoId) (scope : Scope) (ttl : Option UInt64) (subject : Option Subject) :
    ((∃ cause, (store.mint lib now token repoId scope ttl subject).2 = .error (.db cause)) ∧
        (store.mint lib now token repoId scope ttl subject).1 = store) ∨
      ((store.mint lib now token repoId scope ttl subject).2 = .ok token ∧
        ∀ row, row ∈ (store.mint lib now token repoId scope ttl subject).1.table ↔
          row ∈ store.table ∨ row = mintRow lib now token repoId scope ttl subject) := by
  unfold mint
  split
  · exact Or.inl ⟨⟨_, rfl⟩, rfl⟩
  · rename_i store' hinsert
    exact Or.inr ⟨rfl, mem_insert hinsert⟩

theorem Live.mint {hash repoId' : String} (token : Token) (repoId : RepoId) (scope : Scope)
    (ttl : Option UInt64) (subject : Option Subject) (h : store.Live now hash repoId') :
    (store.mint lib now token repoId scope ttl subject).1.Live now hash repoId' := by
  obtain ⟨row, hrow, hrest⟩ := h
  rcases mint_cases lib store now token repoId scope ttl subject with ⟨-, hsame⟩ | ⟨-, hmem⟩
  · rw [hsame]
    exact ⟨row, hrow, hrest⟩
  · exact ⟨row, (hmem row).mpr (Or.inl hrow), hrest⟩

theorem Live.of_mint {hash repoId' : String} {token : Token} {repoId : RepoId} {scope : Scope}
    {ttl : Option UInt64} {subject : Option Subject}
    (h : (store.mint lib now token repoId scope ttl subject).1.Live now hash repoId')
    (hother : hash ≠ lib.sha256Hex token.text) : store.Live now hash repoId' := by
  obtain ⟨row, hrow, hhash, hrest⟩ := h
  rcases mint_cases lib store now token repoId scope ttl subject with ⟨-, hsame⟩ | ⟨-, hmem⟩
  · rw [hsame] at hrow
    exact ⟨row, hrow, hhash, hrest⟩
  · rcases (hmem row).mp hrow with hold | rfl
    · exact ⟨row, hold, hhash, hrest⟩
    · exact absurd hhash.symm hother

theorem mem_setRevoked {p : TokenRow → Bool} {row : TokenRow} :
    row ∈ (store.setRevoked now p).table ↔
      ∃ old ∈ store.table, (if p old then old.revoked now else old) = row :=
  Table.mem_update (TokenRow.revoked_tokenHash now)

theorem Live.of_setRevoked {hash repoId : String} {at' : Int64} {p : TokenRow → Bool}
    (h : (store.setRevoked at' p).Live now hash repoId) : store.Live now hash repoId := by
  obtain ⟨row, hrow, hhash, hrepo, hactive⟩ := h
  obtain ⟨old, hold, hupdated⟩ := mem_setRevoked.mp hrow
  split at hupdated
  · -- a revoked row is not active
    subst hupdated
    cases hactive
  · subst hupdated
    exact ⟨old, hold, hhash, hrepo, hactive⟩

theorem Live.of_prune {hash repoId : String} {at' : Int64} {grace : UInt64}
    (h : (store.prune at' grace).1.Live now hash repoId) : store.Live now hash repoId := by
  obtain ⟨row, hrow, hrest⟩ := h
  exact ⟨row, (Table.mem_delete.mp hrow).1, hrest⟩

/-- What is live later was live before. -/
theorem Live.of_le {now' : Int64} {hash repoId : String} (hle : now ≤ now')
    (h : store.Live now' hash repoId) : store.Live now hash repoId := by
  obtain ⟨row, hrow, hhash, hrepo, hactive⟩ := h
  refine ⟨row, hrow, hhash, hrepo, ?_⟩
  unfold TokenRow.active at hactive ⊢
  obtain ⟨hrevoked, hexpiry⟩ := Bool.and_eq_true_iff.mp hactive
  rw [hrevoked, Bool.true_and]
  cases hexpires : row.expiresAt with
  | none => rfl
  | some expiresAt =>
      rw [hexpires] at hexpiry
      dsimp only at hexpiry ⊢
      rw [decide_eq_true_eq] at hexpiry ⊢
      exact Int64.lt_of_le_of_lt hle hexpiry

end TokenStore
end Tokens
end Artifacts
