import Artifacts.Foundation.Runs
import Artifacts.Tokens

/-!
# The token table against an exact ledger

`Grant` and the operations on lists of grants say what the table is for: every
token ever minted is written down with the moment it was minted and its lifetime,
as numbers that cannot overflow, a revocation marks it, and nothing is ever
struck out.  A run carries the table and the ledger side by side.

`Tracks` is the relation between the two.  It survives every operation but two: a
mint whose expiry leaves the range of the column, and a prune whose grace period
turns negative in the cast and then reaches into the future.

`Fits` is the condition on a call, in the numbers of the call and of the table before it.
Nothing is asked of the hash but that it tells the tokens apart that are ever presented.
-/

namespace Artifacts
namespace Tokens

open Foundation Rust

/-- The operations that change the table. -/
inductive Op where
  | mint (token : Token) (repoId : RepoId) (scope : Scope) (ttl : Option UInt64)
      (subject : Option Subject)
  | revoke (token : Token)
  | revokeAllForRepo (repoId : RepoId)
  | prune (expiryGrace : UInt64)
  deriving DecidableEq

/-- An operation, and the clock it reads. -/
structure Call where
  systemTime : Int64
  op : Op

def Call.now (c : Call) : Int64 := nowSecs c.systemTime

/-- The table after an operation. -/
def TokenStore.after (lib : Library) (store : TokenStore) (now : Int64) : Op → TokenStore
  | .mint token repoId scope ttl subject =>
      (store.mint lib now token repoId scope ttl subject).1
  | .revoke token => (store.revoke lib now token).1
  | .revokeAllForRepo repoId => (store.revokeAllForRepo now repoId).1
  | .prune expiryGrace => (store.prune now expiryGrace).1

/-! ### The ledger -/

/-- One token and what became of it: a line of the ledger. The expiry is a number without bound
here; whether it fits its column is another question. -/
structure Grant where
  token : Token
  record : TokenRecord
  mintedAt : Int
  ttl : Option Nat
  revoked : Bool

/-- A token authorizes until it is revoked or its lifetime is over. -/
def Grant.accepted (g : Grant) (u : Int) : Bool :=
  !g.revoked &&
    match g.ttl with
    | none => true
    | some d => decide (u < g.mintedAt + d)

def Grant.revoke (g : Grant) : Grant := { g with revoked := true }

@[simp] theorem Grant.revoke_token (g : Grant) : g.revoke.token = g.token := rfl

@[simp] theorem Grant.revoke_accepted (g : Grant) (u : Int) : g.revoke.accepted u = false := rfl

theorem Grant.accepted_iff {g : Grant} {u : Int} :
    g.accepted u = true ↔ g.revoked = false ∧ ∀ d ∈ g.ttl, u < g.mintedAt + d := by
  unfold Grant.accepted
  cases hrevoked : g.revoked <;> cases httl : g.ttl <;> simp

theorem Grant.accepted_of_le {g : Grant} {u u' : Int} (hle : u ≤ u') (h : g.accepted u' = true) :
    g.accepted u = true := by
  rw [Grant.accepted_iff] at h ⊢
  obtain ⟨hrevoked, hlives⟩ := h
  exact ⟨hrevoked, fun d hd => Int.lt_of_le_of_lt hle (hlives d hd)⟩

/-- A grant with its mark set, if the condition selects it. -/
def Grant.markIf (p : Grant → Bool) (g : Grant) : Grant := if p g then g.revoke else g

@[simp] theorem Grant.markIf_token (p : Grant → Bool) (g : Grant) :
    (g.markIf p).token = g.token := by
  unfold Grant.markIf
  split <;> rfl

/-- What an operation means. -/
def ledgerAfter (ledger : List Grant) (now : Int) : Op → List Grant
  | .mint token repoId scope ttl _ =>
      ledger ++ [⟨token, ⟨repoId, scope⟩, now, ttl.map UInt64.toNat, false⟩]
  | .revoke token => ledger.map (Grant.markIf fun g => g.token == token)
  | .revokeAllForRepo repoId =>
      ledger.map (Grant.markIf fun g => g.record.repoId == repoId && g.accepted now)
  | .prune _ => ledger

/-! ### Runs -/

/-- The table, the ledger beside it, and the latest reading of the clock. -/
structure Books where
  store : TokenStore
  ledger : List Grant
  now : Int64

def Books.start : Books where
  store := .empty
  ledger := []
  now := 0

def Books.step (lib : Library) (b : Books) (c : Call) : Books where
  store := b.store.after lib c.now c.op
  ledger := ledgerAfter b.ledger c.now.toInt c.op
  now := c.now

/-- The tokens that an operation is about. -/
def Op.tokens : Op → List Token
  | .mint token _ _ _ _ => [token]
  | .revoke token => [token]
  | .revokeAllForRepo _ => []
  | .prune _ => []

/-- The clock does not step back, and the generator draws a new token. -/
def Proper (presented : List Token) (b : Books) (c : Call) : Prop :=
  b.now ≤ c.now ∧ (∀ token ∈ c.op.tokens, token ∈ presented) ∧
    match c.op with
    | .mint token _ _ _ _ => ∀ g ∈ b.ledger, g.token ≠ token
    | _ => True

/-- Does a lookup find the token, with a record that the condition selects? -/
def TokenStore.finds (lib : Library) (store : TokenStore) (now : Int64) (p : TokenRecord → Bool)
    (token : Token) : Bool :=
  match store.lookup lib now token with
  | .ok (some record) => p record
  | _ => false

/-- The table holds the token, revoked. -/
def TokenStore.Revoked (lib : Library) (store : TokenStore) (token : Token) : Prop :=
  ∃ row ∈ store.table, row.tokenHash = lib.sha256Hex token.text ∧ row.revokedAt ≠ none

/-- From now on the table answers as the ledger does: a lookup at any later clock, and the count of
the tokens that are still good. -/
structure Books.Exact (lib : Library) (presented : List Token) (b : Books) : Prop where
  lookup : ∀ u, b.now ≤ u → ∀ token ∈ presented, ∀ record,
    b.store.lookup lib u token = .ok (some record) ↔
      ∃ g ∈ b.ledger, g.token = token ∧ g.record = record ∧ g.accepted u.toInt = true
  countActive : ∀ u, b.now ≤ u → b.store.countActive u =
    .ok ((b.ledger.map Grant.token).filter (b.store.finds lib u fun _ => true)).length

/-- What an operation says it did, and what it leaves alone. -/
def Truthful (lib : Library) (presented : List Token) (b : Books) (c : Call) : Prop :=
  match c.op with
  | .mint _ _ _ _ _ => True
  | .revoke _ => True
  | .revokeAllForRepo repoId =>
      (b.store.revokeAllForRepo c.now repoId).2 =
          .ok ((b.ledger.map Grant.token).filter
            (b.store.finds lib c.now fun record => record.repoId == repoId)).length ∧
        ∀ token ∈ presented,
          ((b.store.revokeAllForRepo c.now repoId).1.Revoked lib token ↔
            b.store.Revoked lib token ∨
              ∃ scope, b.store.lookup lib c.now token = .ok (some ⟨repoId, scope⟩))
  | .prune expiryGrace =>
      ∀ u, c.now ≤ u → ∀ token,
        (b.store.prune c.now expiryGrace).1.lookup lib u token = b.store.lookup lib u token

/-- The expiry fits its column, and the cutoff of a prune, which a grace period from `2 ^ 63` on
moves past the clock, reaches no token that still authorizes. Lookups, revocations and counts are
always fine. -/
def Fits (b : Books) (c : Call) : Prop :=
  match c.op with
  | .mint _ _ _ none _ => True
  | .mint _ _ _ (some ttl) _ => c.now.toInt + ttl.toNat < 2 ^ 63
  | .revoke _ => True
  | .revokeAllForRepo _ => True
  | .prune expiryGrace =>
      expiryGrace.toNat < 2 ^ 63 ∨
        ∀ g ∈ b.ledger, g.accepted c.now.toInt = true → ∀ d ∈ g.ttl,
          c.now.toInt + (2 ^ 64 - expiryGrace.toNat) < g.mintedAt + d

/-! ### Rows and grants -/

/-- The row records the grant: the hash of its token, what it is for, when it ends, and whether it
was revoked. -/
structure Holds (lib : Library) (g : Grant) (row : TokenRow) : Prop where
  tokenHash : row.tokenHash = lib.sha256Hex g.token.text
  repoId : row.repoId = g.record.repoId.text
  scope : row.scope = g.record.scope.asStr
  expiresAt : row.expiresAt.map Int64.toInt = g.ttl.map fun d : Nat => g.mintedAt + (d : Int)
  revokedAt : row.revokedAt.isSome = g.revoked

variable {lib : Library} {presented : List Token} {b : Books}

theorem Holds.active {g : Grant} {row : TokenRow} (h : Holds lib g row) (u : Int64) :
    row.active u = g.accepted u.toInt := by
  unfold TokenRow.active Grant.accepted
  rw [← h.revokedAt, Option.not_isSome]
  congr 1
  have hexpires := h.expiresAt
  cases hrow : row.expiresAt with
  | none =>
      rw [hrow] at hexpires
      cases hg : g.ttl with
      | none => rfl
      | some d =>
          rw [hg] at hexpires
          cases hexpires
  | some e =>
      rw [hrow] at hexpires
      cases hg : g.ttl with
      | none =>
          rw [hg] at hexpires
          cases hexpires
      | some d =>
          rw [hg] at hexpires
          have he : e.toInt = g.mintedAt + d := Option.some.inj hexpires
          simp only [Int64.lt_iff_toInt_lt, he]

/-- The table has no row but those of the ledger, and one for each token that still
authorizes. -/
structure Tracks (lib : Library) (presented : List Token) (b : Books) : Prop where
  clock : 0 ≤ b.now.toInt
  distinct : (b.ledger.map Grant.token).Nodup
  presented : ∀ g ∈ b.ledger, g.token ∈ presented
  minted : ∀ row ∈ b.store.table, ∃ g ∈ b.ledger, Holds lib g row
  kept : ∀ g ∈ b.ledger, g.accepted b.now.toInt = true → ∃ row ∈ b.store.table, Holds lib g row

theorem tracks_start : Tracks lib presented .start where
  clock := by decide
  distinct := List.nodup_nil
  presented _ h := nomatch h
  minted _ h := nomatch h
  kept _ h := nomatch h

/-- No two tokens of a run share a hash. It is asked of the tokens that are drawn or presented, and
not of all texts. -/
def HashesApart (lib : Library) (presented : List Token) : Prop :=
  ∀ t ∈ presented, ∀ t' ∈ presented, lib.sha256Hex t.text = lib.sha256Hex t'.text → t = t'

theorem Scope.asStr_inj {scope scope' : Scope} (h : scope.asStr = scope'.asStr) :
    scope = scope' := by
  cases scope <;> cases scope' <;> first | rfl | exact absurd h (by decide)

theorem Tracks.grant_of_row (h : Tracks lib presented b) (hhash : HashesApart lib presented)
    {row : TokenRow} {token : Token} (hrow : row ∈ b.store.table) (htoken : token ∈ presented)
    (heq : row.tokenHash = lib.sha256Hex token.text) :
    ∃ g ∈ b.ledger, Holds lib g row ∧ g.token = token := by
  obtain ⟨g, hg, hholds⟩ := h.minted row hrow
  exact ⟨g, hg, hholds,
    hhash g.token (h.presented g hg) token htoken (hholds.tokenHash.symm.trans heq)⟩

/-! ### The table answers as the ledger -/

theorem Tracks.lookup_iff (h : Tracks lib presented b) (hhash : HashesApart lib presented)
    {u : Int64} (hu : b.now ≤ u) {token : Token} (htoken : token ∈ presented)
    (record : TokenRecord) :
    b.store.lookup lib u token = .ok (some record) ↔
      ∃ g ∈ b.ledger, g.token = token ∧ g.record = record ∧ g.accepted u.toInt = true := by
  rw [TokenStore.lookup_eq_some_iff]
  constructor
  · rintro ⟨row, hrow, heq, hactive, hrepo, hscope⟩
    obtain ⟨g, hg, hholds, rfl⟩ := h.grant_of_row hhash hrow htoken heq
    have hrepo' : g.record.repoId = record.repoId :=
      RepoId.ext (hholds.repoId.symm.trans hrepo)
    have hscope' : g.record.scope = record.scope :=
      Scope.asStr_inj (hholds.scope.symm.trans hscope)
    refine ⟨g, hg, rfl, ?_, (hholds.active u).symm.trans hactive⟩
    cases hrecord : g.record
    rw [hrecord] at hrepo' hscope'
    exact congrArg₂ TokenRecord.mk hrepo' hscope'
  · rintro ⟨g, hg, rfl, rfl, haccepted⟩
    have hnow : g.accepted b.now.toInt = true :=
      Grant.accepted_of_le (Int64.le_iff_toInt_le.mp hu) haccepted
    obtain ⟨row, hrow, hholds⟩ := h.kept g hg hnow
    exact ⟨row, hrow, hholds.tokenHash, (hholds.active u).trans haccepted, hholds.repoId,
      hholds.scope⟩

theorem TokenStore.finds_iff {store : TokenStore} {u : Int64} {p : TokenRecord → Bool}
    {token : Token} :
    store.finds lib u p token = true ↔
      ∃ record, store.lookup lib u token = .ok (some record) ∧ p record = true := by
  unfold TokenStore.finds
  constructor
  · intro h
    split at h
    · rename_i record hlookup
      exact ⟨record, hlookup, h⟩
    · cases h
  · rintro ⟨record, hlookup, hp⟩
    rw [hlookup]
    exact hp

/-- Rows counted by what they authorize are the minted tokens that a lookup finds. -/
theorem Tracks.length_finds (h : Tracks lib presented b) (hhash : HashesApart lib presented)
    {u : Int64} {p : TokenRow → Bool} {q : TokenRecord → Bool}
    (hp : ∀ row ∈ b.store.table, ∀ repoId : RepoId, ∀ scope, row.repoId = repoId.text →
      p row = (q ⟨repoId, scope⟩ && row.active u)) :
    (b.store.table.select p).length =
      ((b.ledger.map Grant.token).filter (b.store.finds lib u q)).length := by
  have hpresented : ∀ token ∈ (b.ledger.map Grant.token).filter (b.store.finds lib u q),
      token ∈ presented := by
    intro token htoken
    obtain ⟨g, hg, rfl⟩ := List.mem_map.mp (List.mem_filter.mp htoken).1
    exact h.presented g hg
  apply Table.length_select (f := fun token : Token => lib.sha256Hex token.text)
  · -- distinct tokens have distinct hashes
    apply List.Nodup.map_on
    · intro t ht t' ht'
      exact hhash t (hpresented t ht) t' (hpresented t' ht')
    · exact h.distinct.filter _
  · intro hash
    constructor
    · rintro ⟨row, hrow, hhit, rfl⟩
      obtain ⟨g, hg, hholds⟩ := h.minted row hrow
      rw [hp row hrow g.record.repoId g.record.scope hholds.repoId, Bool.and_eq_true] at hhit
      have hlookup : b.store.lookup lib u g.token = .ok (some g.record) :=
        TokenStore.lookup_eq_some_iff.mpr
          ⟨row, hrow, hholds.tokenHash, hhit.2, hholds.repoId, hholds.scope⟩
      exact ⟨g.token, List.mem_filter.mpr ⟨List.mem_map_of_mem hg,
        TokenStore.finds_iff.mpr ⟨g.record, hlookup, hhit.1⟩⟩, hholds.tokenHash.symm⟩
    · rintro ⟨token, htoken, rfl⟩
      obtain ⟨record, hlookup, hq⟩ := TokenStore.finds_iff.mp (List.mem_filter.mp htoken).2
      obtain ⟨row, hrow, heq, hactive, hrepo, -⟩ := TokenStore.lookup_eq_some_iff.mp hlookup
      refine ⟨row, hrow, ?_, heq⟩
      rw [hp row hrow record.repoId record.scope hrepo, hq, hactive]
      rfl

theorem Tracks.exact (h : Tracks lib presented b) (hhash : HashesApart lib presented) :
    b.Exact lib presented where
  lookup u hu token htoken record := h.lookup_iff hhash hu htoken record
  countActive u _ := by
    unfold TokenStore.countActive
    rw [h.length_finds hhash (q := fun _ => true)]
    intro row _ _ _ _
    rfl

/-! ### The operations keep the relation -/

theorem expiresAt_toInt {now : Int64} (hnow : 0 ≤ now.toInt) (secs : UInt64) :
    (now.toUInt64 + secs).toInt64.toInt =
      if now.toInt + secs.toNat < 2 ^ 63 then now.toInt + secs.toNat
      else now.toInt + secs.toNat - 2 ^ 64 := by
  have hlt := now.toInt_lt
  have hsecs := secs.toNat_lt
  have hcast : (now.toUInt64.toNat : Int) = now.toInt := by
    have h : now.toUInt64.toNat = now.toBitVec.toNat := rfl
    have h' : now.toInt = now.toBitVec.toInt := rfl
    rw [h', BitVec.toInt_eq_toNat_cond] at hnow ⊢
    rw [h]
    split_ifs at hnow ⊢
    · rfl
    · have := now.toBitVec.isLt
      omega
  rw [toInt_toInt64, UInt64.toNat_add]
  split_ifs <;> omega

/-- The row that a mint writes records its grant, unless the expiry leaves the
column. -/
theorem holds_mintRow {now : Int64} (hnow : 0 ≤ now.toInt) (token : Token) (repoId : RepoId)
    (scope : Scope) (ttl : Option UInt64) (subject : Option Subject)
    (hfits : ∀ secs ∈ ttl, now.toInt + secs.toNat < 2 ^ 63) :
    Holds lib ⟨token, ⟨repoId, scope⟩, now.toInt, ttl.map UInt64.toNat, false⟩
      (TokenStore.mintRow lib now token repoId scope ttl subject) where
  tokenHash := rfl
  repoId := rfl
  scope := rfl
  revokedAt := rfl
  expiresAt := by
    show (TokenStore.expiresAt now ttl).map Int64.toInt = _
    cases ttl with
    | none => rfl
    | some secs =>
        show some (now.toUInt64 + secs).toInt64.toInt = some (now.toInt + (secs.toNat : Int))
        rw [expiresAt_toInt hnow, if_pos (hfits secs rfl)]

/-- With a new token the insert cannot fail. -/
theorem Tracks.mint_mem (h : Tracks lib presented b) (hhash : HashesApart lib presented)
    {now : Int64} {token : Token} (htoken : token ∈ presented) (hnew : ∀ g ∈ b.ledger, g.token ≠ token)
    (repoId : RepoId) (scope : Scope) (ttl : Option UInt64) (subject : Option Subject)
    (row : TokenRow) :
    row ∈ (b.store.mint lib now token repoId scope ttl subject).1.table ↔
      row ∈ b.store.table ∨ row = TokenStore.mintRow lib now token repoId scope ttl subject := by
  have hfree : b.store.table.has (lib.sha256Hex token.text) = false := by
    rw [Bool.eq_false_iff]
    intro htaken
    obtain ⟨old, hold, heq⟩ := Table.has_iff.mp htaken
    obtain ⟨g, hg, -, hsame⟩ := h.grant_of_row hhash hold htoken heq
    exact hnew g hg hsame
  have hinsert : b.store.table.insert (TokenStore.mintRow lib now token repoId scope ttl subject) =
      some (b.store.table.append _ hfree) := dif_pos hfree
  unfold TokenStore.mint
  split
  · rename_i hnone
    unfold TokenStore.insert at hnone
    split at hnone
    · rename_i hfail
      cases hinsert.symm.trans hfail
    · cases hnone
  · rename_i store' hsome
    exact TokenStore.mem_insert hsome row

theorem Tracks.mint (h : Tracks lib presented b) (hhash : HashesApart lib presented)
    {now : Int64} (hnow : b.now ≤ now) {token : Token} (htoken : token ∈ presented)
    (hnew : ∀ g ∈ b.ledger, g.token ≠ token) (repoId : RepoId) (scope : Scope)
    {ttl : Option UInt64} (subject : Option Subject)
    (hfits : ∀ secs ∈ ttl, now.toInt + secs.toNat < 2 ^ 63) :
    Tracks lib presented
      { store := (b.store.mint lib now token repoId scope ttl subject).1
        ledger := ledgerAfter b.ledger now.toInt (.mint token repoId scope ttl subject)
        now := now } := by
  have hle : b.now.toInt ≤ now.toInt := Int64.le_iff_toInt_le.mp hnow
  have hclock : 0 ≤ now.toInt := Int.le_trans h.clock hle
  have hmem : ∀ row, row ∈ (b.store.mint lib now token repoId scope ttl subject).1.table ↔ _ :=
    h.mint_mem hhash htoken hnew repoId scope ttl subject
  have hholds : Holds lib _ _ := holds_mintRow hclock token repoId scope ttl subject hfits
  constructor
  · exact hclock
  · show ((b.ledger ++ [_]).map Grant.token).Nodup
    rw [List.map_append, List.nodup_append]
    refine ⟨h.distinct, List.nodup_singleton _, ?_⟩
    rintro old hold new hnew' rfl
    obtain ⟨g, hg, htok⟩ := List.mem_map.mp hold
    exact hnew g hg (htok.trans (List.mem_singleton.mp hnew'))
  · intro g hg
    rcases List.mem_append.mp hg with hold | hlast
    · exact h.presented g hold
    · obtain rfl := List.mem_singleton.mp hlast
      exact htoken
  · intro row hrow
    rcases (hmem row).mp hrow with hold | rfl
    · obtain ⟨g, hg, hg'⟩ := h.minted row hold
      exact ⟨g, List.mem_append_left _ hg, hg'⟩
    · exact ⟨_, List.mem_append_right _ (List.mem_singleton.mpr rfl), hholds⟩
  · intro g hg haccepted
    rcases List.mem_append.mp hg with hold | hlast
    · obtain ⟨row, hrow, hg'⟩ := h.kept g hold (Grant.accepted_of_le hle haccepted)
      exact ⟨row, (hmem row).mpr (Or.inl hrow), hg'⟩
    · obtain rfl := List.mem_singleton.mp hlast
      exact ⟨_, (hmem _).mpr (Or.inr rfl), hholds⟩

/-- Marking a row and marking its grant is one thing, also where the grant is marked
already and the row is left as it is. -/
theorem Holds.mark {g : Grant} {row : TokenRow} {now : Int64} {p : TokenRow → Bool}
    {q : Grant → Bool} (h : Holds lib g row) (hp : p row = (q g && !g.revoked)) :
    Holds lib (g.markIf q) (if p row then row.revoked now else row) := by
  rw [hp]
  unfold Grant.markIf
  cases hq : q g with
  | false => exact h
  | true =>
      cases hrevoked : g.revoked with
      | false => exact ⟨h.tokenHash, h.repoId, h.scope, h.expiresAt, rfl⟩
      | true =>
          exact ⟨h.tokenHash, h.repoId, h.scope, h.expiresAt, h.revokedAt.trans hrevoked⟩

theorem Tracks.setRevoked (h : Tracks lib presented b) {now : Int64} (hnow : b.now ≤ now)
    {p : TokenRow → Bool} {q : Grant → Bool}
    (hpq : ∀ g ∈ b.ledger, ∀ row, Holds lib g row → p row = (q g && !g.revoked)) :
    Tracks lib presented
      { store := b.store.setRevoked now p
        ledger := b.ledger.map (Grant.markIf q)
        now := now } := by
  have hle : b.now.toInt ≤ now.toInt := Int64.le_iff_toInt_le.mp hnow
  constructor
  · exact Int.le_trans h.clock hle
  · show ((b.ledger.map (Grant.markIf q)).map Grant.token).Nodup
    rw [List.map_map]
    have hsame : Grant.token ∘ Grant.markIf q = Grant.token := by
      ext1 g
      simp
    rw [hsame]
    exact h.distinct
  · intro g' hg'
    obtain ⟨g, hg, rfl⟩ := List.mem_map.mp hg'
    rw [Grant.markIf_token]
    exact h.presented g hg
  · intro row hrow
    obtain ⟨old, hold, rfl⟩ := TokenStore.mem_setRevoked.mp hrow
    obtain ⟨g, hg, hholds⟩ := h.minted old hold
    exact ⟨g.markIf q, List.mem_map_of_mem hg, hholds.mark (hpq g hg old hholds)⟩
  · intro g' hg' haccepted
    obtain ⟨g, hg, rfl⟩ := List.mem_map.mp hg'
    -- a marked grant is accepted no more
    have hunmarked : g.accepted now.toInt = true := by
      unfold Grant.markIf at haccepted
      split at haccepted
      · cases haccepted
      · exact haccepted
    obtain ⟨row, hrow, hholds⟩ := h.kept g hg (Grant.accepted_of_le hle hunmarked)
    exact ⟨_, TokenStore.mem_setRevoked.mpr ⟨row, hrow, rfl⟩, hholds.mark (hpq g hg row hholds)⟩

theorem Tracks.revoke (h : Tracks lib presented b) (hhash : HashesApart lib presented)
    {now : Int64} (hnow : b.now ≤ now) {token : Token} (htoken : token ∈ presented) :
    Tracks lib presented
      { store := (b.store.revoke lib now token).1
        ledger := ledgerAfter b.ledger now.toInt (.revoke token)
        now := now } := by
  apply h.setRevoked hnow
  intro g hg row hholds
  have hsame : (row.tokenHash == lib.sha256Hex token.text) = (g.token == token) := by
    rw [hholds.tokenHash, Bool.eq_iff_iff, beq_iff_eq, beq_iff_eq]
    constructor
    · exact hhash g.token (h.presented g hg) token htoken
    · exact fun heq => congrArg (fun t : Token => lib.sha256Hex t.text) heq
  show (row.tokenHash == lib.sha256Hex token.text && row.revokedAt.isNone) = _
  rw [hsame, ← hholds.revokedAt, Option.not_isSome]

theorem Tracks.revokeAllForRepo (h : Tracks lib presented b) {now : Int64} (hnow : b.now ≤ now)
    (repoId : RepoId) :
    Tracks lib presented
      { store := (b.store.revokeAllForRepo now repoId).1
        ledger := ledgerAfter b.ledger now.toInt (.revokeAllForRepo repoId)
        now := now } := by
  apply h.setRevoked hnow
  intro g _ row hholds
  have hsame : (row.repoId == repoId.text) = (g.record.repoId == repoId) := by
    rw [hholds.repoId, Bool.eq_iff_iff, beq_iff_eq, beq_iff_eq, RepoId.ext_iff]
  show (row.repoId == repoId.text && row.active now) = _
  rw [hsame, hholds.active now]
  unfold Grant.accepted
  cases g.revoked <;> simp

/-- The rows that outlive a prune. -/
theorem TokenStore.mem_prune {store : TokenStore} {now : Int64} {grace : UInt64} {row : TokenRow} :
    row ∈ (store.prune now grace).1.table ↔
      row ∈ store.table ∧ row.revokedAt = none ∧
        ∀ e ∈ row.expiresAt, ¬ e ≤ saturatingSub now grace.toInt64 := by
  unfold TokenStore.prune
  rw [Table.mem_delete]
  apply and_congr_right
  intro _
  cases row.revokedAt <;> cases row.expiresAt <;> simp

/-- A row that still authorizes is pruned if and only if its expiry lies before a cutoff
in the future. -/
theorem Tracks.prune_keeps_iff (h : Tracks lib presented b) {now : Int64} (hnow : b.now ≤ now)
    (grace : UInt64) {g : Grant} {row : TokenRow} (hrow : row ∈ b.store.table)
    (hholds : Holds lib g row) (haccepted : g.accepted now.toInt = true) :
    row ∈ (b.store.prune now grace).1.table ↔
      (grace.toNat < 2 ^ 63 ∨
        ∀ d ∈ g.ttl, now.toInt + (2 ^ 64 - grace.toNat) < g.mintedAt + d) := by
  have hclock : 0 ≤ now.toInt := Int.le_trans h.clock (Int64.le_iff_toInt_le.mp hnow)
  obtain ⟨hrevoked, hlives⟩ := Grant.accepted_iff.mp haccepted
  have hunrevoked : row.revokedAt = none := by
    rw [← Option.not_isSome_iff_eq_none, hholds.revokedAt, hrevoked]
    exact Bool.false_ne_true
  rw [TokenStore.mem_prune, and_iff_right hrow, and_iff_right hunrevoked]
  have hexpires := hholds.expiresAt
  cases httl : g.ttl with
  | none =>
      rw [httl, Option.map_none, Option.map_eq_none_iff] at hexpires
      simp [hexpires]
  | some d =>
      rw [httl, Option.map_some, Option.map_eq_some_iff] at hexpires
      obtain ⟨e, he, hvalue⟩ := hexpires
      have hlive : now.toInt < g.mintedAt + d := hlives d httl
      have hcut := le_saturatingSub_iff hclock e grace
      have hgrace := grace.toNat_lt
      simp only [he, Option.mem_def, Option.some.injEq, forall_eq', hcut, hvalue]
      split_ifs with hsmall
      · simp only [hsmall, true_or, iff_true]
        omega
      · simp only [hsmall, false_or]
        omega

theorem Tracks.prune (h : Tracks lib presented b) {now : Int64} (hnow : b.now ≤ now)
    {grace : UInt64}
    (hfits : grace.toNat < 2 ^ 63 ∨ ∀ g ∈ b.ledger, g.accepted now.toInt = true → ∀ d ∈ g.ttl,
      now.toInt + (2 ^ 64 - grace.toNat) < g.mintedAt + d) :
    Tracks lib presented
      { store := (b.store.prune now grace).1
        ledger := b.ledger
        now := now } := by
  have hle : b.now.toInt ≤ now.toInt := Int64.le_iff_toInt_le.mp hnow
  constructor
  · exact Int.le_trans h.clock hle
  · exact h.distinct
  · exact h.presented
  · intro row hrow
    exact h.minted row (TokenStore.mem_prune.mp hrow).1
  · intro g hg haccepted
    obtain ⟨row, hrow, hholds⟩ := h.kept g hg (Grant.accepted_of_le hle haccepted)
    have hkept := (h.prune_keeps_iff hnow grace hrow hholds haccepted).mpr
      (hfits.imp_right fun hall => hall g hg haccepted)
    exact ⟨row, hkept, hholds⟩

/-! ### What the operations report -/

theorem TokenStore.lookup_ok (lib : Library) (store : TokenStore) (u : Int64) (token : Token) :
    ∃ found, store.lookup lib u token = .ok found := by
  unfold TokenStore.lookup
  split
  · exact ⟨none, rfl⟩
  · rename_i row rest hselect
    have hrow : row ∈ store.table.select _ := hselect ▸ List.mem_cons_self
    have hscope := (store.written row (Table.mem_select.mp hrow).1).scope
    split
    · exact ⟨none, rfl⟩
    · rcases hscope with hread | hwrite
      · rw [hread, parse_asStr]
        exact ⟨_, rfl⟩
      · rw [hwrite, parse_asStr]
        exact ⟨_, rfl⟩

theorem TokenStore.lookup_congr {store store' : TokenStore} {u : Int64} {token : Token}
    (h : ∀ record, store.lookup lib u token = .ok (some record) ↔
      store'.lookup lib u token = .ok (some record)) :
    store.lookup lib u token = store'.lookup lib u token := by
  obtain ⟨found, hfound⟩ := store.lookup_ok lib u token
  obtain ⟨found', hfound'⟩ := store'.lookup_ok lib u token
  rw [hfound, hfound'] at h ⊢
  have hsame : found = found' := by
    ext record
    have hrecord := h record
    simpa using hrecord
  rw [hsame]

theorem Tracks.prune_lookup (h : Tracks lib presented b) {now : Int64} (hnow : b.now ≤ now)
    {grace : UInt64}
    (hfits : grace.toNat < 2 ^ 63 ∨ ∀ g ∈ b.ledger, g.accepted now.toInt = true → ∀ d ∈ g.ttl,
      now.toInt + (2 ^ 64 - grace.toNat) < g.mintedAt + d)
    {u : Int64} (hu : now ≤ u) (token : Token) :
    (b.store.prune now grace).1.lookup lib u token = b.store.lookup lib u token := by
  apply TokenStore.lookup_congr
  intro record
  rw [TokenStore.lookup_eq_some_iff, TokenStore.lookup_eq_some_iff]
  constructor
  · rintro ⟨row, hrow, hrest⟩
    exact ⟨row, (TokenStore.mem_prune.mp hrow).1, hrest⟩
  · rintro ⟨row, hrow, heq, hactive, hrest⟩
    -- active later, so active now
    obtain ⟨g, hg, hholds⟩ := h.minted row hrow
    have haccepted : g.accepted now.toInt = true :=
      Grant.accepted_of_le (Int64.le_iff_toInt_le.mp hu) ((hholds.active u).symm.trans hactive)
    have hkept := (h.prune_keeps_iff hnow grace hrow hholds haccepted).mpr
      (hfits.imp_right fun hall => hall g hg haccepted)
    exact ⟨row, hkept, heq, hactive, hrest⟩

/-- The rows that `revoke_all_for_repo` newly revokes are those that a lookup finds. -/
theorem revoked_revokeAllForRepo {store : TokenStore} {now : Int64} {repoId : RepoId}
    {token : Token} :
    (store.revokeAllForRepo now repoId).1.Revoked lib token ↔
      store.Revoked lib token ∨
        ∃ scope, store.lookup lib now token = .ok (some ⟨repoId, scope⟩) := by
  constructor
  · rintro ⟨row, hrow, heq, hrevoked⟩
    obtain ⟨old, hold, rfl⟩ := TokenStore.mem_setRevoked.mp hrow
    split at heq
    · rename_i hhit
      obtain ⟨hrepo, hactive⟩ := Bool.and_eq_true_iff.mp hhit
      obtain ⟨record, hlookup, hrecord⟩ := TokenStore.live_iff_lookup.mp
        (⟨old, hold, heq, eq_of_beq hrepo, hactive⟩ : store.Live now _ repoId.text)
      obtain ⟨repoId', scope⟩ := record
      obtain rfl : repoId' = repoId := RepoId.ext hrecord
      exact Or.inr ⟨scope, hlookup⟩
    · rename_i hmiss
      rw [if_neg hmiss] at hrevoked
      exact Or.inl ⟨old, hold, heq, hrevoked⟩
  · rintro (⟨row, hrow, heq, hrevoked⟩ | ⟨scope, hlookup⟩)
    · refine ⟨_, TokenStore.mem_setRevoked.mpr ⟨row, hrow, rfl⟩, ?_, ?_⟩
      · split
        · exact heq
        · exact heq
      · split
        · exact Option.some_ne_none now
        · exact hrevoked
    · obtain ⟨row, hrow, heq, hactive, hrepo, -⟩ := TokenStore.lookup_eq_some_iff.mp hlookup
      refine ⟨row.revoked now, TokenStore.mem_setRevoked.mpr ⟨row, hrow, if_pos ?_⟩, heq,
        Option.some_ne_none now⟩
      exact Bool.and_eq_true_iff.mpr ⟨beq_iff_eq.mpr hrepo, hactive⟩

theorem Tracks.truthful (h : Tracks lib presented b) (hhash : HashesApart lib presented)
    {c : Call} (hproper : Proper presented b c) (hfits : Fits b c) :
    Truthful lib presented b c := by
  obtain ⟨systemTime, op⟩ := c
  cases op with
  | mint token repoId scope ttl subject => trivial
  | revoke token => trivial
  | revokeAllForRepo repoId =>
      refine ⟨?_, fun token _ => revoked_revokeAllForRepo⟩
      show Except.ok (b.store.table.select _).length = _
      rw [h.length_finds hhash (q := fun record => record.repoId == repoId)]
      intro row _ repoId' _ hrepo
      show (row.repoId == repoId.text && _) = (repoId' == repoId && _)
      congr 1
      rw [hrepo, Bool.eq_iff_iff, beq_iff_eq, beq_iff_eq, RepoId.ext_iff]
  | prune grace =>
      intro u hu token
      exact h.prune_lookup hproper.1 hfits hu token

theorem Tracks.step (h : Tracks lib presented b) (hhash : HashesApart lib presented)
    {c : Call} (hproper : Proper presented b c) (hfits : Fits b c) :
    Tracks lib presented (b.step lib c) := by
  obtain ⟨systemTime, op⟩ := c
  obtain ⟨hnow, htokens, hnew⟩ := hproper
  cases op with
  | mint token repoId scope ttl subject =>
      apply h.mint hhash hnow (htokens token (List.mem_singleton.mpr rfl)) hnew
      intro secs hsecs
      obtain rfl : ttl = some secs := hsecs
      exact hfits
  | revoke token => exact h.revoke hhash hnow (htokens token (List.mem_singleton.mpr rfl))
  | revokeAllForRepo repoId => exact h.revokeAllForRepo hnow repoId
  | prune grace => exact h.prune hnow hfits

/-! ### Nothing else keeps them together -/

/-- A mint whose expiry leaves the column is over at once, if the row appears at all. -/
theorem Tracks.fits_of_mint (h : Tracks lib presented b) (hhash : HashesApart lib presented)
    {now : Int64} (hnow : b.now ≤ now) {token : Token} (htoken : token ∈ presented)
    (hnew : ∀ g ∈ b.ledger, g.token ≠ token) {repoId : RepoId} {scope : Scope} {secs : UInt64}
    {subject : Option Subject}
    (hlookup : (b.store.mint lib now token repoId scope (some secs) subject).1.lookup lib now token =
      .ok (some ⟨repoId, scope⟩)) :
    now.toInt + secs.toNat < 2 ^ 63 := by
  have hclock : 0 ≤ now.toInt := Int.le_trans h.clock (Int64.le_iff_toInt_le.mp hnow)
  obtain ⟨row, hrow, heq, hactive, -⟩ := TokenStore.lookup_eq_some_iff.mp hlookup
  rcases (h.mint_mem hhash htoken hnew _ _ _ _ row).mp hrow with hold | rfl
  · obtain ⟨g, hg, -, hsame⟩ := h.grant_of_row hhash hold htoken heq
    exact absurd hsame (hnew g hg)
  · have hlive : now < (now.toUInt64 + secs).toInt64 := of_decide_eq_true hactive
    rw [Int64.lt_iff_toInt_lt, expiresAt_toInt hclock] at hlive
    split_ifs at hlive with hfits
    · exact hfits
    · have hsecs := secs.toNat_lt
      omega

theorem Tracks.fits_of_exact (h : Tracks lib presented b) (hhash : HashesApart lib presented)
    {c : Call} (hproper : Proper presented b c) (htruthful : Truthful lib presented b c)
    (hexact : (b.step lib c).Exact lib presented) : Fits b c := by
  obtain ⟨systemTime, op⟩ := c
  obtain ⟨hnow, htokens, hnew⟩ := hproper
  cases op with
  | mint token repoId scope ttl subject =>
      have htoken : token ∈ presented := htokens token (List.mem_singleton.mpr rfl)
      cases ttl with
      | none => trivial
      | some secs =>
          rcases Nat.eq_zero_or_pos secs.toNat with hzero | hpos
          · show (nowSecs systemTime).toInt + (secs.toNat : Int) < 2 ^ 63
            rw [hzero]
            have := (nowSecs systemTime).toInt_lt
            omega
          · apply h.fits_of_mint hhash hnow htoken hnew
            apply (hexact.lookup (nowSecs systemTime) (Int64.le_refl _) token htoken _).mpr
            refine ⟨_, List.mem_append_right _ (List.mem_singleton.mpr rfl), rfl, rfl, ?_⟩
            apply Grant.accepted_iff.mpr
            refine ⟨rfl, ?_⟩
            rintro d hd
            obtain rfl : secs.toNat = d := Option.some.inj hd
            show (nowSecs systemTime).toInt < (nowSecs systemTime).toInt + (secs.toNat : Int)
            omega
  | revoke token => trivial
  | revokeAllForRepo repoId => trivial
  | prune grace =>
      show _ ∨ _
      rw [or_iff_not_imp_left]
      intro hlarge g hg haccepted
      -- a lookup that finds the token before the prune finds it after
      have hbefore : g.accepted b.now.toInt = true :=
        Grant.accepted_of_le (Int64.le_iff_toInt_le.mp hnow) haccepted
      obtain ⟨row, hrow, hholds⟩ := h.kept g hg hbefore
      have hfound : b.store.lookup lib (nowSecs systemTime) g.token = .ok (some g.record) :=
        (h.lookup_iff hhash hnow (h.presented g hg) g.record).mpr ⟨g, hg, rfl, rfl, haccepted⟩
      have hsame := htruthful (nowSecs systemTime) (Int64.le_refl _) g.token
      obtain ⟨row', hrow', heq, -⟩ :=
        TokenStore.lookup_eq_some_iff.mp (hsame.trans hfound)
      have hrow'' := (TokenStore.mem_prune.mp hrow').1
      obtain rfl : row' = row := Table.ext_key hrow'' hrow (heq.trans hholds.tokenHash.symm)
      have hkept := (h.prune_keeps_iff hnow grace hrow hholds haccepted).mp hrow'
      exact hkept.resolve_left hlarge

/-- **The table is exact as long as the numbers fit.** Over runs from an empty table,
with a clock that does not step back and tokens that are distinct: in every state,
now and at any later time, a lookup finds a token if and only if it was minted with
that record, was not revoked, and has not outlived its lifetime; the count is the number
of tokens a lookup finds; a bulk revocation revokes and counts just these tokens of
its repository; and a prune changes no lookup. -/
theorem token_store_exact_iff (lib : Library) (presented : List Token)
    (hhash : HashesApart lib presented) (calls : List Call)
    (hproper : EveryStep (Books.step lib) (Proper presented) .start calls) :
    (EveryState (Books.step lib) (Books.Exact lib presented) .start calls ∧
        EveryStep (Books.step lib) (Truthful lib presented) .start calls) ↔
      EveryStep (Books.step lib) Fits .start calls :=
  everyState_and_everyStep_iff (fun _ htracks => htracks.exact hhash)
    (fun _ _ htracks hallowed hfits => htracks.step hhash hallowed hfits)
    (fun _ _ htracks hallowed hfits => htracks.truthful hhash hallowed hfits)
    (fun _ _ htracks hallowed htruthful hexact =>
      htracks.fits_of_exact hhash hallowed htruthful hexact)
    tracks_start hproper

/-! ### Sample runs -/

def laptopToken : Token := ⟨"x9Qm4T2kV7bJ8sLw1RfZ0yHc6NdGpE3uKtAoXiBvU5q", rfl⟩

def buildToken : Token := ⟨"Lr8Wn2Yc5Kd1Zt7Xf4Gm9Bp3Qh6Vs0JaEeOoUuIiTtM", rfl⟩

/-- SHA-256 of the two tokens. -/
def sampleHashes : Library where
  sha256Hex s :=
    if s = laptopToken.text then
      "4bde33e9eccf1e36318c06fbb678b74a00987d82e3a4010d6d876ac548830f37"
    else if s = buildToken.text then
      "8ce09385101ed922651dce99ff4307316651cac47450d7073bd4b889bc43d14b"
    else
      ""
  printable c := decide (' ' ≤ c ∧ c ≤ '~')

def docsRepo : RepoId := ⟨"docs", rfl⟩

theorem sampleHashes_apart : HashesApart sampleHashes [laptopToken, buildToken] := by
  unfold HashesApart
  decide

/-- A token for an hour, one without an end, and all that can be done to them. -/
def ordinaryDay : List Call :=
  [⟨1700000000, .mint laptopToken docsRepo .read (some 3600) none⟩,
    ⟨1700000100, .mint buildToken docsRepo .write none none⟩,
    ⟨1700000200, .revoke laptopToken⟩,
    ⟨1700000300, .revokeAllForRepo docsRepo⟩,
    ⟨1700090000, .prune 86400⟩]

theorem token_store_exact_ordinaryDay :
    EveryState (Books.step sampleHashes)
        (Books.Exact sampleHashes [laptopToken, buildToken]) .start ordinaryDay ∧
      EveryStep (Books.step sampleHashes)
        (Truthful sampleHashes [laptopToken, buildToken]) .start ordinaryDay := by
  apply (token_store_exact_iff sampleHashes [laptopToken, buildToken] sampleHashes_apart
    ordinaryDay ?_).mpr
  · refine ⟨?_, trivial, trivial, trivial, Or.inl (by decide), trivial⟩
    show (1700000000 : Int) + 3600 < 2 ^ 63
    decide
  · refine ⟨⟨by decide, by decide, ?_⟩, ⟨by decide, by decide, ?_⟩, ⟨by decide, by decide, trivial⟩,
      ⟨by decide, by decide, trivial⟩, ⟨by decide, by decide, trivial⟩, trivial⟩
    · intro g hg
      cases hg
    · intro g hg
      obtain rfl := List.mem_singleton.mp hg
      decide

/-- A lifetime of `2 ^ 63` seconds. -/
def lifelong : List Call := [⟨1700000000, .mint laptopToken docsRepo .read (some 9223372036854775808) none⟩]

/-- The token is refused in the second it was minted. -/
theorem lifelong_token_refused :
    EveryStep (Books.step sampleHashes) (Proper [laptopToken]) .start lifelong ∧
      (lifelong.foldl (Books.step sampleHashes) .start).store.lookup sampleHashes 1700000000
        laptopToken = .ok none ∧
      ¬ EveryState (Books.step sampleHashes) (Books.Exact sampleHashes [laptopToken]) .start
        lifelong := by
  have hrefused : (lifelong.foldl (Books.step sampleHashes) .start).store.lookup sampleHashes
      1700000000 laptopToken = .ok none := by decide
  refine ⟨⟨⟨by decide, by decide, fun _ hg => nomatch hg⟩, trivial⟩, hrefused, ?_⟩
  intro h
  have hexact := h.2
  have hfound := (hexact.lookup 1700000000 (by decide) laptopToken (List.mem_singleton.mpr rfl)
    ⟨docsRepo, .read⟩).mpr ⟨_, List.mem_singleton.mpr rfl, rfl, rfl, by decide⟩
  cases hrefused.symm.trans hfound

end Tokens
end Artifacts
