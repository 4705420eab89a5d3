import Artifacts.DbMigrate.Progress

/-!
# The migrations of the stores

Each store has a list of its own; tokens and repos share a file.

That these lists are sound and that no two owners meet in a table is decided here, list by list,
so a migration that is added later is checked by building this file.
-/

namespace Artifacts
namespace DbMigrate

/-- `MIGRATIONS` of `tokens.rs`. -/
def tokenMigrations : List Migration :=
  [⟨1, "init",
    [.createTable "tokens"
      [⟨"token_hash", "TEXT PRIMARY KEY"⟩, ⟨"repo_id", "TEXT NOT NULL"⟩, ⟨"scope", "TEXT NOT NULL"⟩,
        ⟨"created_at", "INTEGER NOT NULL"⟩, ⟨"expires_at", "INTEGER"⟩, ⟨"revoked_at", "INTEGER"⟩] [],
      .createIndex "idx_tokens_repo_id" "tokens" ["repo_id"] none]⟩,
    ⟨2, "add_subject_column", [.addColumn "tokens" ⟨"subject", "TEXT"⟩]⟩]

/-- `MIGRATIONS` of `ownership.rs`. -/
def ownershipMigrations : List Migration :=
  [⟨1, "init",
    [.createTable "repos"
      [⟨"id", "TEXT PRIMARY KEY"⟩, ⟨"owner_subject", "TEXT"⟩, ⟨"created_at", "INTEGER NOT NULL"⟩] [],
      .createIndex "idx_repos_owner" "repos" ["owner_subject"] none]⟩,
    ⟨2, "index_repos_created_at",
      [.createIndex "idx_repos_created_at" "repos" ["created_at"] none]⟩]

/-- `MIGRATIONS` of `audit.rs`. -/
def auditMigrations : List Migration :=
  [⟨1, "init",
    [.createTable "audit_events"
      [⟨"id", "INTEGER PRIMARY KEY AUTOINCREMENT"⟩, ⟨"ts", "INTEGER NOT NULL"⟩,
        ⟨"event", "TEXT NOT NULL"⟩, ⟨"actor", "TEXT NOT NULL"⟩, ⟨"repo_id", "TEXT"⟩,
        ⟨"fields_json", "TEXT NOT NULL DEFAULT '\x7b\x7d'"⟩, ⟨"request_id", "TEXT"⟩] [],
      .createIndex "idx_audit_ts" "audit_events" ["ts"] none,
      .createIndex "idx_audit_event" "audit_events" ["event"] none,
      .createIndex "idx_audit_actor" "audit_events" ["actor"] none,
      .createIndex "idx_audit_repoid" "audit_events" ["repo_id"] none]⟩,
    ⟨2, "add_hash_chain",
      [.addColumn "audit_events" ⟨"prev_hash", "BLOB"⟩,
        .addColumn "audit_events" ⟨"row_hash", "BLOB"⟩]⟩]

/-- `MIGRATIONS` of `webhooks.rs`. -/
def webhookMigrations : List Migration :=
  [⟨1, "init",
    [.createTable "webhooks"
      [⟨"id", "TEXT PRIMARY KEY"⟩, ⟨"repo_id", "TEXT NOT NULL"⟩, ⟨"url", "TEXT NOT NULL"⟩,
        ⟨"secret", "TEXT"⟩, ⟨"events_json", "TEXT NOT NULL"⟩, ⟨"created_at", "INTEGER NOT NULL"⟩,
        ⟨"revoked_at", "INTEGER"⟩] [],
      .createIndex "idx_webhooks_repo" "webhooks" ["repo_id"] none]⟩,
    ⟨2, "add_secret_nonce_column", [.addColumn "webhooks" ⟨"secret_nonce", "BLOB"⟩]⟩,
    ⟨3, "add_webhook_deliveries",
      [.createTable "webhook_deliveries"
        [⟨"id", "INTEGER PRIMARY KEY AUTOINCREMENT"⟩, ⟨"hook_id", "TEXT NOT NULL"⟩,
          ⟨"url", "TEXT NOT NULL"⟩, ⟨"secret", "BLOB"⟩, ⟨"secret_nonce", "BLOB"⟩,
          ⟨"kind", "TEXT NOT NULL"⟩, ⟨"payload", "BLOB NOT NULL"⟩,
          ⟨"attempts", "INTEGER NOT NULL DEFAULT 0"⟩, ⟨"last_status", "TEXT"⟩,
          ⟨"next_attempt_at", "INTEGER NOT NULL"⟩, ⟨"created_at", "INTEGER NOT NULL"⟩,
          ⟨"finalized_at", "INTEGER"⟩, ⟨"finalized_outcome", "TEXT"⟩] [],
        .createIndex "idx_webhook_deliveries_pending" "webhook_deliveries" ["next_attempt_at"]
          (some "finalized_at IS NULL")]⟩,
    ⟨4, "index_finalized_deliveries",
      [.createIndex "idx_webhook_deliveries_finalized" "webhook_deliveries" ["finalized_at"]
        (some "finalized_at IS NOT NULL")]⟩]

/-- `SQLITE_OBJECT_STORE_MIGRATIONS`. -/
def objectStoreMigrations : List Migration :=
  [⟨1, "init",
    [.createTable "loose_objects"
      [⟨"repo_id", "TEXT NOT NULL"⟩, ⟨"oid", "TEXT NOT NULL"⟩, ⟨"bytes", "BLOB NOT NULL"⟩,
        ⟨"created_at", "INTEGER NOT NULL"⟩] ["PRIMARY KEY (repo_id, oid)"],
      .createIndex "idx_loose_repo" "loose_objects" ["repo_id"] none]⟩]

/-- The namespaces, with their lists. -/
def shippedLists : List (String × List Migration) :=
  [("tokens", tokenMigrations), ("ownership", ownershipMigrations), ("audit", auditMigrations),
    ("webhooks", webhookMigrations), ("object_store", objectStoreMigrations)]

def shipped (owner : String) : List Migration := (shippedLists.lookup owner).getD []

theorem shipped_cases (owner : String) : shipped owner = [] ∨ (owner, shipped owner) ∈ shippedLists := by
  unfold shipped
  cases hfound : shippedLists.lookup owner with
  | none => exact Or.inl rfl
  | some migrations =>
      obtain ⟨pre, post, hsplit, -⟩ := List.lookup_eq_some_iff.mp hfound
      rw [Option.getD_some, hsplit]
      exact Or.inr (by simp)

theorem sound_nil : Sound [] := ⟨List.Pairwise.nil, by simp, trivial⟩

/-- Each list can be shipped. -/
theorem sound_shipped (owner : String) : Sound (shipped owner) := by
  have hlists : ∀ entry ∈ shippedLists,
      (entry.2.Pairwise fun a b => a.version < b.version) ∧ (∀ m ∈ entry.2, 0 < m.version) ∧
        Succeeds emptyDb.schema (script entry.2) := by
    decide +kernel
  rcases shipped_cases owner with hnone | hmem
  · rw [hnone]
    exact sound_nil
  · obtain ⟨hordered, hpositive, hsucceeds⟩ := hlists _ hmem
    exact ⟨hordered, hpositive, hsucceeds⟩

/-- All of them could share one file. -/
theorem apart_shipped : Apart shipped where
  others := by
    have hlists : ∀ a ∈ shippedLists, ∀ b ∈ shippedLists, a.1 ≠ b.1 →
        ∀ name ∈ namesOf a.2, name ∉ namesOf b.2 := by
      decide +kernel
    intro owner other hne name hname
    rcases shipped_cases owner with hnone | hmem
    · rw [hnone] at hname
      cases hname
    · rcases shipped_cases other with hnone | hother
      · rw [hnone]
        exact List.not_mem_nil
      · exact hlists _ hmem _ hother hne name hname
  versions := by
    have hlists : ∀ a ∈ shippedLists, "schema_version" ∉ namesOf a.2 := by
      decide +kernel
    intro owner
    rcases shipped_cases owner with hnone | hmem
    · rw [hnone]
      exact List.not_mem_nil
    · exact hlists _ hmem

end DbMigrate
end Artifacts
