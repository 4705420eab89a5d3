import Mathlib.Data.List.Basic

/-!
# The crate's error type

`Error` is the single enum every fallible operation returns, and `display` its
`Display` text, which handlers put into report lines and response bodies.
Causes that come from outside the crate (`io`, `rusqlite`, `anyhow`) are held as
the text they print.

`Result.bind_eq_ok` takes a sequence of fallible steps apart, and is the one lemma that proofs
about handlers need of it.
-/

namespace Artifacts

inductive Error where
  | repoNotFound (id : String)
  | repoExists (id : String)
  | invalidRepoId (id : String)
  | unauthorized
  | unauthorizedBasic
  | forbidden (why : String)
  | badRequest (why : String)
  | refConflict (branch : String) (expected current : Option String)
  | mergeConflict (targetBranch sourceBranch : String) (conflictPaths : List String)
  | forkDependency (repoId : String) (forks : List String)
  | quotaExceeded (subject : String) (limit : Nat)
  | repoByteQuotaExceeded (repoId : String) (bytesUsed limit : Nat)
  | rateLimited (retryAfterSecs : Nat)
  | io (cause : String)
  | packParse (what : String)
  | gixError (what : String)
  | db (cause : String)
  | other (message : String)
  deriving DecidableEq, Repr

/-- `crate::error::Result`. -/
abbrev Result (α : Type) := Except Error α

/-- **Peeling a `?` off**: both parts succeeded. -/
theorem Result.bind_eq_ok {α β : Type} {x : Result α} {f : α → Result β} {b : β} :
    (x >>= f) = .ok b ↔ ∃ a, x = .ok a ∧ f a = .ok b := by
  cases x with
  | error e =>
      constructor
      · intro h
        cases h
      · intro h
        obtain ⟨a, ha, -⟩ := h
        cases ha
  | ok a =>
      constructor
      · intro h
        exact ⟨a, rfl, h⟩
      · intro h
        obtain ⟨a', ha, hb⟩ := h
        cases ha
        exact hb

namespace Error

def plural (n : Nat) : String := if n = 1 then "" else "s"

/-- The `#[error(...)]` text of each variant. -/
def display : Error → String
  | .repoNotFound id => "repository not found: " ++ id
  | .repoExists id => "repository already exists: " ++ id
  | .invalidRepoId id => "invalid repo id: " ++ id
  | .unauthorized => "unauthorized"
  | .unauthorizedBasic => "unauthorized"
  | .forbidden why => "forbidden: " ++ why
  | .badRequest why => "bad request: " ++ why
  | .refConflict branch _ _ => "ref conflict on branch " ++ branch
  | .mergeConflict target _ paths =>
      "merge conflict on branch " ++ target ++ " (" ++ toString paths.length ++ " path" ++
        plural paths.length ++ ")"
  | .forkDependency repoId forks =>
      "repo " ++ repoId ++ " has " ++ toString forks.length ++ " dependent fork" ++
        plural forks.length
  | .quotaExceeded subject limit =>
      "repo quota exceeded for " ++ subject ++ " (limit: " ++ toString limit ++ ")"
  | .repoByteQuotaExceeded repoId used limit =>
      "repo " ++ repoId ++ " byte quota exceeded (" ++ toString used ++ " ≥ " ++
        toString limit ++ ")"
  | .rateLimited secs => "rate limited; retry after " ++ toString secs ++ "s"
  | .io cause => "io: " ++ cause
  | .packParse what => "pack parse: " ++ what
  | .gixError what => "gix: " ++ what
  | .db cause => "database: " ++ cause
  | .other message => message

end Error
end Artifacts
