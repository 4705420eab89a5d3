import Artifacts.Tokens

/-!
# Authorization

`Principal` is whom a REST request speaks for.  `authorizeGit` decides a git
request from the token it presents: the token has to be live, bound to the repo of
the request, and of a scope that suffices.

How a principal is told from a header, and the admin's own token, belong to the middleware and
are not part of this.  What `authorizeGit` accepts is said once, in `exists_authorizeGit_iff`.
-/

namespace Artifacts
namespace Auth

open Tokens

inductive Principal where
  | admin
  | user (subject : String)
  deriving DecidableEq, Repr

/-- The subject to record as an owner. -/
def Principal.subject : Principal → Option String
  | .admin => none
  | .user subject => some subject

/-- The checks of `authorize_git` on the record of the token. -/
def admitRecord (repoId : String) (required : Scope) (record : TokenRecord) :
    Result TokenRecord :=
  if record.repoId.text ≠ repoId then
    .error (.forbidden "token not valid for this repo")
  else if required = .write ∧ record.scope ≠ .write then
    .error (.forbidden "token is read-only")
  else
    .ok record

/-- `authorize_git`; `presented` is what `basic_token` read from the headers. -/
def authorizeGit (lib : Library) (tokens : TokenStore) (now : Int64) (presented : Result String)
    (repoId : String) (required : Scope) : Result TokenRecord := do
  let token ← presented
  let tokenTyped ← Token.tryFrom token
  match ← tokens.lookup lib now tokenTyped with
  | none => .error .unauthorizedBasic
  | some record => admitRecord repoId required record

variable {lib : Library} {tokens : TokenStore} {now : Int64}

theorem admitRecord_eq_ok {repoId : String} {required : Scope} {found record : TokenRecord} :
    admitRecord repoId required found = .ok record ↔
      found = record ∧ record.repoId.text = repoId ∧
        (required = .write → record.scope = .write) := by
  unfold admitRecord
  constructor
  · intro h
    split_ifs at h with hrepo hscope
    cases h
    refine ⟨rfl, not_not.mp hrepo, fun hwrite => ?_⟩
    exact not_not.mp fun hread => hscope ⟨hwrite, hread⟩
  · intro h
    obtain ⟨rfl, hrepo, hscope⟩ := h
    rw [if_neg (not_not.mpr hrepo), if_neg fun h => h.2 (hscope h.1)]

/-- **What an authorized request had.** -/
theorem authorizeGit_eq_ok {token : Token} {repoId : String} {required : Scope}
    {record : TokenRecord} :
    authorizeGit lib tokens now (.ok token.text) repoId required = .ok record ↔
      tokens.lookup lib now token = .ok (some record) ∧ record.repoId.text = repoId ∧
        (required = .write → record.scope = .write) := by
  unfold authorizeGit
  constructor
  · intro h
    obtain ⟨text, htext, h⟩ := Result.bind_eq_ok.mp h
    cases htext
    obtain ⟨typed, htyped, h⟩ := Result.bind_eq_ok.mp h
    rw [Token.tryFrom_text] at htyped
    cases htyped
    obtain ⟨found, hlookup, h⟩ := Result.bind_eq_ok.mp h
    cases found with
    | none => cases h
    | some found =>
        obtain ⟨rfl, hrest⟩ := admitRecord_eq_ok.mp h
        exact ⟨hlookup, hrest⟩
  · intro h
    obtain ⟨hlookup, hrest⟩ := h
    refine Result.bind_eq_ok.mpr ⟨token.text, rfl, ?_⟩
    refine Result.bind_eq_ok.mpr ⟨token, Token.tryFrom_text token, ?_⟩
    refine Result.bind_eq_ok.mpr ⟨some record, hlookup, ?_⟩
    exact admitRecord_eq_ok.mpr ⟨rfl, hrest⟩

/-- Only a request that presents a well-formed token is authorized. -/
theorem exists_token_of_authorizeGit {presented : Result String} {repoId : String}
    {required : Scope} {record : TokenRecord}
    (h : authorizeGit lib tokens now presented repoId required = .ok record) :
    ∃ token : Token, presented = .ok token.text := by
  unfold authorizeGit at h
  obtain ⟨text, htext, h⟩ := Result.bind_eq_ok.mp h
  obtain ⟨token, htyped, -⟩ := Result.bind_eq_ok.mp h
  unfold Token.tryFrom at htyped
  split_ifs at htyped with hlength hvalid
  exact ⟨⟨text, hvalid⟩, htext⟩

/-- A token opens a repo to some request if and only if its row is live there. -/
theorem exists_authorizeGit_iff {token : Token} {repoId : String} :
    (∃ required record,
        authorizeGit lib tokens now (.ok token.text) repoId required = .ok record) ↔
      tokens.Live now (lib.sha256Hex token.text) repoId := by
  rw [TokenStore.live_iff_lookup]
  constructor
  · intro h
    obtain ⟨required, record, hauth⟩ := h
    obtain ⟨hlookup, hrepo, -⟩ := authorizeGit_eq_ok.mp hauth
    exact ⟨record, hlookup, hrepo⟩
  · intro h
    obtain ⟨record, hlookup, hrepo⟩ := h
    exact ⟨.read, record, authorizeGit_eq_ok.mpr ⟨hlookup, hrepo, nofun⟩⟩

end Auth
end Artifacts
