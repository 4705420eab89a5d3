import Artifacts.Ownership
import Artifacts.Rust.Bytes
import Artifacts.Rust.Lines
import Artifacts.Rust.Numbers
import Mathlib.Data.List.Perm.Basic

/-!
# The repo list, page by page

`adminListRepos` answers one page of `GET /v1/admin/repos`: it cuts the table with
`LIMIT` and `OFFSET` and drops the rows it cannot decode, but counts every row in
`X-Total-Count`.  `fetchAllReposWith` is the client's walk over the pages.  It takes a page
that came back short for the last one, so a malformed row ends the walk with its page.

`Malformed` is a row that `row_to_repo_row` skips, and `NoneBehindMalformed` is about the pages
of `pageLimit` rows.  A table beyond the cap of `maxPages` pages is cut off by design.
-/

namespace Artifacts
namespace Rest

open Ownership Rust

/-! ### The server -/

/-- A row of `repos` whose id and owner are checked. A row that fails the check does not get here:
it is left out of its page. -/
structure TypedRepoRow where
  id : RepoId
  owner : Option Subject
  createdAt : Int64
  deriving DecidableEq, Repr

/-- `row_to_repo_row`: a malformed id skips the row, a malformed owner counts as none. -/
def rowToRepoRow (row : RepoRow) : Option TypedRepoRow :=
  match RepoId.tryFrom row.id with
  | .error _ => none
  | .ok id => some ⟨id, row.ownerSubject.bind fun s => (Subject.tryFrom s).toOption, row.createdAt⟩

/-- `list_paginated`, over the rows in the order of the query. -/
def listPaginated (rows : List RepoRow) (limit offset : Nat) : List TypedRepoRow :=
  ((rows.drop offset).take limit).filterMap rowToRepoRow

/-- `count_all`. -/
def countAll (rows : List RepoRow) : Nat := rows.length

/-- `RepoSummary`, as the client reads it from an `AdminRepoSummary`. -/
structure RepoSummary where
  id : String
  owner : Option String
  createdAt : Int64
  sourceId : Option String
  deriving DecidableEq, Repr

/-- The summary of a row; `lookup` is the alternates cache. -/
def summarize (lookup : String → Option String) (row : TypedRepoRow) : RepoSummary :=
  ⟨row.id.text, row.owner.map Subject.text, row.createdAt, lookup row.id.text⟩

def listReposDefaultLimit : Nat := 1000

def listReposMaxLimit : Nat := 5000

/-- `admin_list_repos`, once the caller was let in: the page, and `X-Total-Count`. -/
def adminListRepos (lookup : String → Option String) (rows : List RepoRow)
    (limit offset : Option Nat) : List RepoSummary × Nat :=
  ((listPaginated rows (min (limit.getD listReposDefaultLimit) listReposMaxLimit)
      (offset.getD 0)).map (summarize lookup), countAll rows)

/-! ### The client -/

/-- `PAGE_LIMIT`, the rows a page is asked for; a page with fewer is taken for the last one. -/
def pageLimit : Nat := 5000

/-- `MAX_PAGES`, after which the loop gives up and keeps what it has. -/
def maxPages : Nat := 100

/-- The loop of `fetch_all_repos_with`, for a number of rounds: `out`, `offset` and `total`
are its variables. -/
def fetchLoop {ε : Type} (fetchPage : Nat → Except ε (List RepoSummary × Option Nat)) :
    Nat → List RepoSummary → Nat → Option Nat → Except ε (List RepoSummary)
  | 0, out, _, _ => .ok out
  | rounds + 1, out, offset, total =>
      match fetchPage offset with
      | .error e => .error e
      | .ok (page, pageTotal) =>
          let total := total.or pageTotal
          let pageLen := page.length % 2 ^ 32
          let out := out ++ page
          let reachedTotal := total.any fun t => t ≤ out.length
          if reachedTotal || pageLen < pageLimit || pageLen == 0 then .ok out
          -- `saturating_add` of two `u32`
          else fetchLoop fetchPage rounds out (min (offset + pageLen) (2 ^ 32 - 1)) total

/-- `fetch_all_repos_with`, over any way to fetch a page. The first error ends it, and what was
collected by then is dropped. -/
def fetchAllReposWith {ε : Type} (fetchPage : Nat → Except ε (List RepoSummary × Option Nat)) :
    Except ε (List RepoSummary) :=
  fetchLoop fetchPage maxPages [] 0 none

/-- What `fetch_all_repos` asks the server for. -/
def fetchPage (lookup : String → Option String) (rows : List RepoRow) (offset : Nat) :
    Except String (List RepoSummary × Option Nat) :=
  let (page, total) := adminListRepos lookup rows (some pageLimit) (some offset)
  .ok (page, some total)

/-! ### Pages with a malformed row -/

/-- `row_to_repo_row` skips the row: its id or its owner does not pass the check of the type. -/
def Malformed (row : RepoRow) : Prop := rowToRepoRow row = none

instance (row : RepoRow) : Decidable (Malformed row) :=
  inferInstanceAs (Decidable (_ = _))

/-- Behind a page with a malformed row there are only malformed ones, as the client takes a page
that came back short for the last. -/
def NoneBehindMalformed (rows : List RepoRow) : Prop :=
  (chunks pageLimit rows).Pairwise fun page later =>
    (∃ row ∈ page, Malformed row) → ∀ row ∈ later, Malformed row

/-- The condition, from the first page on. -/
theorem noneBehindMalformed_iff {rows : List RepoRow} (h : rows ≠ []) :
    NoneBehindMalformed rows ↔
      ((∃ row ∈ rows.take pageLimit, Malformed row) → ∀ row ∈ rows.drop pageLimit, Malformed row) ∧
        NoneBehindMalformed (rows.drop pageLimit) := by
  have hpos : 0 < pageLimit := by decide
  unfold NoneBehindMalformed
  rw [chunks_of_ne_nil hpos h, List.pairwise_cons]
  apply and_congr_left
  intro _
  constructor
  · intro hlater hbad
    exact (forall_mem_chunks hpos).mp fun chunk hchunk => hlater chunk hchunk hbad
  · intro hrest chunk hchunk hbad
    exact (forall_mem_chunks hpos).mpr (hrest hbad) chunk hchunk

theorem noneBehindMalformed_of_forall {rows : List RepoRow} (h : ∀ row ∈ rows, Malformed row) :
    NoneBehindMalformed rows := by
  have hall := (forall_mem_chunks (by decide : 0 < pageLimit)).mpr h
  apply List.pairwise_of_forall_mem_list
  intro page _ later hlater _
  exact hall later hlater

/-! ### What the walk returns -/

/-- What the client should be shown of some rows. -/
def summaries (lookup : String → Option String) (rows : List RepoRow) : List RepoSummary :=
  (rows.filterMap rowToRepoRow).map (summarize lookup)

section Walk
variable {lookup : String → Option String}

theorem summaries_append (front back : List RepoRow) :
    summaries lookup (front ++ back) = summaries lookup front ++ summaries lookup back := by
  simp [summaries, List.filterMap_append]

/-- A row is shown exactly when it is well formed. -/
theorem summaries_eq_nil {rows : List RepoRow} :
    summaries lookup rows = [] ↔ ∀ row ∈ rows, Malformed row := by
  simp [summaries, Malformed]

theorem length_summaries_le (rows : List RepoRow) :
    (summaries lookup rows).length ≤ rows.length := by
  rw [summaries, List.length_map]
  exact List.length_filterMap_le _ _

/-- A malformed row makes the page shorter. -/
theorem length_summaries_eq {rows : List RepoRow} :
    (summaries lookup rows).length = rows.length ↔ ¬ ∃ row ∈ rows, Malformed row := by
  rw [summaries, List.length_map, List.filterMap_length_eq_length]
  simp [Malformed, Option.isSome_iff_ne_none]

/-- One page of the server. -/
theorem fetchPage_eq (rows : List RepoRow) (offset : Nat) :
    fetchPage lookup rows offset =
      .ok (summaries lookup ((rows.drop offset).take pageLimit), some rows.length) := rfl

/-- One round of the walk over what is left of the rows, when every row before was sent. -/
theorem fetchLoop_round {sent rest : List RepoRow} {out : List RepoSummary} {total : Option Nat}
    (rounds : Nat) (hout : out.length = sent.length) (hsmall : sent.length + rest.length < 2 ^ 32)
    (htotal : total = none ∨ total = some (sent ++ rest).length) :
    fetchLoop (fetchPage lookup (sent ++ rest)) (rounds + 1) out sent.length total =
      if (∃ row ∈ rest.take pageLimit, Malformed row) ∨ rest.length ≤ pageLimit then
        .ok (out ++ summaries lookup (rest.take pageLimit))
      else
        fetchLoop (fetchPage lookup (sent ++ rest)) rounds
          (out ++ summaries lookup (rest.take pageLimit)) (sent ++ rest.take pageLimit).length
          (some (sent ++ rest).length) := by
  obtain ⟨page, hpage⟩ : ∃ page, summaries lookup (rest.take pageLimit) = page := ⟨_, rfl⟩
  have hlimit : pageLimit = 5000 := rfl
  have hle : page.length ≤ min pageLimit rest.length := by
    rw [← hpage, ← List.length_take]
    exact length_summaries_le _
  have hfull : page.length = min pageLimit rest.length ↔
      ¬ ∃ row ∈ rest.take pageLimit, Malformed row := by
    rw [← hpage, ← List.length_take]
    exact length_summaries_eq
  have hadvertised : total.or (some (sent ++ rest).length) = some (sent ++ rest).length := by
    rcases htotal with h | h <;> rw [h] <;> rfl
  have hmod : page.length % 2 ^ 32 = page.length := Nat.mod_eq_of_lt (by omega)
  rw [fetchLoop, fetchPage_eq, List.drop_left]
  dsimp only
  rw [hadvertised, hpage, hmod, Option.any_some]
  simp only [List.length_append, Bool.or_eq_true, decide_eq_true_eq, beq_iff_eq]
  by_cases hbad : ∃ row ∈ rest.take pageLimit, Malformed row
  · -- the page is short, and the client takes it for the last one
    have hshort : page.length < pageLimit := by
      have hne := mt hfull.mp (not_not.mpr hbad)
      omega
    rw [if_pos (Or.inl (Or.inr hshort)), if_pos (Or.inl hbad)]
  · have hlength := hfull.mpr hbad
    by_cases hlast : rest.length ≤ pageLimit
    · rw [if_pos (Or.inl (Or.inl (by omega))), if_pos (Or.inr hlast)]
    · rw [if_neg (by omega), if_neg (by simp [hbad, hlast])]
      congr 1
      rw [List.length_take]
      omega

/-- Where the walk stops, it has shown everything exactly when what is left is malformed. -/
theorem perm_summaries_take {rest : List RepoRow}
    (hstop : (∃ row ∈ rest.take pageLimit, Malformed row) ∨ rest.length ≤ pageLimit) :
    (summaries lookup (rest.take pageLimit)).Perm (summaries lookup rest) ↔
      NoneBehindMalformed rest := by
  have hsplit : summaries lookup rest =
      summaries lookup (rest.take pageLimit) ++ summaries lookup (rest.drop pageLimit) := by
    rw [← summaries_append, List.take_append_drop]
  have hnone : (summaries lookup (rest.take pageLimit)).Perm (summaries lookup rest) ↔
      ∀ row ∈ rest.drop pageLimit, Malformed row := by
    have hnil : summaries lookup (rest.drop pageLimit) = [] ↔
        ∀ row ∈ rest.drop pageLimit, Malformed row :=
      summaries_eq_nil
    rw [← hnil, hsplit]
    constructor
    · intro hperm
      have hlength := hperm.length_eq
      rw [List.length_append] at hlength
      exact List.length_eq_zero_iff.mp (by omega)
    · intro hnil
      rw [hnil, List.append_nil]
  rw [hnone]
  by_cases hempty : rest = []
  · subst hempty
    simp [NoneBehindMalformed, chunks, chunksAux]
  · rw [noneBehindMalformed_iff hempty]
    constructor
    · intro hall
      exact ⟨fun _ => hall, noneBehindMalformed_of_forall hall⟩
    · intro h
      rcases hstop with hbad | hlast
      · exact h.1 hbad
      · rw [List.drop_eq_nil_of_le hlast]
        intro row hrow
        cases hrow

/-- The rest of the walk shows every well-formed row that is left, if no page with a
malformed row stands before one with a well-formed row. -/
theorem fetchLoop_spec {sent rest : List RepoRow} {out : List RepoSummary} {total : Option Nat}
    {rounds : Nat} (hrounds : rest.length ≤ rounds * pageLimit) (hout : out.length = sent.length)
    (hsmall : sent.length + rest.length < 2 ^ 32)
    (htotal : total = none ∨ total = some (sent ++ rest).length) :
    ∃ shown, fetchLoop (fetchPage lookup (sent ++ rest)) rounds out sent.length total =
        .ok (out ++ shown) ∧
      (shown.Perm (summaries lookup rest) ↔ NoneBehindMalformed rest) := by
  induction rounds generalizing sent rest out total with
  | zero =>
      obtain rfl : rest = [] := List.length_eq_zero_iff.mp (by omega)
      refine ⟨[], by rw [fetchLoop, List.append_nil], ?_⟩
      simp [summaries, NoneBehindMalformed, chunks, chunksAux]
  | succ rounds ih =>
      rw [fetchLoop_round rounds hout hsmall htotal]
      -- a page that comes back short is the last, for the client
      by_cases hstop : (∃ row ∈ rest.take pageLimit, Malformed row) ∨ rest.length ≤ pageLimit
      · rw [if_pos hstop]
        exact ⟨_, rfl, perm_summaries_take hstop⟩
      · rw [if_neg hstop]
        obtain ⟨hgood, hmore⟩ := not_or.mp hstop
        have hpage : (summaries lookup (rest.take pageLimit)).length =
            (rest.take pageLimit).length :=
          length_summaries_eq.mpr hgood
        have htake : (rest.take pageLimit).length = pageLimit := by
          rw [List.length_take]
          omega
        have hdrop := List.length_drop (i := pageLimit) (l := rest)
        have hrejoin : sent ++ rest = (sent ++ rest.take pageLimit) ++ rest.drop pageLimit := by
          rw [List.append_assoc, List.take_append_drop]
        rw [hrejoin]
        obtain ⟨shown, hloop, hshown⟩ := @ih (sent ++ rest.take pageLimit) (rest.drop pageLimit)
          (out ++ summaries lookup (rest.take pageLimit))
          (some ((sent ++ rest.take pageLimit) ++ rest.drop pageLimit).length)
          (by rw [Nat.add_mul] at hrounds; omega)
          (by rw [List.length_append, List.length_append, hpage, hout])
          (by rw [List.length_append]; omega) (Or.inr rfl)
        refine ⟨summaries lookup (rest.take pageLimit) ++ shown, ?_, ?_⟩
        · rw [hloop, List.append_assoc]
        · have hempty : rest ≠ [] := by
            rintro rfl
            exact hmore (Nat.zero_le _)
          have hsplit : summaries lookup rest =
              summaries lookup (rest.take pageLimit) ++ summaries lookup (rest.drop pageLimit) := by
            rw [← summaries_append, List.take_append_drop]
          rw [hsplit, List.perm_append_left_iff, hshown, noneBehindMalformed_iff hempty]
          exact ⟨fun h => ⟨fun hbad => absurd hbad hgood, h⟩, fun h => h.2⟩

end Walk

/-- The whole walk, over a table that fits the page cap. -/
theorem fetchAllRepos_spec (lookup : String → Option String) {rows : List RepoRow}
    (hfits : rows.length ≤ pageLimit * maxPages) :
    ∃ shown, fetchAllReposWith (fetchPage lookup rows) = .ok shown ∧
      (shown.Perm (summaries lookup rows) ↔ NoneBehindMalformed rows) := by
  have hsmall : rows.length < 2 ^ 32 := by
    have hcap : pageLimit * maxPages = 500000 := rfl
    omega
  have hrounds : rows.length ≤ maxPages * pageLimit := by
    rw [Nat.mul_comm]
    exact hfits
  exact @fetchLoop_spec lookup [] rows [] none maxPages hrounds rfl (by simpa using hsmall)
    (Or.inl rfl)

/-- The walk returns every well-formed row once, and nothing else. A malformed row is not shown by
any page, and is not missed here. -/
def ShowsEveryRepo (lookup : String → Option String) (rows : List RepoRow) : Prop :=
  ∃ shown, fetchAllReposWith (fetchPage lookup rows) = .ok shown ∧
    shown.Perm (summaries lookup rows)

/-- **When the client sees every repo**: in a table that fits the page cap, exactly when no
well-formed row stands behind a page with a malformed one. The rows are any, in the order in which
the query returns them, and their owners are looked up in any way. The table does not change between
the pages. -/
theorem fetch_all_repos_complete_iff (lookup : String → Option String) (rows : List RepoRow)
    (hfits : rows.length ≤ pageLimit * maxPages) :
    ShowsEveryRepo lookup rows ↔ NoneBehindMalformed rows := by
  obtain ⟨shown, hfetch, hshown⟩ := fetchAllRepos_spec lookup hfits
  unfold ShowsEveryRepo
  rw [hfetch, ← hshown]
  constructor
  · intro h
    obtain ⟨shown', hsame, hperm⟩ := h
    cases hsame
    exact hperm
  · intro hperm
    exact ⟨shown, rfl, hperm⟩

/-- One of many repos. -/
def numberedRow (i : Nat) : RepoRow := ⟨"repo-" ++ toString i, none, 0⟩

/-- Its id is five characters and at most four digits. -/
theorem numberedRow_wellFormed {i : Nat} (h : i < 5000) : ¬ Malformed (numberedRow i) := by
  have hchars : ∀ c ∈ ("repo-" ++ toString i).toList, isRepoIdChar c = true ∧ c.toNat < 128 := by
    intro c hc
    rw [String.toList_append, List.mem_append] at hc
    rcases hc with hfront | hdigit
    · revert c
      decide
    · have hascii := isAsciiDigit_of_mem hdigit
      have hrange : 48 ≤ c.toNat ∧ c.toNat ≤ 57 := by
        simpa [isAsciiDigit, Char.le_def, UInt32.le_iff_toNat_le] using hascii
      refine ⟨by simp [isRepoIdChar, hascii], ?_⟩
      omega
  have hdigits : (Nat.toDigits 10 i).length ≤ 4 :=
    (Nat.length_toDigits_le_iff (by decide) (by decide)).mpr (by omega)
  have hsize : ("repo-" ++ toString i).utf8ByteSize = 5 + (Nat.toDigits 10 i).length := by
    rw [utf8ByteSize_of_ascii fun c hc => (hchars c hc).2, String.toList_append,
      List.length_append, toString_toList]
    rfl
  have hvalid : validRepoId ("repo-" ++ toString i) = true := by
    have hall : ("repo-" ++ toString i).toList.all isRepoIdChar = true :=
      List.all_eq_true.mpr fun c hc => (hchars c hc).1
    rw [validRepoId, hall, hsize]
    simp
    omega
  unfold Malformed rowToRepoRow numberedRow RepoId.tryFrom
  rw [dif_pos hvalid]
  exact Option.some_ne_none _

/-- A full page, and a short one with a malformed row and a repo behind it. -/
def twoPages : List RepoRow :=
  (List.range 5000).map numberedRow ++ [⟨"x", none, 9⟩, ⟨"demo-2", some "al", 5⟩]

/-- A malformed row on the last page hides nothing. -/
theorem fetch_all_repos_complete_lastPage : ShowsEveryRepo (fun _ => none) twoPages := by
  have hfull : ((List.range 5000).map numberedRow).length = pageLimit := by
    rw [List.length_map, List.length_range, pageLimit]
  have hfits : twoPages.length ≤ pageLimit * maxPages := by
    rw [twoPages, List.length_append, hfull]
    decide
  refine (fetch_all_repos_complete_iff _ _ hfits).mpr ?_
  rw [noneBehindMalformed_iff (by simp [twoPages]), twoPages, List.take_left' hfull,
    List.drop_left' hfull]
  constructor
  · rintro ⟨row, hrow, hbad⟩
    obtain ⟨i, hi, rfl⟩ := List.mem_map.mp hrow
    exact absurd hbad (numberedRow_wellFormed (List.mem_range.mp hi))
  · rw [noneBehindMalformed_iff (List.cons_ne_nil _ _)]
    exact ⟨fun _ => nofun, List.Pairwise.nil⟩

/-- A malformed row, and 5000 repos behind it. -/
def rowsWithMalformed : List RepoRow := ⟨"x", none, 9⟩ :: (List.range 5000).map numberedRow

/-- The repo on the second page is never asked for. -/
theorem malformed_row_hides :
    rowsWithMalformed.length ≤ pageLimit * maxPages ∧
      ¬ ShowsEveryRepo (fun _ => none) rowsWithMalformed := by
  have hfits : rowsWithMalformed.length ≤ pageLimit * maxPages := by
    simp [rowsWithMalformed, pageLimit, maxPages]
  refine ⟨hfits, fun hshows => ?_⟩
  obtain ⟨shown, hfetch, hperm⟩ := hshows
  obtain ⟨shown', hfetch', hiff⟩ := fetchAllRepos_spec (fun _ => none) hfits
  rw [hfetch] at hfetch'
  cases hfetch'
  have h := (noneBehindMalformed_iff (by simp [rowsWithMalformed])).mp (hiff.mp hperm)
  have hbad : ∃ row ∈ rowsWithMalformed.take pageLimit, Malformed row :=
    ⟨⟨"x", none, 9⟩, List.mem_cons_self, by decide⟩
  have hlast : rowsWithMalformed.drop pageLimit = [numberedRow 4999] := by
    have hsplit : rowsWithMalformed =
        (⟨"x", none, 9⟩ :: (List.range 4999).map numberedRow) ++ [numberedRow 4999] := by
      unfold rowsWithMalformed
      rw [List.range_succ, List.map_append, List.cons_append]
      rfl
    rw [hsplit]
    exact List.drop_left' (by simp [pageLimit])
  have hgood := h.1 hbad (numberedRow 4999) (by rw [hlast]; exact List.mem_singleton_self _)
  exact absurd hgood (numberedRow_wellFormed (by decide))

end Rest
end Artifacts
