import Mathlib.Data.List.Basic
import Mathlib.Data.List.Nodup

/-!
# Hash-linked lists of rows

Every row carries a digest of its own and the digest of its predecessor.
`Linked start rows` says that the links fit together from the digest `start`
on.  The module answers, for an arbitrary type of rows:

* what appending a row does to the links;
* which deletions of rows leave the links intact;
* when the digests of a linked list are pairwise distinct.

Digests are of any type.  Whether a row has the right digest of its own is a matter of its
content, and is kept apart from the links.
-/

namespace Artifacts
namespace Foundation

variable {δ ρ : Type*} (prev digest : ρ → δ)

/-- Each row names its predecessor's digest, the first row names `start`. What a digest is of is not
asked here. -/
def Linked : δ → List ρ → Prop
  | _, [] => True
  | start, r :: rows => prev r = start ∧ Linked (digest r) rows

/-- The digest the next row has to name. -/
def tip : δ → List ρ → δ
  | start, [] => start
  | _, r :: rows => tip (digest r) rows

/-- The digests that occur as a link: the start and every row's own. -/
def linkDigests (start : δ) (rows : List ρ) : List δ :=
  start :: rows.map digest

variable {prev digest}

@[simp] theorem linked_nil (start : δ) : Linked prev digest start [] ↔ True := Iff.rfl

@[simp] theorem linked_cons (start : δ) (r : ρ) (rows : List ρ) :
    Linked prev digest start (r :: rows) ↔
      prev r = start ∧ Linked prev digest (digest r) rows := Iff.rfl

@[simp] theorem tip_nil (start : δ) : tip digest start [] = start := rfl

@[simp] theorem tip_cons (start : δ) (r : ρ) (rows : List ρ) :
    tip digest start (r :: rows) = tip digest (digest r) rows := rfl

/-- The tip is the digest of the last row, if there is one. -/
theorem tip_eq_getLast (start : δ) (rows : List ρ) :
    tip digest start rows = ((rows.getLast?).map digest).getD start := by
  induction rows generalizing start with
  | nil => rfl
  | cons r rows ih =>
      rw [tip_cons, ih, List.getLast?_cons]
      cases rows.getLast? <;> rfl

theorem linked_append (start : δ) (xs ys : List ρ) :
    Linked prev digest start (xs ++ ys) ↔
      Linked prev digest start xs ∧ Linked prev digest (tip digest start xs) ys := by
  induction xs generalizing start with
  | nil => simp
  | cons x xs ih => simp [ih, and_assoc]

/-- **Append rule.** A row that names the tip extends a linked list. -/
theorem linked_snoc (start : δ) (rows : List ρ) (r : ρ) :
    Linked prev digest start (rows ++ [r]) ↔
      Linked prev digest start rows ∧ prev r = tip digest start rows := by
  simp [linked_append]

theorem Linked.of_prefix {start : δ} {rows kept : List ρ}
    (h : Linked prev digest start rows) (hpre : kept <+: rows) :
    Linked prev digest start kept := by
  obtain ⟨rest, rfl⟩ := hpre
  exact ((linked_append start kept rest).mp h).1

theorem Linked.prev_mem {start : δ} {rows : List ρ} (h : Linked prev digest start rows)
    {r : ρ} (hr : r ∈ rows) : prev r ∈ linkDigests digest start rows := by
  induction rows generalizing start with
  | nil => cases hr
  | cons x rows ih =>
      rcases List.mem_cons.mp hr with rfl | hr
      · rw [h.1]
        exact List.mem_cons_self
      · have htail := ih h.2 hr
        rw [linkDigests, List.map_cons]
        exact List.mem_cons_of_mem start htail

/-- **Deletion rule.** Where the digests are pairwise distinct, the rows kept by
a deletion are still linked exactly when they are a prefix. -/
theorem linked_sublist_iff {start : δ} {rows kept : List ρ}
    (h : Linked prev digest start rows) (hdistinct : (linkDigests digest start rows).Nodup)
    (hsub : kept.Sublist rows) :
    Linked prev digest start kept ↔ kept <+: rows := by
  refine ⟨fun hkept => ?_, h.of_prefix⟩
  induction rows generalizing start kept with
  | nil =>
      obtain rfl := List.sublist_nil.mp hsub
      exact List.nil_prefix
  | cons r rows ih =>
      cases kept with
      | nil => exact List.nil_prefix
      | cons k kept =>
          have hdistinct' : (linkDigests digest (digest r) rows).Nodup :=
            (List.nodup_cons.mp hdistinct).2
          rcases List.sublist_cons_iff.mp hsub with hskip | ⟨kept', heq, hrest⟩
          · -- the first row is gone, so the link back to `start` has no owner left
            have hmem : prev k ∈ linkDigests digest (digest r) rows :=
              h.2.prev_mem (hskip.subset List.mem_cons_self)
            rw [hkept.1] at hmem
            exact absurd hmem (List.nodup_cons.mp hdistinct).1
          · obtain ⟨rfl, rfl⟩ := List.cons.inj heq
            exact List.cons_prefix_cons.mpr ⟨rfl, ih h.2 hdistinct' hrest hkept.2⟩

/-- Each row names the link digest at its own position. -/
theorem Linked.linkDigests_getElem? {start : δ} {rows : List ρ}
    (h : Linked prev digest start rows) {i : Nat} (hi : i < rows.length) :
    (linkDigests digest start rows)[i]? = some (prev rows[i]) := by
  induction rows generalizing start i with
  | nil => cases hi
  | cons r rows ih =>
      cases i with
      | zero => simp [linkDigests, h.1]
      | succ i => simpa [linkDigests] using ih h.2 (by simpa using hi)

/-- The digests of a linked list repeat only if the start is a digest again:
where a digest determines the link below it, two equal digests lead down to
two equal digests, and in the end to the start. -/
theorem Linked.digests_nodup {start : δ} {rows : List ρ} (h : Linked prev digest start rows)
    (hdown : ∀ r ∈ rows, ∀ r' ∈ rows, digest r = digest r' → prev r = prev r')
    (hstart : ∀ r ∈ rows, digest r ≠ start) :
    (linkDigests digest start rows).Nodup := by
  have hnever : ∀ i j, i < j → j ≤ rows.length →
      (linkDigests digest start rows)[i]? ≠ (linkDigests digest start rows)[j]? := by
    intro i
    induction i with
    | zero =>
        rintro (_ | j) hij hj heq
        · omega
        · have hj' : j < rows.length := hj
          refine hstart rows[j] (List.getElem_mem hj') ?_
          simpa [linkDigests, hj'] using heq.symm
    | succ i ih =>
        rintro (_ | j) hij hj heq
        · omega
        · have hi' : i < rows.length := by omega
          have hj' : j < rows.length := by omega
          have hdig : digest rows[i] = digest rows[j] := by
            simpa [linkDigests, hi', hj'] using heq
          refine ih j (by omega) (by omega) ?_
          rw [h.linkDigests_getElem? hi', h.linkDigests_getElem? hj']
          exact congrArg some (hdown _ (List.getElem_mem hi') _ (List.getElem_mem hj') hdig)
  rw [List.nodup_iff_getElem?_ne_getElem?]
  intro i j hij hj
  exact hnever i j hij (by simpa [linkDigests, Nat.lt_succ_iff] using hj)

/-- Keeping the rows that satisfy `p` keeps a prefix exactly when no row that
goes stands before a row that stays. -/
theorem filter_prefix_iff_pairwise (p : ρ → Bool) (rows : List ρ) :
    rows.filter p <+: rows ↔
      rows.Pairwise (fun older newer => p newer = true → p older = true) := by
  induction rows with
  | nil => simp
  | cons r rows ih =>
      cases hr : p r with
      | true => simp [hr, ih, List.cons_prefix_cons]
      | false =>
          have hnone : rows.filter p <+: r :: rows ↔ ∀ x ∈ rows, p x = false := by
            constructor
            · intro hpre
              have hempty : rows.filter p = [] := by
                cases hfilter : rows.filter p with
                | nil => rfl
                | cons x xs =>
                    rw [hfilter, List.cons_prefix_cons] at hpre
                    have hx : p x = true :=
                      (List.mem_filter.mp (hfilter ▸ List.mem_cons_self)).2
                    rw [hpre.1, hr] at hx
                    cases hx
              simpa using hempty
            · intro hall
              rw [List.filter_eq_nil_iff.mpr (by simpa using hall)]
              exact List.nil_prefix
          rw [List.filter_cons_of_neg (by simp [hr]), hnone, List.pairwise_cons]
          constructor
          · intro hall
            refine ⟨fun x hx hpx => ?_, List.pairwise_iff_forall_sublist.mpr ?_⟩
            · rw [hall x hx] at hpx
              cases hpx
            · intro x y hxy hpy
              have hy : y ∈ rows := hxy.subset (by simp)
              rw [hall y hy] at hpy
              cases hpy
          · rintro ⟨hall, -⟩ x hx
            cases hpx : p x with
            | false => rfl
            | true => exact absurd (hall x hx hpx) (by simp [hr])

/-- Deleting one row that is not the last keeps the links exactly when that
row's digest is the one it names. -/
theorem linked_delete_iff {start : δ} {before after : List ρ} {r : ρ}
    (h : Linked prev digest start (before ++ r :: after)) (hafter : after ≠ []) :
    Linked prev digest start (before ++ after) ↔ digest r = prev r := by
  obtain ⟨hbefore, hr, hrest⟩ := (linked_append start before (r :: after)).mp h
  cases after with
  | nil => exact absurd rfl hafter
  | cons s after =>
      obtain ⟨hs, hafter⟩ := hrest
      rw [linked_append, linked_cons, hs, ← hr]
      exact ⟨fun hgone => hgone.2.1, fun heq => ⟨hbefore, heq, hafter⟩⟩

/-- Rewriting rows without touching their links changes nothing about them. -/
theorem linked_map_iff {start : δ} {rows : List ρ} {f : ρ → ρ}
    (hprev : ∀ r ∈ rows, prev (f r) = prev r) (hdigest : ∀ r ∈ rows, digest (f r) = digest r) :
    Linked prev digest start (rows.map f) ↔ Linked prev digest start rows := by
  induction rows generalizing start with
  | nil => exact Iff.rfl
  | cons r rows ih =>
      have htail : Linked prev digest (digest r) (rows.map f) ↔
          Linked prev digest (digest r) rows :=
        ih (fun x hx => hprev x (List.mem_cons_of_mem r hx))
          (fun x hx => hdigest x (List.mem_cons_of_mem r hx))
      simp only [List.map_cons, linked_cons, hprev r List.mem_cons_self,
        hdigest r List.mem_cons_self]
      exact and_congr_right fun _ => htail

end Foundation
end Artifacts
