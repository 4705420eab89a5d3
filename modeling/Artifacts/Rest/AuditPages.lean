import Artifacts.Audit.Store
import Artifacts.Foundation.CursorPages

/-!
# The audit log, page by page

`list` answers one query of the audit log, newest id first.  Its page is cut by id, but the
walk that `GET /v1/admin/audit` documents goes on from a timestamp, and `until` is
inclusive.  `auditWalk` is this walk: it repeats the events of the oldest second of each
page, and it has found the log only if there is room behind them.

`newestFirst` is the log in the order of the pages.  The walk itself, over any list with a key,
is in `Foundation`, and so is the condition at the end of a page; here the key is `ts`.
-/

namespace Artifacts
namespace Rest

open Audit Foundation Foundation.CursorPages

/-- Timestamps are compared as signed integers. -/
instance instLinearOrderInt64 : LinearOrder Int64 where
  le_refl := Int64.le_refl
  le_trans _ _ _ := Int64.le_trans
  le_antisymm _ _ := Int64.le_antisymm
  le_total := Int64.le_total
  lt_iff_le_not_ge _ _ := Std.LawfulOrderLT.lt_iff _ _
  toDecidableLE := inferInstance
  toDecidableEq := inferInstance

/-! ### The store -/

structure AuditQuery where
  sinceTs : Option Int64
  untilTs : Option Int64
  event : Option String
  actor : Option String
  repoId : Option String
  limit : Option UInt32
  offset : Option UInt32

/-- The `WHERE` clause that `list` builds. -/
def AuditQuery.selects (q : AuditQuery) (row : AuditRow) : Bool :=
  (q.sinceTs.all fun since => decide (since ≤ row.columns.ts)) &&
    (q.untilTs.all fun last => decide (row.columns.ts ≤ last)) &&
    (q.event.all fun event => row.columns.event == event) &&
    (q.actor.all fun actor => row.columns.actor == actor) &&
    -- a row without a repo is not equal to any
    (q.repoId.all fun repoId => row.columns.repoId == some repoId)

/-- `SqliteAuditStore::list`. The newest events come first, and a page has at most 1000 of them
whatever is asked for. -/
def list (t : AuditTable) (q : AuditQuery) : List AuditEvent :=
  -- ORDER BY id DESC LIMIT ? OFFSET ?
  (((t.rows.filter q.selects).reverse.drop (q.offset.getD 0).toNat).take
    (min (q.limit.getD 100) 1000).toNat).map AuditRow.decode

/-! ### The route -/

structure AdminAuditQuery where
  since : Option Int64 := none
  last : Option Int64 := none
  event : Option String := none
  actor : Option String := none
  repoId : Option String := none
  limit : Option UInt32 := none
  offset : Option UInt32 := none

/-- `admin_list_audit`, once the caller was let in; `last` is its parameter `until`. -/
def adminListAudit (t : AuditTable) (q : AdminAuditQuery) : List AuditEvent :=
  list t
    { sinceTs := q.since
      untilTs := q.last
      event := q.event
      actor := q.actor
      repoId := q.repoId
      limit := q.limit
      offset := q.offset }

/-- The documented walk over pages of `n` events, for a number of requests: the oldest `ts`
of a page is the `until` of the next. -/
def auditWalk (t : AuditTable) (n : UInt32) (requests : Nat) : List AuditEvent :=
  walk AuditEvent.ts (fun last => adminListAudit t { last := last, limit := some n })
    requests none []

/-! ### What the walk finds -/

/-- The log in the order of the pages. -/
def newestFirst (t : AuditTable) : List AuditEvent := (t.rows.map AuditRow.decode).reverse

@[simp] theorem length_newestFirst (t : AuditTable) :
    (newestFirst t).length = t.rows.length := by
  simp [newestFirst]

@[simp] theorem mem_newestFirst (t : AuditTable) (evt : AuditEvent) :
    evt ∈ newestFirst t ↔ ∃ row ∈ t.rows, row.decode = evt := by
  simp [newestFirst]

/-- No event is in the log twice: the ids differ. -/
theorem nodup_newestFirst (t : AuditTable) : (newestFirst t).Nodup := by
  rw [newestFirst, List.nodup_reverse]
  apply List.Pairwise.map AuditRow.decode _ t.sorted
  intro older newer hid heq
  exact Nat.ne_of_lt hid (congrArg AuditEvent.id heq)

/-- A page of the route is a page of the log. -/
theorem adminListAudit_eq_page (t : AuditTable) {n : UInt32} (hcap : n ≤ 1000)
    (last : Option Int64) :
    adminListAudit t { last := last, limit := some n } =
      page AuditEvent.ts n.toNat last (newestFirst t) := by
  have hlimit : min n 1000 = n := by
    rw [UInt32.min_def, if_pos hcap]
  have hselects : (fun row => (upTo AuditEvent.ts last (AuditRow.decode row))) =
      (AuditQuery.mk none last none none none (some n) none).selects := by
    funext row
    cases last <;> simp [AuditQuery.selects, AuditRow.decode]
  simp only [adminListAudit, list, page, newestFirst, Option.getD_some, Option.getD_none, hlimit]
  rw [← List.map_reverse, List.filter_map, ← List.map_take, List.filter_reverse]
  simp only [Function.comp_def, hselects]
  rfl

/-- At every end of a page of `n` events inside the log: nothing older by id has a later `ts`, and
fewer than `n` of the events up to there have the oldest `ts`. So the next page, which begins with
these, has room for another event. -/
def PagesOverlap (t : AuditTable) (n : Nat) : Prop :=
  ∀ e, PageEnd AuditEvent.ts n (newestFirst t) e → e < t.rows.length →
    Overlaps AuditEvent.ts n (newestFirst t) e

/-- **The documented walk returns the whole log exactly when its pages overlap.** The table is any,
its seconds in any order, the page any size that the endpoint takes. The walk has more requests than
the table has rows, so what it does not find it never finds. Nothing is recorded or pruned while it
runs. -/
theorem audit_walk_complete_iff (t : AuditTable) {n : UInt32} (hn : 1 ≤ n) (hcap : n ≤ 1000)
    {requests : Nat} (hrequests : t.rows.length < requests) :
    (∀ row ∈ t.rows, row.decode ∈ auditWalk t n requests) ↔ PagesOverlap t n.toNat := by
  have hpos : 0 < n.toNat := UInt32.lt_iff_toNat_lt.mp (UInt32.pos_iff_ne_zero.mpr (by
    rintro rfl
    exact absurd hn (by decide)))
  have henough : (newestFirst t).length < requests := by
    simpa using hrequests
  have hwalk := walk_complete_iff AuditEvent.ts hpos (nodup_newestFirst t) henough
  simp only [auditWalk, adminListAudit_eq_page t hcap]
  rw [PagesOverlap, ← length_newestFirst, ← hwalk]
  simp

/-- Where `ts` never goes back and no second has as many events as a page, the pages
overlap. -/
theorem pagesOverlap_of_few {t : AuditTable} {n : Nat} (hn : 0 < n)
    (hsorted : t.rows.Pairwise fun older newer => older.columns.ts ≤ newer.columns.ts)
    (hfew : ∀ row ∈ t.rows, t.rows.countP (fun other => other.columns.ts = row.columns.ts) < n) :
    PagesOverlap t n := by
  intro e he hlt
  apply overlaps_of_sorted _ _ (he.pos hn) (by simpa using hlt)
  · rw [newestFirst, List.pairwise_reverse]
    exact List.Pairwise.map AuditRow.decode (fun _ _ h => h) hsorted
  · intro evt hevt
    obtain ⟨row, hrow, rfl⟩ := (mem_newestFirst t evt).mp hevt
    rw [newestFirst, List.countP_reverse, List.countP_map]
    exact hfew row hrow

/-- A row of the logs below. -/
def reachedAt (id : Nat) (ts : Int64) : AuditRow where
  id := id
  columns := ⟨ts, "repo.create", "admin", none, "{}", none⟩
  prevHash := none
  rowHash := none

/-- Seven events, at most two in a second. -/
def fourSeconds : AuditTable where
  rows := [reachedAt 1 100, reachedAt 2 100, reachedAt 3 101, reachedAt 4 102, reachedAt 5 102,
    reachedAt 7 103, reachedAt 8 103]
  lastId := 8
  sorted := by decide
  bounded := by decide

/-- Pages of three events overlap and find them all; each of the later ones begins with what
the page before it ended with. -/
theorem audit_walk_complete_fourSeconds :
    PagesOverlap fourSeconds 3 ∧
      ∀ row ∈ fourSeconds.rows, row.decode ∈ auditWalk fourSeconds 3 8 := by
  have hoverlap : PagesOverlap fourSeconds 3 :=
    pagesOverlap_of_few (by decide) (by decide) (by decide)
  exact ⟨hoverlap,
    (audit_walk_complete_iff fourSeconds (by decide) (by decide) (by decide)).mpr hoverlap⟩

/-- Three events, two of them in one second. -/
def twoSeconds : AuditTable where
  rows := [reachedAt 1 100, reachedAt 2 100, reachedAt 3 101]
  lastId := 3
  sorted := by decide
  bounded := by decide

/-- A page of one event is repeated by the next, and the walk stops there. -/
theorem full_second_hides :
    ¬ ∀ row ∈ twoSeconds.rows, row.decode ∈ auditWalk twoSeconds 1 4 := by
  decide

end Rest
end Artifacts
