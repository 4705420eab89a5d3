import Mathlib.Data.List.Nodup
import Mathlib.Data.List.MinMax
import Mathlib.Order.Basic

/-!
# Paging by an inclusive cursor

A list is served in its own order, at most `n` items at a time, cut by a cursor: only
items with a key up to the cursor, itself included.  The reader takes the least key of a
page as its next cursor, so a page repeats the items that share this key.

* `walk`: the reader, until a page brings nothing new.
* `PageEnd`: where its pages end, as long as the walk goes on.
* `walk_complete_iff`: it finds everything exactly when every page that ends inside the
  list `Overlaps` the next one: nothing behind is above the cursor, and the items that the
  next page repeats leave room for another.

Keys are of any linear order and the items of any type.  That the list is sorted by the key is
not asked for: `Overlaps` says what the walk needs of it.
-/

namespace Artifacts
namespace Foundation
namespace CursorPages

variable {α κ : Type*} [LinearOrder κ] (key : α → κ)

/-- The cursor lets the item through. -/
def upTo : Option κ → α → Bool
  | none, _ => true
  | some c, x => decide (key x ≤ c)

@[simp] theorem upTo_none (x : α) : upTo key none x = true := rfl

@[simp] theorem upTo_some (c : κ) (x : α) : upTo key (some c) x = decide (key x ≤ c) := rfl

/-- One page. -/
def page (n : Nat) (cursor : Option κ) (xs : List α) : List α :=
  (xs.filter (upTo key cursor)).take n

/-- The least key of a page. -/
def oldest (xs : List α) : Option κ := (xs.map key).min?

/-- The reader: `seen` is what it has, `rounds` bounds its requests. -/
def walk [DecidableEq α] (request : Option κ → List α) :
    Nat → Option κ → List α → List α
  | 0, _, seen => seen
  | rounds + 1, cursor, seen =>
      let events := request cursor
      let fresh := events.filter fun x => x ∉ seen
      if fresh = [] then seen
      else walk request rounds (oldest key events) (seen ++ fresh)

/-- How many of the first `e` items have the least key among them. -/
def ties (xs : List α) (e : Nat) : Nat :=
  (xs.take e).countP fun x => (xs.take e).all fun y => key x ≤ key y

/-- Behind `e`, a page goes on with what the repeated items leave room for. -/
def nextEnd (n : Nat) (xs : List α) (e : Nat) : Nat := e + (n - ties key xs e)

/-- The places where the pages of the walk end: behind the first `n` elements, and from there
wherever the next page ends, as long as there is something behind it. -/
inductive PageEnd (n : Nat) (xs : List α) : Nat → Prop where
  | first : PageEnd n xs n
  | next {e : Nat} : PageEnd n xs e → e < xs.length → PageEnd n xs (nextEnd key n xs e)

/-- The page behind `e` starts with repeated items and goes on with the item at `e`. -/
structure Overlaps (n : Nat) (xs : List α) (e : Nat) : Prop where
  behind : ∀ x ∈ xs.drop e, ∀ y ∈ xs.take e, key x ≤ key y
  room : ties key xs e < n

/-! ### Least keys -/

theorem oldest_eq_some_iff {xs : List α} {c : κ} :
    oldest key xs = some c ↔ (∃ x ∈ xs, key x = c) ∧ ∀ x ∈ xs, c ≤ key x := by
  rw [oldest, List.min?_eq_some_iff]
  simp

theorem exists_oldest {xs : List α} (h : xs ≠ []) : ∃ c, oldest key xs = some c := by
  rw [← Option.isSome_iff_exists, Option.isSome_iff_ne_none]
  simpa [oldest, List.min?_eq_none_iff] using h

/-- Dropping items that are not the least changes nothing. -/
theorem oldest_eq_of_subset {xs ys : List α} (hsub : ∀ x ∈ xs, x ∈ ys)
    (hbelow : ∀ y ∈ ys, ∃ x ∈ xs, key x ≤ key y) : oldest key xs = oldest key ys := by
  apply Option.ext
  intro c
  simp only [oldest_eq_some_iff]
  constructor
  · rintro ⟨⟨x, hx, rfl⟩, hleast⟩
    refine ⟨⟨x, hsub x hx, rfl⟩, ?_⟩
    intro y hy
    obtain ⟨z, hz, hzy⟩ := hbelow y hy
    exact le_trans (hleast z hz) hzy
  · rintro ⟨⟨y, hy, rfl⟩, hleast⟩
    obtain ⟨x, hx, hxy⟩ := hbelow y hy
    refine ⟨⟨x, hx, le_antisymm hxy (hleast x (hsub x hx))⟩, ?_⟩
    intro z hz
    exact hleast z (hsub z hz)

/-- The items the cursor lets through again. -/
theorem ties_eq_length {xs : List α} {e : Nat} {c : κ} (h : oldest key (xs.take e) = some c) :
    ties key xs e = ((xs.take e).filter (upTo key (some c))).length := by
  obtain ⟨⟨z, hz, hzc⟩, hleast⟩ := (oldest_eq_some_iff key).mp h
  rw [ties, List.countP_eq_length_filter]
  congr 1
  apply List.filter_congr
  intro x _
  rw [Bool.eq_iff_iff]
  simp only [upTo, List.all_eq_true, decide_eq_true_eq]
  constructor
  · intro hall
    exact hzc ▸ hall z hz
  · intro hxc y hy
    exact le_trans hxc (hleast y hy)

/-! ### One request -/

section Walk

variable {key} {n : Nat} {xs : List α}

/-- The page behind the end of another that overlaps it. -/
theorem page_of_overlaps {e : Nat} {c : κ} (h : Overlaps key n xs e)
    (hc : oldest key (xs.take e) = some c) :
    page key n (some c) xs =
      (xs.take e).filter (upTo key (some c)) ++ (xs.drop e).take (n - ties key xs e) := by
  obtain ⟨⟨z, hz, hzc⟩, -⟩ := (oldest_eq_some_iff key).mp hc
  have hbehind : (xs.drop e).filter (upTo key (some c)) = xs.drop e := by
    apply List.filter_eq_self.mpr
    intro x hx
    simpa [upTo, hzc] using h.behind x hx z hz
  have hlength := ties_eq_length key hc
  rw [page]
  nth_rewrite 1 [← List.take_append_drop e xs]
  rw [List.filter_append, hbehind, List.take_append, ← hlength,
    List.take_of_length_le (by rw [← hlength]; exact Nat.le_of_lt h.room)]

theorem PageEnd.pos (hn : 0 < n) {e : Nat} (h : PageEnd key n xs e) : 0 < e := by
  induction h with
  | first => exact hn
  | next _ _ ih => exact Nat.lt_of_lt_of_le ih (Nat.le_add_right _ _)

/-- The items before an end are some. -/
theorem exists_oldest_take (key : α → κ) {e : Nat} (hpos : 0 < e) (he : e < xs.length) :
    ∃ c, oldest key (xs.take e) = some c := by
  apply exists_oldest
  intro hnil
  have hlength := congrArg List.length hnil
  simp only [List.length_take, List.length_nil] at hlength
  omega

/-- What is behind an end is not before it. -/
theorem not_mem_take_of_mem_drop (hnodup : xs.Nodup) {e : Nat} {x : α} (h : x ∈ xs.drop e) :
    x ∉ xs.take e := by
  intro hin
  rw [← List.take_append_drop e xs] at hnodup
  exact List.disjoint_of_nodup_append hnodup hin h

/-- Where the keys never rise, it is enough that no key fills a page. -/
theorem overlaps_of_sorted (hsorted : xs.Pairwise fun x y => key y ≤ key x)
    (hfew : ∀ x ∈ xs, xs.countP (fun y => key y = key x) < n) {e : Nat} (hpos : 0 < e)
    (he : e < xs.length) : Overlaps key n xs e := by
  rw [← List.take_append_drop e xs] at hsorted
  constructor
  · intro x hx y hy
    exact (List.pairwise_append.mp hsorted).2.2 y hy x hx
  · obtain ⟨c, hc⟩ := exists_oldest_take key hpos he
    obtain ⟨⟨z, hz, hzc⟩, hleast⟩ := (oldest_eq_some_iff key).mp hc
    calc ties key xs e
        ≤ (xs.take e).countP (fun y => key y = key z) := by
          rw [ties]
          apply List.countP_mono_left
          intro x hx hall
          simp only [List.all_eq_true, decide_eq_true_eq] at hall ⊢
          exact le_antisymm (hall z hz) (hzc ▸ hleast x hx)
      _ ≤ xs.countP (fun y => key y = key z) := (List.take_sublist e xs).countP_le
      _ < n := hfew z (List.mem_of_mem_take hz)

variable [DecidableEq α]

/-- Nothing of the walk but what it had and what its cursor lets through. -/
theorem mem_walk {rounds : Nat} {cursor : Option κ} {seen : List α} {x : α}
    (h : x ∈ walk key (fun c => page key n c xs) rounds cursor seen) :
    x ∈ seen ∨ upTo key cursor x = true := by
  induction rounds generalizing cursor seen with
  | zero => exact Or.inl h
  | succ rounds ih =>
      simp only [walk] at h
      split_ifs at h with hfresh
      · exact Or.inl h
      · have hpage : ∀ y ∈ page key n cursor xs, upTo key cursor y = true := by
          intro y hy
          exact (List.mem_filter.mp (List.mem_of_mem_take hy)).2
        rcases ih h with hseen | hup
        · rcases List.mem_append.mp hseen with hold | hnew
          · exact Or.inl hold
          · exact Or.inr (hpage x (List.mem_of_mem_filter hnew))
        · -- the next cursor is not above this one
          right
          have hne : page key n cursor xs ≠ [] := by
            intro hnil
            simp [hnil] at hfresh
          obtain ⟨c, hc⟩ := exists_oldest key hne
          obtain ⟨⟨y, hy, hyc⟩, -⟩ := (oldest_eq_some_iff key).mp hc
          rw [hc] at hup
          have hxc : key x ≤ key y := by simpa [upTo, hyc] using hup
          have hyup := hpage y hy
          cases cursor with
          | none => rfl
          | some d =>
              simp only [upTo, decide_eq_true_eq] at hyup ⊢
              exact le_trans hxc hyup

/-- The state of the walk once it has the first `e` items. -/
abbrev walkFrom (key : α → κ) (n : Nat) (xs : List α) (rounds e : Nat) : List α :=
  walk key (fun c => page key n c xs) rounds (oldest key (xs.take e)) (xs.take e)

/-- The first request. -/
theorem walk_first (hn : 0 < n) {rounds : Nat} (hxs : xs ≠ []) :
    walk key (fun c => page key n c xs) (rounds + 1) none [] = walkFrom key n xs rounds n := by
  have hpage : page key n none xs = xs.take n := by
    rw [page, List.filter_eq_self.mpr]
    intro x _
    exact upTo_none key x
  have hne : xs.take n ≠ [] := by
    simp only [ne_eq, List.take_eq_nil_iff, not_or]
    exact ⟨by omega, hxs⟩
  simp only [walk, hpage, List.not_mem_nil, not_false_eq_true, decide_true,
    List.filter_true, hne, if_false, List.nil_append]

/-- One request that overlaps the pages before it. -/
theorem walkFrom_succ (hnodup : xs.Nodup) {rounds e : Nat} (he : e < xs.length) (hpos : 0 < e)
    (h : Overlaps key n xs e) :
    walkFrom key n xs (rounds + 1) e = walkFrom key n xs rounds (nextEnd key n xs e) := by
  obtain ⟨c, hc⟩ := exists_oldest_take key hpos he
  have hpage := page_of_overlaps h hc
  have hroom := h.room
  set more := (xs.drop e).take (n - ties key xs e) with hmore
  -- the page is what the walk has of the oldest key, and then new ones
  have hapart : ∀ x ∈ more, x ∉ xs.take e := by
    intro x hx
    exact not_mem_take_of_mem_drop hnodup (List.mem_of_mem_take hx)
  have hfresh : (page key n (some c) xs).filter (fun x => x ∉ xs.take e) = more := by
    rw [hpage, List.filter_append]
    have hold : ((xs.take e).filter (upTo key (some c))).filter
        (fun x => decide (x ∉ xs.take e)) = [] := by
      apply List.filter_eq_nil_iff.mpr
      intro x hx
      simpa using List.mem_of_mem_filter hx
    have hnew : more.filter (fun x => decide (x ∉ xs.take e)) = more := by
      apply List.filter_eq_self.mpr
      intro x hx
      simpa using hapart x hx
    rw [hold, hnew, List.nil_append]
  -- there is room behind the ties, so the walk goes on
  have hmoreNe : more ≠ [] := by
    intro hnil
    have hlength := congrArg List.length hnil
    simp only [hmore, List.length_take, List.length_drop, List.length_nil] at hlength
    omega
  have htake : xs.take e ++ more = xs.take (nextEnd key n xs e) := by
    rw [nextEnd, List.take_add, hmore]
  have holdest : oldest key (page key n (some c) xs) =
      oldest key (xs.take (nextEnd key n xs e)) := by
    obtain ⟨⟨z, hz, hzc⟩, hleast⟩ := (oldest_eq_some_iff key).mp hc
    rw [hpage, ← htake]
    apply oldest_eq_of_subset
    · intro x hx
      rcases List.mem_append.mp hx with hold | hnew
      · exact List.mem_append_left _ (List.mem_of_mem_filter hold)
      · exact List.mem_append_right _ hnew
    · intro y hy
      rcases List.mem_append.mp hy with hold | hnew
      · refine ⟨z, List.mem_append_left _ (List.mem_filter.mpr ⟨hz, ?_⟩), ?_⟩
        · simp [upTo, hzc]
        · exact hzc ▸ hleast y hold
      · exact ⟨y, List.mem_append_right _ hnew, le_refl _⟩
  show walk key _ (rounds + 1) (oldest key (xs.take e)) (xs.take e) = _
  rw [hc, walk]
  simp only [hfresh, hmoreNe, if_false, holdest, htake]

/-- A request with no room behind the repeated items ends the walk. -/
theorem walkFrom_of_no_room {rounds e : Nat} {c : κ} (hc : oldest key (xs.take e) = some c)
    (h : n ≤ ties key xs e) : walkFrom key n xs rounds e = xs.take e := by
  cases rounds with
  | zero => rfl
  | succ rounds =>
      have hpage : ∀ x ∈ page key n (some c) xs, x ∈ xs.take e := by
        intro x hx
        rw [page, ← List.take_append_drop e xs, List.filter_append, List.take_append_of_le_length
          (by rw [← ties_eq_length key hc]; exact h)] at hx
        exact List.mem_of_mem_filter (List.mem_of_mem_take hx)
      show walk key _ (rounds + 1) (oldest key (xs.take e)) (xs.take e) = _
      rw [hc, walk, if_pos]
      apply List.filter_eq_nil_iff.mpr
      intro x hx
      simpa using hpage x hx

/-- A walk that has everything stays with it. -/
theorem subset_walk {rounds : Nat} {cursor : Option κ} {seen : List α} {x : α} (h : x ∈ seen) :
    x ∈ walk key (fun c => page key n c xs) rounds cursor seen := by
  induction rounds generalizing cursor seen with
  | zero => exact h
  | succ rounds ih =>
      simp only [walk]
      split_ifs
      · exact h
      · exact ih (List.mem_append_left _ h)

/-! ### Whole walks -/

/-- A walk that finds everything overlaps behind each of its pages. -/
theorem overlaps_of_complete (hnodup : xs.Nodup) {rounds e : Nat} (hpos : 0 < e)
    (he : e < xs.length) (h : ∀ x ∈ xs, x ∈ walkFrom key n xs rounds e) :
    Overlaps key n xs e := by
  obtain ⟨c, hc⟩ := exists_oldest_take key hpos he
  constructor
  · intro x hx y hy
    have hnew : x ∉ xs.take e := not_mem_take_of_mem_drop hnodup hx
    have hup : upTo key (oldest key (xs.take e)) x = true :=
      (mem_walk (h x (List.mem_of_mem_drop hx))).resolve_left hnew
    rw [hc] at hup
    have hxc : key x ≤ c := by simpa [upTo] using hup
    exact le_trans hxc (((oldest_eq_some_iff key).mp hc).2 y hy)
  · by_contra hroom
    have hall : ∀ x ∈ xs, x ∈ xs.take e := by
      intro x hx
      have hmem := h x hx
      rwa [walkFrom_of_no_room hc (by omega)] at hmem
    have hlast : xs[e] ∈ xs.drop e := by
      rw [List.drop_eq_getElem_cons he]
      exact List.mem_cons_self
    exact not_mem_take_of_mem_drop hnodup hlast (hall _ (List.getElem_mem he))

/-- From the end of a page on, overlapping pages find everything. -/
theorem walkFrom_complete (hn : 0 < n) (hnodup : xs.Nodup)
    (h : ∀ e, PageEnd key n xs e → e < xs.length → Overlaps key n xs e) {rounds e : Nat}
    (he : PageEnd key n xs e) (hrounds : xs.length ≤ rounds + e) :
    ∀ x ∈ xs, x ∈ walkFrom key n xs rounds e := by
  induction rounds generalizing e with
  | zero =>
      intro x hx
      show x ∈ xs.take e
      rwa [List.take_of_length_le (by omega)]
  | succ rounds ih =>
      by_cases hlt : e < xs.length
      · have hoverlaps := h e he hlt
        have hroom := hoverlaps.room
        rw [walkFrom_succ hnodup hlt (he.pos hn) hoverlaps]
        apply ih (PageEnd.next he hlt)
        simp only [nextEnd]
        omega
      · intro x hx
        apply subset_walk
        rwa [List.take_of_length_le (by omega)]

/-- A complete walk comes by the end of every page. -/
theorem walkFrom_of_pageEnd (hn : 0 < n) (hnodup : xs.Nodup) {rounds e : Nat}
    (h : ∀ x ∈ xs, x ∈ walkFrom key n xs rounds n) (hrounds : xs.length ≤ rounds + n)
    (he : PageEnd key n xs e) :
    ∃ left, xs.length ≤ left + e ∧ ∀ x ∈ xs, x ∈ walkFrom key n xs left e := by
  induction he with
  | first => exact ⟨rounds, hrounds, h⟩
  | @next e he hlt ih =>
      obtain ⟨left, hleft, hall⟩ := ih
      have hoverlaps := overlaps_of_complete hnodup (he.pos hn) hlt hall
      have hroom := hoverlaps.room
      obtain ⟨left, rfl⟩ : ∃ k, left = k + 1 := ⟨left - 1, by omega⟩
      rw [walkFrom_succ hnodup hlt (he.pos hn) hoverlaps] at hall
      refine ⟨left, ?_, hall⟩
      simp only [nextEnd]
      omega

/-- **A walk by an inclusive cursor finds everything exactly when its pages overlap.** -/
theorem walk_complete_iff (key : α → κ) (hn : 0 < n) (hnodup : xs.Nodup) {rounds : Nat}
    (hrounds : xs.length < rounds) :
    (∀ x ∈ xs, x ∈ walk key (fun c => page key n c xs) rounds none []) ↔
      ∀ e, PageEnd key n xs e → e < xs.length → Overlaps key n xs e := by
  obtain ⟨rounds, rfl⟩ : ∃ k, rounds = k + 1 := ⟨rounds - 1, by omega⟩
  by_cases hxs : xs = []
  · subst hxs
    simp
  · rw [walk_first hn hxs]
    constructor
    · intro h e he hlt
      obtain ⟨left, -, hall⟩ := walkFrom_of_pageEnd hn hnodup h (by omega) he
      exact overlaps_of_complete hnodup (he.pos hn) hlt hall
    · intro h
      exact walkFrom_complete hn hnodup h PageEnd.first (by omega)

end Walk

end CursorPages
end Foundation
end Artifacts
