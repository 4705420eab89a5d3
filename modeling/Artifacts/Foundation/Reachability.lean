import Mathlib.Algebra.BigOperators.Group.Finset.Basic
import Mathlib.Algebra.Order.BigOperators.Group.Finset
import Mathlib.Logic.Relation

/-!
# Reachability, pruned walks and worklists

* `ReachFrom next roots x`: a path of `next` leads from one of `roots` to `x`.
* `PrunedFrom next roots keep x`: such a path exists along which everything,
  its ends included, passes the test `keep`.
* `worklist`: the search with a queue and a set of visited elements, and the
  proof that it ends and finds exactly what is reachable.  `Searches` is the same
  loop without a bound.

The neighbours may be computed by a function that fails; the search then ends with its error.
`Searches` is what proofs about the result use, and `worklist_searches` says that enough rounds
make the bounded loop one of these.
-/

namespace Artifacts
namespace Foundation

open Relation

section Reach

variable {α : Type*} {next : α → α → Prop}

/-- Some root leads to `x`. -/
def ReachFrom (next : α → α → Prop) (roots : Set α) (x : α) : Prop :=
  ∃ r ∈ roots, ReflTransGen next r x

theorem ReachFrom.root {roots : Set α} {r : α} (h : r ∈ roots) : ReachFrom next roots r :=
  ⟨r, h, ReflTransGen.refl⟩

theorem ReachFrom.step {roots : Set α} {a b : α} (h : ReachFrom next roots a) (hab : next a b) :
    ReachFrom next roots b := by
  obtain ⟨r, hr, hpath⟩ := h
  exact ⟨r, hr, hpath.tail hab⟩

theorem ReachFrom.mono {roots roots' : Set α} (hsub : roots ⊆ roots') {x : α}
    (h : ReachFrom next roots x) : ReachFrom next roots' x := by
  obtain ⟨r, hr, hpath⟩ := h
  exact ⟨r, hsub hr, hpath⟩

/-- A set that holds the roots and is closed under `next` holds what they reach. -/
theorem ReachFrom.mem_of_closed {roots : Set α} {closed : Set α} (hroots : roots ⊆ closed)
    (hclosed : ∀ a ∈ closed, ∀ b, next a b → b ∈ closed) {x : α}
    (h : ReachFrom next roots x) : x ∈ closed := by
  obtain ⟨r, hr, hpath⟩ := h
  induction hpath with
  | refl => exact hroots hr
  | tail _ hstep ih => exact hclosed _ ih _ hstep

/-- What every step keeps holds of all that is reached. -/
theorem holds_of_reaches {I : α → Prop} (hkeep : ∀ a b, I a → next a b → I b) {a b : α} (ha : I a)
    (h : ReflTransGen next a b) : I b := by
  induction h with
  | refl => exact ha
  | tail _ hstep ih => exact hkeep _ _ ih hstep

/-- A system all of whose runs end comes to a state that has no next one. -/
theorem exists_stuck (hends : WellFounded fun b a => next a b) (a : α) :
    ∃ b, ReflTransGen next a b ∧ ∀ c, ¬ next b c := by
  induction a using hends.induction with
  | _ a ih =>
      by_cases hnext : ∃ c, next a c
      · obtain ⟨c, hac⟩ := hnext
        obtain ⟨b, hpath, hstuck⟩ := ih c hac
        exact ⟨b, ReflTransGen.head hac hpath, hstuck⟩
      · exact ⟨a, ReflTransGen.refl, fun c hac => hnext ⟨c, hac⟩⟩

/-- Reachability along paths that pass a test at every element, the first and the last included. A
walk that turns back at some elements reaches exactly these. -/
inductive PrunedFrom (next : α → α → Prop) (roots : Set α) (keep : α → Prop) : α → Prop where
  | root {r : α} : r ∈ roots → keep r → PrunedFrom next roots keep r
  | step {a b : α} : PrunedFrom next roots keep a → next a b → keep b →
      PrunedFrom next roots keep b

theorem PrunedFrom.keep {roots : Set α} {keep : α → Prop} {x : α}
    (h : PrunedFrom next roots keep x) : keep x := by
  cases h with
  | root _ hkeep => exact hkeep
  | step _ _ hkeep => exact hkeep

/-- **Pruning at a boundary.** Let `excluded` hold the boundary and all it leads
to.  A walk that never enters the boundary and applies a further test finds
everything the roots reach outside of `excluded` exactly when the test accepts
all of it: a path to such an element never meets an excluded one. -/
theorem pruned_complete_iff {roots boundary excluded : Set α} {test : α → Prop}
    (hboundary : boundary ⊆ excluded)
    (hexcluded : ∀ a ∈ excluded, ∀ b, next a b → b ∈ excluded) :
    (∀ x, ReachFrom next roots x → x ∉ excluded →
        PrunedFrom next roots (fun y => y ∉ boundary ∧ test y) x) ↔
      ∀ x, ReachFrom next roots x → x ∉ excluded → test x := by
  constructor
  · intro h x hx hout
    exact (h x hx hout).keep.2
  · rintro h x ⟨r, hr, hpath⟩ hout
    induction hpath with
    | refl =>
        exact PrunedFrom.root hr
          ⟨fun hb => hout (hboundary hb), h r (ReachFrom.root hr) hout⟩
    | @tail b c hpath hstep ih =>
        have hb : b ∉ excluded := fun hb => hout (hexcluded b hb c hstep)
        exact PrunedFrom.step (ih hb) hstep
          ⟨fun hmem => hout (hboundary hmem), h c ⟨r, hr, hpath.tail hstep⟩ hout⟩

end Reach

/-! ### The worklist search -/

section Worklist

variable {α : Type*} [DecidableEq α] {ε : Type*}

/-- The queue loop: pop an element, skip it if it was visited, else mark it and
push its unvisited neighbours.  The first argument bounds the number of pops; the
end of the queue is the head of the list. -/
def worklist (neighbours : α → Except ε (List α)) :
    Nat → List α → List α → Except ε (List α)
  | 0, _, visited => .ok visited
  | _ + 1, [], visited => .ok visited
  | pops + 1, x :: queue, visited =>
      if x ∈ visited then
        worklist neighbours pops queue visited
      else
        match neighbours x with
        | .error e => .error e
        | .ok found =>
            worklist neighbours pops
              ((found.filter fun y => y ∉ x :: visited).reverse ++ queue) (x :: visited)

/-- `y` is among the neighbours of `x`. -/
def Neighbour (neighbours : α → Except ε (List α)) (x y : α) : Prop :=
  ∃ found, neighbours x = .ok found ∧ y ∈ found

/-- How often `x` pushes. -/
def degree (neighbours : α → Except ε (List α)) (x : α) : Nat :=
  match neighbours x with
  | .ok found => found.length
  | .error _ => 0

/-- The loop without a bound on its pops: from this queue and these visited elements it
comes to an end, with this result. -/
inductive Searches (neighbours : α → Except ε (List α)) :
    List α → List α → Except ε (List α) → Prop where
  | finishes {visited : List α} : Searches neighbours [] visited (.ok visited)
  | skips {x : α} {queue visited : List α} {outcome : Except ε (List α)} (hseen : x ∈ visited)
      (hrest : Searches neighbours queue visited outcome) :
      Searches neighbours (x :: queue) visited outcome
  | fails {x : α} {queue visited : List α} {e : ε} (hnew : x ∉ visited)
      (herror : neighbours x = .error e) : Searches neighbours (x :: queue) visited (.error e)
  | expands {x : α} {queue visited found : List α} {outcome : Except ε (List α)}
      (hnew : x ∉ visited) (hfound : neighbours x = .ok found)
      (hrest : Searches neighbours ((found.filter fun y => y ∉ x :: visited).reverse ++ queue)
        (x :: visited) outcome) :
      Searches neighbours (x :: queue) visited outcome

variable {neighbours : α → Except ε (List α)}

/-- What an element pushes is reached with it. -/
theorem reach_pushed {roots : Set α} {x : α} {queue visited found : List α}
    (hfound : neighbours x = .ok found)
    (hqueue : ∀ y ∈ x :: queue, ReachFrom (Neighbour neighbours) roots y) :
    ∀ y ∈ (found.filter fun y => y ∉ x :: visited).reverse ++ queue,
      ReachFrom (Neighbour neighbours) roots y := by
  intro y hy
  rcases List.mem_append.mp hy with hnew | hold
  · have hmem := (List.mem_filter.mp (List.mem_reverse.mp hnew)).1
    exact (hqueue x List.mem_cons_self).step ⟨found, hfound, hmem⟩
  · exact hqueue y (List.mem_cons_of_mem x hold)

/-- **Soundness.** Only reachable elements are visited. -/
theorem Searches.sound {roots : Set α} {queue visited : List α} {outcome : Except ε (List α)}
    (h : Searches neighbours queue visited outcome)
    (hqueue : ∀ x ∈ queue, ReachFrom (Neighbour neighbours) roots x)
    (hvisited : ∀ x ∈ visited, ReachFrom (Neighbour neighbours) roots x)
    {result : List α} (hresult : outcome = .ok result) :
    ∀ x ∈ result, ReachFrom (Neighbour neighbours) roots x := by
  induction h with
  | finishes =>
      cases hresult
      exact hvisited
  | @skips x queue _ _ _ _ ih =>
      exact ih (fun y hy => hqueue y (List.mem_cons_of_mem x hy)) hvisited hresult
  | fails _ _ => cases hresult
  | @expands x queue visited found _ _ hfound _ ih =>
      apply ih (reach_pushed hfound hqueue) _ hresult
      intro y hy
      rcases List.mem_cons.mp hy with rfl | hy
      · exact hqueue y List.mem_cons_self
      · exact hvisited y hy

/-- The pops still to come: the queue, and what unvisited elements may push. -/
def pending (neighbours : α → Except ε (List α)) (domain : Finset α)
    (queue visited : List α) : Nat :=
  queue.length + ∑ x ∈ domain.filter (fun x => x ∉ visited), degree neighbours x

/-- Marking an element releases its share of the bound. -/
theorem sum_unvisited_cons {domain : Finset α} {x : α} {visited : List α}
    (hx : x ∈ domain) (hnew : x ∉ visited) :
    degree neighbours x +
        ∑ y ∈ domain.filter (fun y => y ∉ x :: visited), degree neighbours y =
      ∑ y ∈ domain.filter (fun y => y ∉ visited), degree neighbours y := by
  have hsplit : domain.filter (fun y => y ∉ x :: visited) =
      (domain.filter (fun y => y ∉ visited)).erase x := by
    ext y
    simp only [Finset.mem_filter, Finset.mem_erase, List.mem_cons, not_or]
    tauto
  rw [hsplit]
  exact Finset.add_sum_erase _ _ (Finset.mem_filter.mpr ⟨hx, hnew⟩)

/-- An element that was visited costs its own pop. -/
theorem pending_skips (neighbours : α → Except ε (List α)) (domain : Finset α) (x : α)
    (queue visited : List α) :
    pending neighbours domain (x :: queue) visited =
      pending neighbours domain queue visited + 1 := by
  simp only [pending, List.length_cons]
  omega

/-- An element that is expanded pays for what it pushes. -/
theorem pending_expands {domain : Finset α} {x : α} (queue : List α) {visited found : List α}
    (hx : x ∈ domain) (hnew : x ∉ visited) (hfound : neighbours x = .ok found) :
    pending neighbours domain ((found.filter fun y => y ∉ x :: visited).reverse ++ queue)
        (x :: visited) + 1 ≤ pending neighbours domain (x :: queue) visited := by
  have hdegree : degree neighbours x = found.length := by
    simp [degree, hfound]
  have hsum : degree neighbours x +
        ∑ y ∈ domain.filter (fun y => y ∉ x :: visited), degree neighbours y =
      ∑ y ∈ domain.filter (fun y => y ∉ visited), degree neighbours y :=
    sum_unvisited_cons hx hnew
  have hpushed : (found.filter fun y => y ∉ x :: visited).length ≤ found.length :=
    List.length_filter_le _ _
  simp only [pending, List.length_append, List.length_reverse, List.length_cons]
  omega

/-- **Termination.** With pops enough for a closed domain the bound is not met: the loop
comes to its end. -/
theorem worklist_searches {domain : Finset α}
    (hdomain : ∀ x ∈ domain, ∀ y, Neighbour neighbours x y → y ∈ domain)
    {pops : Nat} {queue visited : List α} (hqueue : ∀ x ∈ queue, x ∈ domain)
    (hpops : pending neighbours domain queue visited ≤ pops) :
    Searches neighbours queue visited (worklist neighbours pops queue visited) := by
  induction pops generalizing queue visited with
  | zero =>
      have hempty : queue = [] := by
        apply List.length_eq_zero_iff.mp
        simp only [pending] at hpops
        omega
      subst hempty
      exact Searches.finishes
  | succ pops ih =>
      cases queue with
      | nil => exact Searches.finishes
      | cons x queue =>
          have hx : x ∈ domain := hqueue x List.mem_cons_self
          have hrest : ∀ y ∈ queue, y ∈ domain :=
            fun y hy => hqueue y (List.mem_cons_of_mem x hy)
          rw [worklist]
          split_ifs with hseen
          · have hcost := pending_skips neighbours domain x queue visited
            exact Searches.skips hseen (ih hrest (by omega))
          · split
            · rename_i e herror
              exact Searches.fails hseen herror
            · rename_i found hfound
              have hcost := pending_expands queue hx hseen hfound
              refine Searches.expands hseen hfound (ih ?_ (by omega))
              intro y hy
              rcases List.mem_append.mp hy with hnew | hold
              · exact hdomain x hx y
                  ⟨found, hfound, (List.mem_filter.mp (List.mem_reverse.mp hnew)).1⟩
              · exact hrest y hold

/-- Each element is visited once. -/
theorem Searches.nodup {queue visited : List α} {outcome : Except ε (List α)}
    (h : Searches neighbours queue visited outcome) (hvisited : visited.Nodup)
    {result : List α} (hresult : outcome = .ok result) : result.Nodup := by
  induction h with
  | finishes =>
      cases hresult
      exact hvisited
  | skips _ _ ih => exact ih hvisited hresult
  | fails _ _ => cases hresult
  | expands hnew _ _ ih => exact ih (List.nodup_cons.mpr ⟨hnew, hvisited⟩) hresult

/-- What a pop leaves open lies in the queue. -/
theorem open_pop {x : α} {found visited queue : List α} (hfound : neighbours x = .ok found)
    (hinv : ∀ z ∈ visited, ∀ y, Neighbour neighbours z y → y ∈ visited ∨ y ∈ x :: queue) :
    ∀ z ∈ x :: visited, ∀ y, Neighbour neighbours z y → y ∈ x :: visited ∨
      y ∈ (found.filter fun y => y ∉ x :: visited).reverse ++ queue := by
  intro z hz y hzy
  by_cases hy : y ∈ x :: visited
  · exact Or.inl hy
  · refine Or.inr (List.mem_append.mpr ?_)
    rcases List.mem_cons.mp hz with rfl | hz
    · obtain ⟨found', hfound', hmem⟩ := hzy
      rw [hfound] at hfound'
      cases hfound'
      exact Or.inl (List.mem_reverse.mpr (List.mem_filter.mpr ⟨hmem, by simpa using hy⟩))
    · rcases hinv z hz y hzy with hvis | hq
      · exact absurd (List.mem_cons_of_mem x hvis) hy
      · rcases List.mem_cons.mp hq with rfl | hq
        · exact absurd List.mem_cons_self hy
        · exact Or.inr hq

/-- **Completeness.** At its end the search has visited everything the queue reaches: every
neighbour of a visited element is visited. -/
theorem Searches.closed {queue visited : List α} {outcome : Except ε (List α)}
    (h : Searches neighbours queue visited outcome)
    (hinv : ∀ x ∈ visited, ∀ y, Neighbour neighbours x y → y ∈ visited ∨ y ∈ queue)
    {result : List α} (hresult : outcome = .ok result) :
    (∀ x ∈ visited, x ∈ result) ∧ (∀ x ∈ queue, x ∈ result) ∧
      ∀ x ∈ result, ∀ y, Neighbour neighbours x y → y ∈ result := by
  induction h with
  | finishes =>
      cases hresult
      exact ⟨fun _ hx => hx, fun _ hx => absurd hx List.not_mem_nil,
        fun x hx y hxy => (hinv x hx y hxy).resolve_right List.not_mem_nil⟩
  | @skips x queue visited _ hseen _ ih =>
      have hinv' : ∀ z ∈ visited, ∀ y, Neighbour neighbours z y → y ∈ visited ∨ y ∈ queue := by
        intro z hz y hzy
        rcases hinv z hz y hzy with hy | hy
        · exact Or.inl hy
        · rcases List.mem_cons.mp hy with rfl | hy
          · exact Or.inl hseen
          · exact Or.inr hy
      obtain ⟨hvisited, hqueue, hclosed⟩ := ih hinv' hresult
      refine ⟨hvisited, ?_, hclosed⟩
      intro y hy
      rcases List.mem_cons.mp hy with rfl | hy
      · exact hvisited y hseen
      · exact hqueue y hy
  | fails _ _ => cases hresult
  | @expands x queue visited found _ _ hfound _ ih =>
      obtain ⟨hvisited, hqueue, hclosed⟩ := ih (open_pop hfound hinv) hresult
      refine ⟨fun y hy => hvisited y (List.mem_cons_of_mem x hy), ?_, hclosed⟩
      intro y hy
      rcases List.mem_cons.mp hy with rfl | hy
      · exact hvisited y List.mem_cons_self
      · exact hqueue y (List.mem_append_right _ hy)

/-- **The worklist search finds exactly what is reachable.** -/
theorem mem_worklist_iff {domain : Finset α}
    (hdomain : ∀ x ∈ domain, ∀ y, Neighbour neighbours x y → y ∈ domain)
    {pops : Nat} {seed : α} {result : List α} (hseed : seed ∈ domain)
    (hpops : 1 + ∑ x ∈ domain, degree neighbours x ≤ pops)
    (h : worklist neighbours pops [seed] [] = .ok result) (x : α) :
    x ∈ result ↔ ReflTransGen (Neighbour neighbours) seed x := by
  have hpending : pending neighbours domain [seed] [] ≤ pops := by
    simpa [pending] using hpops
  have hends := worklist_searches hdomain (by simpa using hseed) hpending
  obtain ⟨-, hq, hc⟩ := hends.closed (by simp) h
  constructor
  · intro hx
    have hroot : ∀ y ∈ [seed], ReachFrom (Neighbour neighbours) {seed} y :=
      fun y hy => ReachFrom.root (List.mem_singleton.mp hy)
    obtain ⟨r, rfl, hpath⟩ := hends.sound hroot (by simp) h x hx
    exact hpath
  · intro hpath
    have hreach : ReachFrom (Neighbour neighbours) {seed} x := ⟨seed, rfl, hpath⟩
    have hseed' : ({seed} : Set α) ⊆ {y | y ∈ result} :=
      Set.singleton_subset_iff.mpr (hq seed (by simp))
    exact hreach.mem_of_closed hseed' hc

/-- The search fails only where a reachable element has no neighbours to offer. -/
theorem worklist_error {roots : Set α} {pops : Nat} {queue visited : List α} {e : ε}
    (hqueue : ∀ x ∈ queue, ReachFrom (Neighbour neighbours) roots x)
    (h : worklist neighbours pops queue visited = .error e) :
    ∃ x, ReachFrom (Neighbour neighbours) roots x ∧ neighbours x = .error e := by
  induction pops generalizing queue visited with
  | zero => cases h
  | succ pops ih =>
      cases queue with
      | nil => cases h
      | cons x queue =>
          rw [worklist] at h
          split_ifs at h with hseen
          · exact ih (fun y hy => hqueue y (List.mem_cons_of_mem x hy)) h
          · split at h
            · rename_i e' herror
              cases h
              exact ⟨x, hqueue x List.mem_cons_self, herror⟩
            · rename_i found hfound
              exact ih (reach_pushed hfound hqueue) h

end Worklist

end Foundation
end Artifacts
