import Artifacts.Rest.Repos
import Mathlib.Data.List.Perm.Subperm
import Mathlib.Logic.Relation

/-!
# The order of a cascade

`cascade_delete_order` goes level by level through the forks of a repo.  The order it
returns is complete (with a repo it has all forks of it) and every fork stands before its
source, apart from the root: only the root can be a fork of one of its dependents.  So
where no repo is its own ancestor, the order holds of the root as well.

`Tiers` is the invariant of the loop: the levels so far are closed towards their forks.  Each level
takes repos that were not seen before, so the loop ends on every disk.
-/

namespace Artifacts
namespace Rest

open Relation Storage

/-- One repo is a fork of another, by what `list_forks_of` sees: the directory and the cache, which
may be behind the files. -/
def ForkOf (names : List (Option String)) (cache : String → Option String) (child source : String) :
    Prop :=
  some (child ++ ".git") ∈ names ∧ child ≠ source ∧ cache child = some source

/-- The children of a list of repos stand in front of it. -/
def DependentsFirst (names : List (Option String)) (cache : String → Option String)
    (order : List String) : Prop :=
  ∀ front source back, order = front ++ source :: back → ∀ child,
    ForkOf names cache child source → child ∈ front

/-- The same for the children other than the root. -/
def OthersFirst (names : List (Option String)) (cache : String → Option String) (id : String)
    (order : List String) : Prop :=
  ∀ front source back, order = front ++ source :: back → ∀ child, child ≠ id →
    ForkOf names cache child source → child ∈ front

/-- No repo is its own ancestor: sources have a smaller rank. Any rank will do, for instance the
time of creation. -/
def Ranked (names : List (Option String)) (cache : String → Option String) (rank : String → Nat) :
    Prop :=
  ∀ child source, ForkOf names cache child source → rank source < rank child

variable {names : List (Option String)} {cache : String → Option String} {id : String}

/-! ### One level -/

/-- A state after some pushes: the same new ids behind both lists. -/
def Pushed (allowed : String → Prop) (before after : List String × List String) : Prop :=
  ∃ fresh, after = (before.1 ++ fresh, before.2 ++ fresh) ∧ fresh.Nodup ∧
    ∀ x ∈ fresh, x ∉ before.2 ∧ allowed x

theorem Pushed.refl (allowed : String → Prop) (state : List String × List String) :
    Pushed allowed state state :=
  ⟨[], by simp, List.nodup_nil, nofun⟩

theorem Pushed.trans {allowed : String → Prop} {a b c : List String × List String}
    (hab : Pushed allowed a b) (hbc : Pushed allowed b c) : Pushed allowed a c := by
  obtain ⟨first, rfl, hfirst, hnew⟩ := hab
  obtain ⟨second, rfl, hsecond, hnew'⟩ := hbc
  refine ⟨first ++ second, by simp [List.append_assoc], ?_, ?_⟩
  · refine List.nodup_append.mpr ⟨hfirst, hsecond, ?_⟩
    intro x hx y hy heq
    exact (hnew' y hy).1 (List.mem_append_right _ (heq ▸ hx))
  · intro x hx
    rcases List.mem_append.mp hx with hx | hx
    · exact hnew x hx
    · exact ⟨fun hmem => (hnew' x hx).1 (List.mem_append_left _ hmem), (hnew' x hx).2⟩

theorem Pushed.mono {allowed allowed' : String → Prop} {a b : List String × List String}
    (h : Pushed allowed a b) (hallowed : ∀ x, allowed x → allowed' x) : Pushed allowed' a b := by
  obtain ⟨fresh, heq, hnodup, hnew⟩ := h
  exact ⟨fresh, heq, hnodup, fun x hx => ⟨(hnew x hx).1, hallowed x (hnew x hx).2⟩⟩

/-- What was seen stays seen. -/
theorem Pushed.seen {allowed : String → Prop} {a b : List String × List String}
    (h : Pushed allowed a b) {x : String} (hx : x ∈ a.2) : x ∈ b.2 := by
  obtain ⟨fresh, rfl, -⟩ := h
  exact List.mem_append_left _ hx

theorem pushUnseen_pushed {allowed : String → Prop} (state : List String × List String)
    {child : String} (hchild : allowed child) :
    Pushed allowed state (pushUnseen state child) ∧ child ∈ (pushUnseen state child).2 := by
  unfold pushUnseen
  by_cases hseen : state.2.contains child = true
  · rw [if_pos hseen]
    exact ⟨Pushed.refl _ state, List.contains_iff_mem.mp hseen⟩
  · rw [if_neg hseen]
    have hnew : child ∉ state.2 := fun hmem => hseen (List.contains_iff_mem.mpr hmem)
    refine ⟨⟨[child], rfl, List.nodup_singleton child, ?_⟩, by simp⟩
    intro x hx
    rw [List.mem_singleton] at hx
    subst hx
    exact ⟨hnew, hchild⟩

theorem foldl_pushUnseen (allowed : String → Prop) (children : List String)
    (state : List String × List String) (hchildren : ∀ x ∈ children, allowed x) :
    Pushed allowed state (children.foldl pushUnseen state) ∧
      ∀ x ∈ children, x ∈ (children.foldl pushUnseen state).2 := by
  induction children generalizing state with
  | nil => exact ⟨Pushed.refl _ state, nofun⟩
  | cons child children ih =>
      obtain ⟨hstep, hmem⟩ := pushUnseen_pushed state (hchildren child List.mem_cons_self)
      obtain ⟨hrest, hall⟩ := ih (pushUnseen state child)
        fun x hx => hchildren x (List.mem_cons_of_mem child hx)
      refine ⟨hstep.trans hrest, ?_⟩
      intro x hx
      rcases List.mem_cons.mp hx with hx | hx
      · subst hx
        exact hrest.seen hmem
      · exact hall x hx

/-- **Specification of one level**: new ids, each a fork of a repo of the level above,
and afterwards every such fork has been seen. -/
theorem nextLevel_spec (names : List (Option String)) (cache : String → Option String)
    (repos : List String) (state : List String × List String) :
    ∃ state', nextLevel (.ok names) cache repos state = .ok state' ∧
      Pushed (fun x => ∃ p ∈ repos, ForkOf names cache x p) state state' ∧
      ∀ p ∈ repos, ∀ x, ForkOf names cache x p → x ∈ state'.2 := by
  induction repos generalizing state with
  | nil => exact ⟨state, rfl, Pushed.refl _ state, nofun⟩
  | cons repo repos ih =>
      have hforks : listForksOf (.ok names) cache repo = .ok (names.filterMap (forkOf cache repo)) :=
        rfl
      have hmem := mem_listForksOf hforks
      obtain ⟨hstep, hall⟩ := foldl_pushUnseen
        (fun x => ∃ p ∈ repo :: repos, ForkOf names cache x p)
        (names.filterMap (forkOf cache repo)) state
        fun x hx => ⟨repo, List.mem_cons_self, (hmem x).mp hx⟩
      obtain ⟨state', heq, hrest, hseen⟩ :=
        ih ((names.filterMap (forkOf cache repo)).foldl pushUnseen state)
      refine ⟨state', ?_, hstep.trans (hrest.mono ?_), ?_⟩
      · rw [nextLevel, hforks]
        exact heq
      · intro x hx
        obtain ⟨p, hp, hfork⟩ := hx
        exact ⟨p, List.mem_cons_of_mem repo hp, hfork⟩
      · intro p hp x hfork
        rcases List.mem_cons.mp hp with hp | hp
        · subst hp
          exact hrest.seen (hall x ((hmem x).mpr hfork))
        · exact hseen p hp x hfork

/-! ### All levels -/

/-- The levels found so far, the deepest one first: each is made of forks of the one
below it, and no id is in two of them. -/
structure Tiers (names : List (Option String)) (cache : String → Option String) (id : String)
    (top : List String) (below : List (List String)) (seen : List String) : Prop where
  nodup : (top :: below).flatten.Nodup
  mem_seen : ∀ x, x ∈ seen ↔ x ∈ (top :: below).flatten
  root : id ∈ (top :: below).flatten
  /-- Every other member is a fork of a member of the level below. -/
  source : ∀ x ∈ (top :: below).flatten, x = id ∨ ∃ p ∈ below.flatten, ForkOf names cache x p
  depends : ∀ x ∈ (top :: below).flatten, ReflTransGen (ForkOf names cache) x id
  /-- Below the deepest level nothing is missing. -/
  closed : ∀ front p back, below.flatten = front ++ p :: back → ∀ child, child ≠ id →
    ForkOf names cache child p → child ∈ top ++ front

/-- A fork of a repo of the deepest level is new, or it is the root. -/
theorem Tiers.unseen {top : List String} {below : List (List String)} {seen : List String}
    (h : Tiers names cache id top below seen) {child p : String} (hp : p ∈ top)
    (hchild : child ≠ id) (hfork : ForkOf names cache child p) : child ∉ seen := by
  intro hseen
  have hmem := (h.mem_seen child).mp hseen
  rcases h.source child hmem with hroot | ⟨q, hq, hfork'⟩
  · exact hchild hroot
  · have hqp : q = p := Option.some.inj (hfork'.2.2.symm.trans hfork.2.2)
    subst hqp
    exact (List.nodup_append.mp h.nodup).2.2 q hp q hq rfl

/-- One more level. -/
theorem Tiers.next {top : List String} {below : List (List String)}
    {seen next seen' : List String} (h : Tiers names cache id top below seen)
    (hpushed : Pushed (fun x => ∃ p ∈ top, ForkOf names cache x p) ([], seen) (next, seen'))
    (hall : ∀ p ∈ top, ∀ x, ForkOf names cache x p → x ∈ seen') :
    seen' = seen ++ next ∧ Tiers names cache id next (top :: below) seen' := by
  obtain ⟨fresh, heq, hnodup, hnew⟩ := hpushed
  obtain ⟨rfl, rfl⟩ : next = fresh ∧ seen' = seen ++ fresh := by
    rw [Prod.mk.injEq] at heq
    exact heq
  refine ⟨rfl, ?_⟩
  constructor
  · refine List.nodup_append.mpr ⟨hnodup, h.nodup, ?_⟩
    intro x hx y hy hxy
    exact (hnew x hx).1 ((h.mem_seen x).mpr (hxy ▸ hy))
  · intro x
    rw [List.flatten_cons, List.mem_append, List.mem_append, h.mem_seen, or_comm]
  · exact List.mem_append_right _ h.root
  · intro x hx
    rcases List.mem_append.mp hx with hx | hx
    · obtain ⟨p, hp, hfork⟩ := (hnew x hx).2
      exact Or.inr ⟨p, List.mem_append_left _ hp, hfork⟩
    · rcases h.source x hx with hroot | ⟨p, hp, hfork⟩
      · exact Or.inl hroot
      · exact Or.inr ⟨p, List.mem_append_right _ hp, hfork⟩
  · intro x hx
    rcases List.mem_append.mp hx with hx | hx
    · obtain ⟨p, hp, hfork⟩ := (hnew x hx).2
      exact ReflTransGen.head hfork (h.depends p (List.mem_append_left _ hp))
    · exact h.depends x hx
  · -- forks of a level are in front of it: those of `top` are new now, the others were before
    intro front p back hsplit child hchild hfork
    rcases List.append_eq_append_iff.mp hsplit.symm with ⟨rest, htop, hback⟩ | ⟨rest, hfront, hback⟩
    · -- `p` is in the level that was just worked on
      cases rest with
      | nil =>
          rw [List.append_nil] at htop
          rw [List.nil_append] at hback
          have hp := h.closed [] p back hback.symm child hchild hfork
          rw [List.append_nil] at hp
          exact List.mem_append_right _ (htop ▸ hp)
      | cons q rest =>
          rw [List.cons_append, List.cons.injEq] at hback
          obtain ⟨rfl, -⟩ := hback
          have hp : p ∈ top := by
            rw [htop]
            simp
          have hseen := hall p hp child hfork
          rcases List.mem_append.mp hseen with hold | hfresh
          · exact absurd hold (h.unseen hp hchild hfork)
          · exact List.mem_append_left _ hfresh
    · have hp := h.closed rest p back hback child hchild hfork
      rw [hfront]
      exact List.mem_append_right _ hp

/-- When no new forks are found, nothing is missing at all. -/
theorem Tiers.othersFirst {top : List String} {below : List (List String)}
    {seen : List String} (h : Tiers names cache id top below seen)
    (hall : ∀ p ∈ top, ∀ x, ForkOf names cache x p → x ∈ seen) :
    OthersFirst names cache id (top :: below).flatten := by
  intro front p back hsplit child hchild hfork
  rw [List.flatten_cons] at hsplit
  rcases List.append_eq_append_iff.mp hsplit.symm with ⟨rest, htop, hback⟩ | ⟨rest, hfront, hback⟩
  · cases rest with
    | nil =>
        rw [List.append_nil] at htop
        rw [List.nil_append] at hback
        have hp := h.closed [] p back hback.symm child hchild hfork
        rw [List.append_nil] at hp
        exact htop ▸ hp
    | cons q rest =>
        rw [List.cons_append, List.cons.injEq] at hback
        obtain ⟨rfl, -⟩ := hback
        have hp : p ∈ top := by
          rw [htop]
          simp
        exact absurd (hall p hp child hfork) (h.unseen hp hchild hfork)
  · have hp := h.closed rest p back hback child hchild hfork
    rw [hfront]
    exact hp

/-- The ids that were seen are directories, apart from the root. -/
theorem Tiers.seen_length {top : List String} {below : List (List String)} {seen : List String}
    (h : Tiers names cache id top below seen) (hnodup : seen.Nodup) :
    seen.length ≤ names.length + 1 := by
  have hsub : seen.map (fun x => some (x ++ ".git")) ⊆ some (id ++ ".git") :: names := by
    intro entry hentry
    obtain ⟨x, hx, rfl⟩ := List.mem_map.mp hentry
    rcases h.source x ((h.mem_seen x).mp hx) with hroot | ⟨p, -, hfork⟩
    · rw [hroot]
      exact List.mem_cons_self
    · exact List.mem_cons_of_mem _ hfork.1
  have hinj : (seen.map fun x => some (x ++ ".git")).Nodup :=
    hnodup.map fun a b hab => gitName_inj.mp (Option.some.inj hab)
  have hlength := (hinj.subperm hsub).length_le
  rwa [List.length_map, List.length_cons] at hlength

/-- The levels that are there stay there. -/
theorem cascadeLevels_suffix {bound : Nat} {levels out : List (List String)} {seen : List String}
    (h : cascadeLevels (.ok names) cache bound levels seen = .ok out) : levels <:+ out := by
  induction bound generalizing levels seen with
  | zero =>
      cases h
      exact List.suffix_rfl
  | succ bound ih =>
      rw [cascadeLevels] at h
      split at h
      · cases h
      · split_ifs at h
        · cases h
          exact List.suffix_rfl
        · exact (List.suffix_cons _ levels).trans (ih h)

/-- **The levels end**: with more rounds than there are directories they are complete, and
further rounds change nothing. -/
theorem cascadeLevels_spec (bound : Nat) {top : List String} {below : List (List String)}
    {seen : List String} (h : Tiers names cache id top below seen) (hnodup : seen.Nodup)
    (hbound : names.length + 2 ≤ bound + seen.length) :
    ∃ top' below' seen', (∀ more, cascadeLevels (.ok names) cache (bound + more) (top :: below)
        seen = .ok (top' :: below')) ∧
      Tiers names cache id top' below' seen' ∧
      OthersFirst names cache id (top' :: below').flatten := by
  induction bound generalizing top below seen with
  | zero =>
      -- there are no more directories than that
      have hlength := h.seen_length hnodup
      omega
  | succ bound ih =>
      obtain ⟨⟨next, seen'⟩, heq, hpushed, hall⟩ :=
        nextLevel_spec names cache top ([], seen)
      obtain ⟨hseen', hnext⟩ := h.next hpushed hall
      by_cases hempty : next.isEmpty = true
      · have hnil : next = [] := List.isEmpty_iff.mp hempty
        have hsame : seen' = seen := by rw [hseen', hnil, List.append_nil]
        rw [hsame] at hall
        refine ⟨top, below, seen, ?_, h, h.othersFirst hall⟩
        intro more
        rw [Nat.add_right_comm, cascadeLevels, List.headD_cons, heq]
        dsimp only
        rw [if_pos hempty]
      · have hpos : 0 < next.length :=
          List.length_pos_iff.mpr fun hnil => hempty (List.isEmpty_iff.mpr hnil)
        have hnodup' : seen'.Nodup := by
          obtain ⟨fresh, hfresh, hfreshNodup, hnew⟩ := hpushed
          obtain ⟨-, rfl⟩ := Prod.mk.inj hfresh
          refine List.nodup_append.mpr ⟨hnodup, hfreshNodup, ?_⟩
          intro x hx y hy hxy
          exact (hnew y hy).1 (hxy ▸ hx)
        have hbound' : names.length + 2 ≤ bound + seen'.length := by
          rw [hseen', List.length_append]
          omega
        obtain ⟨top', below', seen'', hrounds, htiers, hfirst⟩ := ih hnext hnodup' hbound'
        refine ⟨top', below', seen'', ?_, htiers, hfirst⟩
        intro more
        rw [Nat.add_right_comm, cascadeLevels, List.headD_cons, heq]
        dsimp only
        rw [if_neg hempty]
        exact hrounds more

/-- **The order of a cascade**: it holds the repo, at its end, and what depends on it and
nothing else, and each fork but the repo itself stands before its source. -/
theorem cascadeDeleteOrder_levels (names : List (Option String)) (cache : String → Option String)
    (id : String) :
    ∃ levels, (∀ bound, names.length < bound →
        cascadeLevels (.ok names) cache bound [[id]] [id] = .ok levels) ∧
      cascadeDeleteOrder (.ok names) cache id = .ok levels.flatten ∧
      (∃ dependents, levels.flatten = dependents ++ [id]) ∧ levels.flatten.Nodup ∧
      (∀ x ∈ levels.flatten, ReflTransGen (ForkOf names cache) x id) ∧
      OthersFirst names cache id levels.flatten := by
  have hstart : Tiers names cache id [id] [] [id] := by
    constructor
    · exact List.nodup_singleton id
    · intro x
      exact Iff.rfl
    · exact List.mem_cons_self
    · intro x hx
      exact Or.inl (List.mem_singleton.mp hx)
    · intro x hx
      rw [List.mem_singleton.mp hx]
    · intro front p back hsplit
      exact absurd hsplit.symm (by simp)
  obtain ⟨top, below, seen, hrounds, htiers, hfirst⟩ :=
    cascadeLevels_spec (names.length + 1) hstart (List.nodup_singleton id) (Nat.le_refl _)
  have hlevels : cascadeLevels (.ok names) cache (names.length + 1) [[id]] [id] =
      .ok (top :: below) := hrounds 0
  refine ⟨top :: below, ?_, ?_, ?_, htiers.nodup, htiers.depends, hfirst⟩
  · intro bound hbound
    have hmore := hrounds (bound - (names.length + 1))
    rwa [Nat.add_sub_cancel' hbound] at hmore
  · exact Result.bind_eq_ok.mpr ⟨_, hlevels, rfl⟩
  · obtain ⟨deeper, hdeeper⟩ := cascadeLevels_suffix hlevels
    refine ⟨deeper.flatten, ?_⟩
    rw [← hdeeper]
    simp

theorem rank_le_of_depends {rank : String → Nat} (hrank : Ranked names cache rank) {x : String}
    (h : ReflTransGen (ForkOf names cache) x id) : rank id ≤ rank x := by
  induction h using ReflTransGen.head_induction_on with
  | refl => exact Nat.le_refl _
  | head hstep _ ih => exact Nat.le_of_lt (Nat.lt_of_le_of_lt ih (hrank _ _ hstep))

/-- Where no repo is its own ancestor, the root is no exception. -/
theorem cascadeDeleteOrder_spec {rank : String → Nat} (hrank : Ranked names cache rank)
    (id : String) :
    ∃ order, cascadeDeleteOrder (.ok names) cache id = .ok order ∧ id ∈ order ∧ order.Nodup ∧
      (∀ x ∈ order, ReflTransGen (ForkOf names cache) x id) ∧
      DependentsFirst names cache order := by
  obtain ⟨levels, -, horder, ⟨dependents, hlast⟩, hnodup, hdepends, hothers⟩ :=
    cascadeDeleteOrder_levels names cache id
  refine ⟨levels.flatten, horder, ?_, hnodup, hdepends, ?_⟩
  · rw [hlast]
    simp
  · intro front source back hsplit child hfork
    refine hothers front source back hsplit child ?_ hfork
    -- the root would be a fork of one of its dependents
    intro hroot
    have hsource : source ∈ levels.flatten := by
      rw [hsplit]
      simp
    have hle := rank_le_of_depends hrank (hdepends source hsource)
    have hlt := hrank child source hfork
    rw [hroot] at hlt
    omega

end Rest
end Artifacts
