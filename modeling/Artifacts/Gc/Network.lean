import Artifacts.Foundation.Reachability
import Artifacts.Storage.Alternates
import Artifacts.Storage.Disk

/-!
# The alternates network

`networkAround` collects the repos connected to a seed: from each repo it goes up
to the source and down to the forks.  On a disk whose alternates links end in
directories that exist, it finds exactly the connected component of the seed.

`CacheFresh` says that the cache answers as the disk would.  `mem_networkAround` is the result that
the collections use; it holds of every order in which the directory lists its repos.
-/

namespace Artifacts
namespace Gc

open Foundation Relation Storage

/-- The source a repo's alternates file resolves to now. -/
def sourceOf (paths : Paths) (disk : Disk) (id : String) : Option String :=
  resolve paths (disk.alternates id)

/-- One of two repos is the source of the other. -/
def Linked (paths : Paths) (disk : Disk) (a b : String) : Prop :=
  sourceOf paths disk a = some b ∨ sourceOf paths disk b = some a

/-- The alternates-connected component of a repo: links are followed both ways, so the forks of a
fork belong to it, and their sources. -/
def Network (paths : Paths) (disk : Disk) (seed : String) (id : String) : Prop :=
  ReflTransGen (Linked paths disk) seed id

/-- The source and the forks of a repo, as the loop pushes them. -/
def neighboursOf (readDir : Except String (List (Option String))) (cache : String → Option String)
    (id : String) : Result (List String) :=
  match listForksOf readDir cache id with
  | .error e => .error (.io e)
  | .ok children => .ok ((cache id).toList ++ children)

/-- A bound on the pops of the loop: each repo is expanded once and pushes its
source and at most all the others. -/
def popBound (names : List (Option String)) : Nat :=
  1 + (names.length + 1) * (names.length + 1)

/-- `network_around`. It reads the directory once for each member that it expands, asks the cache
for every repo in it, and stops with the first error of a read. -/
def networkAround (readDir : Except String (List (Option String)))
    (cache : String → Option String) (seed : String) : Result (List String) :=
  worklist (neighboursOf readDir cache) (popBound (readDir.toOption.getD [])) [seed] []

/-! ### The component -/

variable {paths : Paths} {disk : Disk} {cache : String → Option String}

/-- A directory that `canonicalize` finds is there. -/
def PathsExist (paths : Paths) (disk : Disk) : Prop :=
  ∀ root target name, paths.canonRoot = some root →
    paths.canonicalize target = some (root ++ [name, "objects"]) → some name ∈ disk.names

/-- The cache answers what a fresh resolution answers, for every id. When that is so is the subject
of the modules on the cache. -/
def CacheFresh (paths : Paths) (disk : Disk) (cache : String → Option String) : Prop :=
  ∀ id, cache id = sourceOf paths disk id

/-- A repo with a source is a directory. -/
theorem listed_of_sourceOf {id sourceId : String} (h : sourceOf paths disk id = some sourceId) :
    some (id ++ ".git") ∈ disk.names := by
  apply disk.listed id
  unfold sourceOf Disk.alternates at h
  cases hrepo : disk.repo id with
  | none =>
      rw [hrepo] at h
      cases h
  | some dir => rfl

/-- A source is a directory. -/
theorem listed_source (hpaths : PathsExist paths disk) {id sourceId : String}
    (h : sourceOf paths disk id = some sourceId) : some (sourceId ++ ".git") ∈ disk.names := by
  obtain ⟨root, target, hroot, htarget⟩ := resolve_eq_some h
  exact hpaths root target _ hroot htarget

/-- What the loop pushes for a repo is what the repo is linked to. -/
theorem neighbour_iff (hcache : CacheFresh paths disk cache) (a b : String) :
    Neighbour (neighboursOf (.ok disk.names) cache) a b ↔ Linked paths disk a b := by
  constructor
  · rintro ⟨found, hfound, hb⟩
    unfold neighboursOf at hfound
    split at hfound
    · cases hfound
    · rename_i children hchildren
      cases hfound
      rcases List.mem_append.mp hb with hup | hdown
      · exact Or.inl ((hcache a).symm.trans (Option.mem_toList.mp hup))
      · obtain ⟨-, -, hsource⟩ := (mem_listForksOf hchildren b).mp hdown
        exact Or.inr ((hcache b).symm.trans hsource)
  · intro hlinked
    refine ⟨(cache a).toList ++ disk.names.filterMap (forkOf cache a), rfl, ?_⟩
    rcases hlinked with hup | hdown
    · exact List.mem_append_left _ (Option.mem_toList.mpr ((hcache a).trans hup))
    · by_cases hself : b = a
      · -- a repo that is its own source is pushed as the source
        subst hself
        exact List.mem_append_left _ (Option.mem_toList.mpr ((hcache b).trans hdown))
      · exact List.mem_append_right _ ((mem_listForksOf rfl b).mpr
          ⟨listed_of_sourceOf hdown, hself, (hcache b).trans hdown⟩)

/-- The ids of the directory entries. -/
def siblings (names : List (Option String)) : List String :=
  names.filterMap fun name => name.bind fun nameStr => stripSuffix nameStr ".git"

theorem mem_siblings {names : List (Option String)} {id : String} :
    id ∈ siblings names ↔ some (id ++ ".git") ∈ names := by
  unfold siblings
  rw [List.mem_filterMap]
  constructor
  · rintro ⟨name, hname, hid⟩
    obtain ⟨nameStr, rfl, hstrip⟩ := Option.bind_eq_some_iff.mp hid
    obtain rfl := stripSuffix_eq_some.mp hstrip
    exact hname
  · intro h
    exact ⟨_, h, stripSuffix_eq_some.mpr rfl⟩

theorem degree_neighboursOf_le (names : List (Option String)) (id : String) :
    degree (neighboursOf (.ok names) cache) id ≤ names.length + 1 := by
  have hforks : (names.filterMap (forkOf cache id)).length ≤ names.length :=
    List.length_filterMap_le _ _
  have hup : (cache id).toList.length ≤ 1 := by
    cases cache id <;> simp
  simp only [degree, neighboursOf, listForksOf, List.length_append]
  omega

/-- The bound on the pops is enough. -/
theorem sum_degree_le_popBound (names : List (Option String)) (seed : String) :
    1 + ∑ id ∈ (seed :: siblings names).toFinset,
        degree (neighboursOf (.ok names) cache) id ≤ popBound names := by
  have hcard : (seed :: siblings names).toFinset.card ≤ names.length + 1 := by
    refine (List.toFinset_card_le _).trans ?_
    have hsiblings : (siblings names).length ≤ names.length := List.length_filterMap_le _ _
    simpa using hsiblings
  have hsum : ∑ id ∈ (seed :: siblings names).toFinset,
      degree (neighboursOf (.ok names) cache) id ≤
        (seed :: siblings names).toFinset.card * (names.length + 1) :=
    Finset.sum_le_card_nsmul _ _ _ fun id _ => degree_neighboursOf_le names id
  have hmul := Nat.mul_le_mul_right (names.length + 1) hcard
  unfold popBound
  omega

/-- The loop ends without an error where the directory can be read. -/
theorem networkAround_ok (names : List (Option String)) (cache : String → Option String)
    (seed : String) : ∃ network, networkAround (.ok names) cache seed = .ok network := by
  cases h : networkAround (.ok names) cache seed with
  | ok network => exact ⟨network, rfl⟩
  | error e =>
      have hroot : ∀ x ∈ [seed], ReachFrom (Neighbour (neighboursOf (.ok names) cache)) {seed} x :=
        fun x hx => ReachFrom.root (List.mem_singleton.mp hx)
      obtain ⟨x, -, herror⟩ := worklist_error hroot h
      cases herror

/-- Sources are directories. -/
def SourcesListed (paths : Paths) (disk : Disk) : Prop :=
  ∀ id sourceId, sourceOf paths disk id = some sourceId → some (sourceId ++ ".git") ∈ disk.names

/-- The loop stays among the seed and the directories. -/
theorem mem_domain_of_neighbour (hsources : SourcesListed paths disk)
    (hcache : CacheFresh paths disk cache) (seed : String) {x y : String}
    (h : Neighbour (neighboursOf (.ok disk.names) cache) x y) :
    y ∈ (seed :: siblings disk.names).toFinset := by
  refine List.mem_toFinset.mpr (List.mem_cons_of_mem _ (mem_siblings.mpr ?_))
  rcases (neighbour_iff hcache x y).mp h with hup | hdown
  · exact hsources x y hup
  · exact listed_of_sourceOf hdown

/-- **`network_around` ends**, at an empty queue. -/
theorem networkAround_searches (hsources : SourcesListed paths disk)
    (hcache : CacheFresh paths disk cache) (seed : String) :
    Searches (neighboursOf (.ok disk.names) cache) [seed] []
      (networkAround (.ok disk.names) cache seed) := by
  have hpending : pending (neighboursOf (.ok disk.names) cache)
      (seed :: siblings disk.names).toFinset [seed] [] ≤ popBound disk.names := by
    simpa [pending] using sum_degree_le_popBound disk.names seed
  apply worklist_searches _ _ hpending
  · exact fun x _ y hxy => mem_domain_of_neighbour hsources hcache seed hxy
  · simp

/-- What is found is the component of the seed. -/
theorem mem_networkAround_of_listed (hsources : SourcesListed paths disk)
    (hcache : CacheFresh paths disk cache) {seed : String} {network : List String}
    (h : networkAround (.ok disk.names) cache seed = .ok network) (id : String) :
    id ∈ network ↔ Network paths disk seed id := by
  have hfound := mem_worklist_iff
    (fun x _ y hxy => mem_domain_of_neighbour hsources hcache seed hxy)
    (List.mem_toFinset.mpr List.mem_cons_self) (sum_degree_le_popBound disk.names seed) h id
  have hsame : Neighbour (neighboursOf (.ok disk.names) cache) = Linked paths disk := by
    funext a b
    exact propext (neighbour_iff hcache a b)
  rwa [hsame] at hfound

/-- **Specification of `network_around`.** It finds the component of the seed. -/
theorem mem_networkAround (hpaths : PathsExist paths disk) (hcache : CacheFresh paths disk cache)
    {seed : String} {network : List String}
    (h : networkAround (.ok disk.names) cache seed = .ok network) (id : String) :
    id ∈ network ↔ Network paths disk seed id :=
  mem_networkAround_of_listed (fun _ _ hsource => listed_source hpaths hsource) hcache h id

end Gc
end Artifacts
