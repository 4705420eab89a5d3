import Artifacts.Gc.Network
import Artifacts.Storage.Links
import Mathlib.Combinatorics.SimpleGraph.Connectivity.Connected

/-!
# The component of a repo

On a disk the alternates links make an undirected graph of the repos.  A repo has one source
at most, but links can lead in circles, and a repo can be its own source.  `networkAround`
ends on every disk, and what it finds is the connected component of the seed, so every member
of a network has the same network.

The graph is that of the files on disk.  A cache that has become stale is not part of this;
what it does to a collection is shown in `Keeps`.
-/

namespace Artifacts
namespace Gc

open Foundation Relation Storage

/-- The alternates links, in both directions. -/
def alternatesGraph (fs : FileSystem) (disk : Disk) : SimpleGraph String :=
  SimpleGraph.fromRel fun id sourceId => fs.source disk id = some sourceId

/-- What a network has to be: the connected component of the repo in the graph of alternates, each
member once. In which order they come is left open. -/
structure IsComponent (fs : FileSystem) (disk : Disk) (seed : String) (network : List String) :
    Prop where
  once : network.Nodup
  members : {id | id ∈ network} = ((alternatesGraph fs disk).connectedComponentMk seed).supp

variable {fs : FileSystem} {disk : Disk} {seed : String} {network : List String}

/-! ### The links as a graph -/

/-- A source that is found is there. -/
theorem sourcesListed (fs : FileSystem) (disk : Disk) : SourcesListed (fs.paths disk) disk := by
  intro id sourceId h
  exact disk.listed sourceId (FileSystem.source_eq_some.mp h).2

/-- Lookups that agree with the disk. -/
theorem cacheFresh_source (fs : FileSystem) (disk : Disk) :
    CacheFresh (fs.paths disk) disk (fs.source disk) := fun _ => rfl

/-- A repo that is its own source has no edge to itself. -/
theorem adj_iff {a b : String} :
    (alternatesGraph fs disk).Adj a b ↔ a ≠ b ∧ Linked (fs.paths disk) disk a b :=
  SimpleGraph.fromRel_adj _ a b

/-- Links that lead from a repo to itself reach nothing new. -/
theorem network_iff_reachable {a b : String} :
    Network (fs.paths disk) disk a b ↔ (alternatesGraph fs disk).Reachable a b := by
  rw [SimpleGraph.reachable_iff_reflTransGen]
  constructor
  · intro h
    induction h with
    | refl => exact ReflTransGen.refl
    | @tail b c _ hlinked ih =>
        by_cases hself : b = c
        · exact hself ▸ ih
        · exact ih.tail (adj_iff.mpr ⟨hself, hlinked⟩)
  · intro h
    exact ReflTransGen.mono (fun a b hadj => (adj_iff.mp hadj).2) _ _ h

/-! ### The search -/

/-- What is found is a component. -/
theorem isComponent_networkAround
    (h : networkAround (.ok disk.names) (fs.source disk) seed = .ok network) :
    IsComponent fs disk seed network := by
  have hends := networkAround_searches (sourcesListed fs disk) (cacheFresh_source fs disk) seed
  constructor
  · exact hends.nodup List.nodup_nil h
  · ext id
    have hmember :=
      mem_networkAround_of_listed (sourcesListed fs disk) (cacheFresh_source fs disk) h id
    show id ∈ network ↔ _
    rw [hmember, network_iff_reachable, SimpleGraph.ConnectedComponent.mem_supp_iff,
      SimpleGraph.ConnectedComponent.eq]
    exact SimpleGraph.reachable_comm

/-- The component of a member is the component. -/
theorem IsComponent.of_mem {member : String} {network' : List String}
    (h : IsComponent fs disk seed network) (hmember : member ∈ network)
    (h' : IsComponent fs disk member network') : network'.Perm network := by
  have hsame : (alternatesGraph fs disk).connectedComponentMk member =
      (alternatesGraph fs disk).connectedComponentMk seed := by
    have hsupp : member ∈ ((alternatesGraph fs disk).connectedComponentMk seed).supp := by
      rw [← h.members]
      exact hmember
    exact hsupp
  rw [List.perm_ext_iff_of_nodup h'.once h.once]
  intro id
  have hmembers : {id | id ∈ network'} = {id | id ∈ network} := by
    rw [h'.members, h.members, hsame]
  exact Set.ext_iff.mp hmembers id

/-- **`network_around` finds the component of its seed**: on every disk its loop ends, the network
is the connected component of the seed, each member once, and the network of every member is the
same. The disk is any, with circles of alternates and repos that are their own source. -/
theorem network_around_component (fs : FileSystem) (disk : Disk) (seed : String) :
    ∃ network, networkAround (.ok disk.names) (fs.source disk) seed = .ok network ∧
      Searches (neighboursOf (.ok disk.names) (fs.source disk)) [seed] [] (.ok network) ∧
      IsComponent fs disk seed network ∧
      ∀ member ∈ network, ∃ network',
        networkAround (.ok disk.names) (fs.source disk) member = .ok network' ∧
          network'.Perm network := by
  obtain ⟨network, hnetwork⟩ := networkAround_ok disk.names (fs.source disk) seed
  have hends := networkAround_searches (sourcesListed fs disk) (cacheFresh_source fs disk) seed
  rw [hnetwork] at hends
  have hcomponent := isComponent_networkAround hnetwork
  refine ⟨network, hnetwork, hends, hcomponent, ?_⟩
  intro member hmember
  obtain ⟨network', hnetwork'⟩ := networkAround_ok disk.names (fs.source disk) member
  exact ⟨network', hnetwork',
    hcomponent.of_mem hmember (isComponent_networkAround hnetwork')⟩

/-- Two repos that are each other's source, and a fork of one of them. -/
def ringSource : String → Option String
  | "ring-1" => some "ring-2"
  | "ring-2" => some "ring-1"
  | "fork" => some "ring-2"
  | "own" => some "own"
  | _ => none

example :
    networkAround (.ok (["own", "ring-1", "fork", "ring-2"].map fun id => some (id ++ ".git")))
      ringSource "fork" = .ok ["ring-1", "ring-2", "fork"] := by
  decide +kernel

end Gc
end Artifacts
