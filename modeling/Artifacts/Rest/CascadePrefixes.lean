import Artifacts.Rest.Cascade
import Artifacts.Storage.Links

/-!
# A cascade that ends early

The deletions of a cascade run one after the other and may end anywhere.  Alternates can
lead in circles, but each repo has one source at most, so a circle among what depends on a
repo goes through the repo itself: every other dependent goes before its source, and a repo
that is left keeps the source it had.

`DeletionOrder.prefixes` is what an interruption needs: after any number of deletions every
repo that is left, but for the one in question, resolves to the source it had.
-/

namespace Artifacts
namespace Rest

open Relation Storage

variable {fs : FileSystem} {disk : Disk} {id : String}

/-! ### Forks on a disk -/

/-- Without an alternates file there is no source. -/
theorem isRepo_of_source {child source : String} (h : fs.source disk child = some source) :
    disk.isRepo child = true := by
  cases halternates : disk.alternates child with
  | some text => exact Disk.isRepo_of_alternates halternates
  | none =>
      rw [FileSystem.source, halternates] at h
      cases h

/-- `list_forks_of` passes over a repo that is its own source, and nothing else. -/
theorem forkOf_iff {child source : String} :
    ForkOf disk.names (fs.source disk) child source ↔
      fs.source disk child = some source ∧ child ≠ source := by
  constructor
  · rintro ⟨-, hne, hsource⟩
    exact ⟨hsource, hne⟩
  · rintro ⟨hsource, hne⟩
    exact ⟨disk.listed child (isRepo_of_source hsource), hne, hsource⟩

/-- One repo reads its objects from another, or through others from it. -/
def DependsOn (fs : FileSystem) (disk : Disk) : String → String → Prop :=
  ReflTransGen fun child source => fs.source disk child = some source

theorem dependsOn_iff {x y : String} :
    DependsOn fs disk x y ↔ ReflTransGen (ForkOf disk.names (fs.source disk)) x y := by
  constructor
  · intro h
    induction h with
    | refl => exact ReflTransGen.refl
    | @tail child source _ hstep ih =>
        by_cases hself : child = source
        · exact hself ▸ ih
        · exact ih.tail (forkOf_iff.mpr ⟨hstep, hself⟩)
  · intro h
    exact ReflTransGen.mono (fun child source hfork => (forkOf_iff.mp hfork).1) _ _ h

/-! ### What an order has to be -/

/-- Nothing that depends on the repo is missing. -/
theorem mem_of_dependsOn {order : List String} (hroot : id ∈ order)
    (hfirst : OthersFirst disk.names (fs.source disk) id order) {x : String}
    (h : ReflTransGen (ForkOf disk.names (fs.source disk)) x id) : x ∈ order := by
  induction h using ReflTransGen.head_induction_on with
  | refl => exact hroot
  | @head child source hfork _ ih =>
      by_cases hchild : child = id
      · exact hchild ▸ hroot
      · obtain ⟨front, back, hsplit⟩ := List.append_of_mem ih
        rw [hsplit]
        exact List.mem_append_left _ (hfirst front source back hsplit child hchild hfork)

/-- A dependent other than the repo has a source, which is behind it. -/
theorem source_behind {order : List String} (hroot : id ∈ order)
    (hfirst : OthersFirst disk.names (fs.source disk) id order) {x : String}
    (h : ReflTransGen (ForkOf disk.names (fs.source disk)) x id) (hx : x ≠ id) :
    ∃ source front back, fs.source disk x = some source ∧ order = front ++ source :: back ∧
      x ∈ front := by
  rcases ReflTransGen.cases_head h with hsame | ⟨source, hfork, hrest⟩
  · exact absurd hsame hx
  · obtain ⟨front, back, hsplit⟩ := List.append_of_mem (mem_of_dependsOn hroot hfirst hrest)
    exact ⟨source, front, back, (forkOf_iff.mp hfork).1, hsplit,
      hfirst front source back hsplit x hx hfork⟩

/-! ### Some deletions -/

/-- `remove_dir_all` of one repo after the other. -/
def removeDirs (disk : Disk) (gone : List String) : Disk :=
  gone.foldl Disk.removeDir disk

theorem isRepo_removeDirs (disk : Disk) (gone : List String) (r : String) :
    (removeDirs disk gone).isRepo r = true ↔ r ∉ gone ∧ disk.isRepo r = true := by
  induction gone generalizing disk with
  | nil => simp [removeDirs]
  | cons dep gone ih =>
      show (removeDirs (disk.removeDir dep) gone).isRepo r = true ↔ _
      rw [ih, Disk.isRepo_removeDir]
      simp only [List.mem_cons, not_or, Bool.and_eq_true, Bool.not_eq_true', decide_eq_false_iff_not]
      tauto

theorem alternates_removeDirs (disk : Disk) {gone : List String} {r : String} (h : r ∉ gone) :
    (removeDirs disk gone).alternates r = disk.alternates r := by
  induction gone generalizing disk with
  | nil => rfl
  | cons dep gone ih =>
      rw [List.mem_cons, not_or] at h
      show (removeDirs (disk.removeDir dep) gone).alternates r = _
      rw [ih _ h.2, Disk.alternates_removeDir, if_neg h.1]

/-- The deletions of a cascade remove the repos from the front on, up to the first failure. -/
theorem removeRepos_disk (d : Deployment) (order : List String) :
    ∃ gone, gone <+: order ∧ (removeRepos d order).1.disk = removeDirs d.disk gone := by
  induction order generalizing d with
  | nil => exact ⟨[], List.prefix_rfl, rfl⟩
  | cons dep rest ih =>
      rw [removeRepos]
      split
      · exact ⟨[], List.nil_prefix, rfl⟩
      · rename_i depTyped htyped
        have htext : depTyped.text = dep := (RepoId.tryFrom_eq_ok.mp htyped).symm
        rw [FsStorage.delete, htext]
        by_cases hrepo : d.disk.isRepo dep = true
        · rw [if_pos hrepo]
          obtain ⟨gone, hgone, hdisk⟩ := ih
            { d with disk := d.disk.removeDir dep, repos := d.repos.remove depTyped }
          exact ⟨dep :: gone, List.cons_prefix_cons.mpr ⟨rfl, hgone⟩, hdisk⟩
        · rw [if_neg hrepo]
          exact ⟨[], List.nil_prefix, rfl⟩

/-- A repo that is left after some deletions still has its source. -/
theorem source_kept {order gone : List String}
    (hfirst : OthersFirst disk.names (fs.source disk) id order) (hgone : gone <+: order)
    {r source : String} (hr : r ≠ id) (hleft : (removeDirs disk gone).isRepo r = true)
    (hsource : fs.source disk r = some source) :
    fs.source (removeDirs disk gone) r = some source := by
  obtain ⟨hstays, -⟩ := (isRepo_removeDirs disk gone r).mp hleft
  obtain ⟨hnames, hrepo⟩ := FileSystem.source_eq_some.mp hsource
  have hsourceStays : source ∉ gone := by
    intro hmem
    obtain ⟨front, back, hsplit⟩ := List.append_of_mem hmem
    obtain ⟨rest, hrest⟩ := hgone
    have hne : r ≠ source := fun heq => hstays (heq ▸ hmem)
    have horder : order = front ++ source :: (back ++ rest) := by
      rw [← hrest, hsplit, List.append_assoc, List.cons_append]
    have hfront := hfirst front source _ horder r hr (forkOf_iff.mpr ⟨hsource, hne⟩)
    apply hstays
    rw [hsplit]
    exact List.mem_append_left _ hfront
  apply FileSystem.source_eq_some.mpr
  constructor
  · rwa [FileSystem.Names, alternates_removeDirs disk hstays]
  · exact (isRepo_removeDirs disk gone source).mpr ⟨hsourceStays, hrepo⟩

/-! ### Every cascade -/

/-- An order in which a repo and its dependents can be deleted, with an end at any point. -/
structure DeletionOrder (fs : FileSystem) (disk : Disk) (id : String) (order : List String) :
    Prop where
  once : order.Nodup
  members : ∀ x, x ∈ order ↔ DependsOn fs disk x id
  last : ∃ dependents, order = dependents ++ [id]
  before : ∀ x ∈ order, x ≠ id → ∃ source front back, fs.source disk x = some source ∧
    order = front ++ source :: back ∧ x ∈ front
  /-- After the deletions of a prefix every other repo that is left has its source. -/
  prefixes : ∀ done, done <+: order → ∀ d : Deployment, d.disk = disk → ∀ r, r ≠ id →
    (removeRepos d done).1.disk.isRepo r = true → ∀ source, fs.source disk r = some source →
      fs.source (removeRepos d done).1.disk r = some source

/-- **Every cascade can be interrupted**: on any disk, circles of alternates included, the search of
`cascade_delete_order` ends, whatever larger bound is put on its rounds, and what it returns is a
deletion order. So the loop over it may stop behind any repo: what is left, but for the repo itself,
has the sources it had. -/
theorem cascade_delete_order_interruptible (fs : FileSystem) (disk : Disk) (id : String) :
    ∃ levels, (∀ bound, disk.names.length < bound →
        cascadeLevels (.ok disk.names) (fs.source disk) bound [[id]] [id] = .ok levels) ∧
      cascadeDeleteOrder (.ok disk.names) (fs.source disk) id = .ok levels.flatten ∧
      DeletionOrder fs disk id levels.flatten := by
  obtain ⟨levels, hrounds, horder, hlast, hnodup, hdepends, hfirst⟩ :=
    cascadeDeleteOrder_levels disk.names (fs.source disk) id
  have hroot : id ∈ levels.flatten := by
    obtain ⟨dependents, heq⟩ := hlast
    rw [heq]
    simp
  refine ⟨levels, hrounds, horder, ?_⟩
  constructor
  · exact hnodup
  · intro x
    rw [dependsOn_iff]
    exact ⟨hdepends x, mem_of_dependsOn hroot hfirst⟩
  · exact hlast
  · intro x hx hne
    exact source_behind hroot hfirst (hdepends x hx) hne
  · intro done hdone d hd r hr hleft source hsource
    obtain ⟨gone, hgone, hdisk⟩ := removeRepos_disk d done
    rw [hdisk, hd] at hleft ⊢
    exact source_kept hfirst (hgone.trans hdone) hr hleft hsource

end Rest
end Artifacts
