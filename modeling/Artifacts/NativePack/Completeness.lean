import Artifacts.NativePack.Generate

/-!
# What a fetch receives

A pack is complete when it holds every object the wants reach and the haves do
not.  `generate_pack` leaves the walk to gix, which stops at the haves and also
at commits older than the oldest have.  The first stop loses nothing; the second
loses what lies behind an old commit that no have reaches, such as a side branch
that was merged late.

The second stop is gix's `with_boundary`, and the times are those of the committers.  A pack
that has too much is no matter: what the haves reach may be sent again.
-/

namespace Artifacts
namespace NativePack

open Foundation Relation Rust

variable {repo : Repository}

/-- What the wants reach and the haves do not: what a client that has everything behind its haves is
to be sent. -/
def Missing (repo : Repository) (wants haves : List Oid) (o : Oid) : Prop :=
  ReachFrom repo.Link {w | w ∈ wants} o ∧ ¬ ReachFrom repo.Link {h | h ∈ haves} o

theorem Repository.InTreeOf.isTree_or_isBlob {c o : Oid} (h : repo.InTreeOf c o) :
    isTree (repo.find o) = true ∨ isBlob (repo.find o) = true := by
  obtain ⟨tree, htree, hpath⟩ := h
  cases hpath with
  | refl => exact Or.inl (Repository.isTree_of_treeOf htree)
  | tail _ hlast => exact Repository.isTree_or_isBlob_of_entry hlast

/-- The contents of the tree of a commit are not commits. -/
theorem Repository.InTreeOf.committerTime {c o : Oid} (h : repo.InTreeOf c o) :
    repo.committerTime o = none := by
  have hkind := h.isTree_or_isBlob
  unfold Repository.committerTime
  cases hfind : repo.find o with
  | none => rfl
  | some obj =>
      rw [hfind] at hkind
      cases obj with
      | commit tree ps time => rcases hkind with hkind | hkind <;> cases hkind
      | tree es => rfl
      | blob => rfl
      | tag t => rfl

theorem Repository.InTreeOf.reach {c o : Oid} (h : repo.InTreeOf c o) {roots : Set Oid}
    (hc : ReachFrom repo.Link roots c) : ReachFrom repo.Link roots o := by
  obtain ⟨tree, htree, hpath⟩ := h
  have hroot := hc.step (Repository.link_treeOf htree)
  induction hpath with
  | refl => exact hroot
  | tail _ hlast ih => exact ih.step hlast.link

theorem reach_of_parents {roots : Set Oid} {c : Oid} (h : ReachFrom repo.Parent roots c) :
    ReachFrom repo.Link roots c := by
  obtain ⟨r, hr, hpath⟩ := h
  exact ⟨r, hr, hpath.lift id fun _ _ hstep => Repository.Parent.link hstep⟩

/-- **From commits to objects.** What commits reach is the commits behind them
and the contents of the trees of these. -/
theorem reach_of_commits {wants : List Oid}
    (hcommits : ∀ w ∈ wants, isCommit (repo.find w) = true) {o : Oid}
    (h : ReachFrom repo.Link {w | w ∈ wants} o) :
    (ReachFrom repo.Parent {w | w ∈ wants} o ∧ isCommit (repo.find o) = true) ∨
      ∃ c, ReachFrom repo.Parent {w | w ∈ wants} c ∧ repo.InTreeOf c o := by
  obtain ⟨w, hw, hpath⟩ := h
  induction hpath with
  | refl => exact Or.inl ⟨ReachFrom.root hw, hcommits w hw⟩
  | @tail a b _ hstep ih =>
      rcases ih with ⟨hreach, hcommit⟩ | ⟨c, hreach, htree⟩
      · rcases Repository.link_of_commit hcommit hstep with htree | hparent
        · exact Or.inr ⟨a, hreach, b, htree, ReflTransGen.refl⟩
        · exact Or.inl ⟨hreach.step hparent, Repository.isCommit_of_parent hparent⟩
      · have hentry := Repository.link_of_tree htree.isTree_or_isBlob hstep
        obtain ⟨tree, htreeOf, hpath⟩ := htree
        exact Or.inr ⟨c, hreach, tree, htreeOf, hpath.tail hentry⟩

/-! ### What `generate_pack` writes -/

theorem collectWalk_eq_ok {items : List (Except String Oid)} {ids : List Oid}
    (h : collectWalk items = .ok ids) : items = ids.map Except.ok := by
  induction items generalizing ids with
  | nil =>
      cases h
      rfl
  | cons item items ih =>
      cases item with
      | error e => cases h
      | ok id =>
          rw [collectWalk] at h
          split at h
          · cases h
          · rename_i rest hrest
            cases h
            rw [ih hrest]
            rfl

section Contents

variable {printable : Char → Bool} {gix : Gix} {contents : List UInt8 → Oid → Prop}
  {wants haves : List Oid}

/-- **Specification of the pack phase.** The pack holds the listed commits and
the contents of their trees. -/
theorem contents_packCommits (hgix : GixContract gix contents repo wants haves)
    {commits : List Oid} {bytes : List UInt8} (h : packCommits gix repo commits = .ok bytes)
    (o : Oid) : contents bytes o ↔ o ∈ commits ∨ ∃ c ∈ commits, repo.InTreeOf c o := by
  unfold packCommits at h
  split at h
  · cases h
  · rename_i counts hcounts
    rw [← hgix.count commits counts hcounts o]
    split_ifs at h with hempty
    · cases h
      rw [List.isEmpty_iff.mp hempty]
      simpa using hgix.empty o
    · split at h
      · cases h
      · rename_i written hwrite
        cases h
        exact hgix.write counts _ _ hwrite o

/-- **Specification of `generate_pack`.** A pack it returns holds the commits the
walk yields and the contents of their trees. -/
theorem contents_generatePack (hopen : gix.openRepo = .ok repo) {repoPath : String}
    {wantTexts haveTexts : List String} (hne : wantTexts ≠ [])
    (hwants : parseOids printable gix wantTexts = .ok wants)
    (hhaves : parseOids printable gix haveTexts = .ok haves)
    (hgix : GixContract gix contents repo wants haves) {bytes : List UInt8}
    (h : generatePack printable gix repoPath wantTexts haveTexts = .ok bytes) (o : Oid) :
    contents bytes o ↔
      PrunedFrom repo.Parent {w | w ∈ wants}
          (fun y => y ∉ {h | h ∈ haves} ∧ repo.Recent (repo.oldest haves) y) o ∨
        ∃ c, PrunedFrom repo.Parent {w | w ∈ wants}
          (fun y => y ∉ {h | h ∈ haves} ∧ repo.Recent (repo.oldest haves) y) c ∧
          repo.InTreeOf c o := by
  have hnonempty : wantTexts.isEmpty = false := by
    cases wantTexts with
    | nil => exact absurd rfl hne
    | cons t ts => rfl
  unfold generatePack at h
  rw [hnonempty, hopen, hwants, hhaves] at h
  simp only [Bool.false_eq_true, if_false] at h
  split at h
  · cases h
  · rename_i items hwalk
    split at h
    · cases h
    · rename_i ids hcollect
      rw [collectWalk_eq_ok hcollect] at hwalk
      have hyields := hgix.walk ids hwalk
      simp only [← hyields]
      split_ifs at h with hempty
      · cases h
        rw [List.isEmpty_iff.mp hempty]
        simpa using hgix.empty o
      · rw [contents_packCommits hgix h o]

end Contents

/-- **When a fetch is complete.** A pack that `generate_pack` returns for commit wants holds
everything the wants reach and the haves do not, exactly when no commit among it is older than the
oldest have. The repository, the wants and the haves are any. The walk and the pack encoding belong
to gix and come in through `GixContract`; of a request that fails nothing is said. -/
theorem generate_pack_complete_iff (printable : Char → Bool) (gix : Gix)
    (contents : List UInt8 → Oid → Prop) (repo : Repository) (hopen : gix.openRepo = .ok repo)
    (repoPath : String) (wantTexts haveTexts : List String) (hne : wantTexts ≠ [])
    (wants haves : List Oid) (hwants : parseOids printable gix wantTexts = .ok wants)
    (hhaves : parseOids printable gix haveTexts = .ok haves)
    (hcommits : ∀ w ∈ wants, isCommit (repo.find w) = true)
    (hgix : GixContract gix contents repo wants haves) (bytes : List UInt8)
    (hok : generatePack printable gix repoPath wantTexts haveTexts = .ok bytes) :
    (∀ o, Missing repo wants haves o → contents bytes o) ↔
      ∀ c time, repo.committerTime c = some time → Missing repo wants haves c →
        ∀ cutoff, repo.oldest haves = some cutoff → cutoff ≤ time := by
  have hcontents := contents_generatePack hopen hne hwants hhaves hgix hok
  constructor
  · intro hcomplete c time htime hmissing cutoff hcutoff
    rcases (hcontents c).mp (hcomplete c hmissing) with hyield | ⟨c', -, htree⟩
    · obtain ⟨time', htime', hrecent⟩ := hyield.keep.2
      rw [htime] at htime'
      obtain rfl := Option.some.inj htime'
      exact hrecent cutoff hcutoff
    · rw [htree.committerTime] at htime
      cases htime
  · intro hrecent
    have hboundary : {h | h ∈ haves} ⊆ {x | ReachFrom repo.Link {h | h ∈ haves} x} :=
      fun h hh => ReachFrom.root hh
    have hclosed : ∀ a ∈ {x | ReachFrom repo.Link {h | h ∈ haves} x}, ∀ b,
        repo.Parent a b → b ∈ {x | ReachFrom repo.Link {h | h ∈ haves} x} :=
      fun a ha b hab => ReachFrom.step ha (Repository.Parent.link hab)
    have hcommit : ∀ c, ReachFrom repo.Parent {w | w ∈ wants} c →
        isCommit (repo.find c) = true := by
      rintro c ⟨w, hw, hpath⟩
      cases hpath with
      | refl => exact hcommits c hw
      | tail _ hlast => exact Repository.isCommit_of_parent hlast
    -- on the commits, the walk misses nothing
    have hwalk : ∀ c, ReachFrom repo.Parent {w | w ∈ wants} c →
        c ∉ {x | ReachFrom repo.Link {h | h ∈ haves} x} →
        PrunedFrom repo.Parent {w | w ∈ wants}
          (fun y => y ∉ {h | h ∈ haves} ∧ repo.Recent (repo.oldest haves) y) c := by
      refine (pruned_complete_iff hboundary hclosed).mpr fun c hc hout => ?_
      obtain ⟨time, htime⟩ := Repository.isCommit_iff.mp (hcommit c hc)
      exact ⟨time, htime, fun cutoff hcutoff =>
        hrecent c time htime ⟨reach_of_parents hc, hout⟩ cutoff hcutoff⟩
    rintro o ⟨hreach, hout⟩
    rcases reach_of_commits hcommits hreach with ⟨hparents, -⟩ | ⟨c, hparents, htree⟩
    · exact (hcontents o).mpr (Or.inl (hwalk o hparents hout))
    · have hc : c ∉ {x | ReachFrom repo.Link {h | h ∈ haves} x} :=
        fun hhave => hout (htree.reach hhave)
      exact (hcontents o).mpr (Or.inr ⟨c, hwalk c hparents hc, htree⟩)

/-! ### A side branch merged late -/

def emptyTreeId : Oid := ⟨"4b825dc642cb6eb9a060e54bf8d69288fbee4904", rfl⟩

/-- The commit the client has. -/
def haveId : Oid := ⟨"aaaaaaaaaaaaaaaaaaaaaaaaaaaaaaaaaaaaaaaa", rfl⟩

/-- An older commit of a side branch. -/
def sideId : Oid := ⟨"bbbbbbbbbbbbbbbbbbbbbbbbbbbbbbbbbbbbbbbb", rfl⟩

/-- The merge of both. -/
def mergeId : Oid := ⟨"cccccccccccccccccccccccccccccccccccccccc", rfl⟩

def mergeRepository : Repository where
  objects :=
    [(mergeId, .commit emptyTreeId [haveId, sideId] 200), (haveId, .commit emptyTreeId [] 100),
      (sideId, .commit emptyTreeId [] 50), (emptyTreeId, .tree [])]
  wf := by decide

/-- A gix for the fetches of `mergeId` below. -/
def mergeGix : Gix where
  openRepo := .ok mergeRepository
  fromHexError := fun _ => "Invalid character encountered"
  revWalk := fun _ _ haves =>
    if haves = [sideId] then .ok [.ok mergeId, .ok haveId] else .ok [.ok mergeId]
  countObjects := fun repo commits =>
    .ok (commits ++ commits.filterMap repo.treeOf).eraseDups
  writeEntries := fun _ counts _ =>
    if counts = [mergeId, emptyTreeId] then .ok (asBytes "PACK of 2")
    else if counts = [mergeId, haveId, emptyTreeId] then .ok (asBytes "PACK of 3")
    else .error "unexpected counts"

/-- The objects of the packs `mergeGix` writes. -/
def mergeContents (bytes : List UInt8) (o : Oid) : Prop :=
  (bytes = asBytes "PACK of 2" ∧ o ∈ [mergeId, emptyTreeId]) ∨
    (bytes = asBytes "PACK of 3" ∧ o ∈ [mergeId, haveId, emptyTreeId])

theorem mergeRepository_inTreeOf (c o : Oid) :
    mergeRepository.InTreeOf c o ↔ mergeRepository.treeOf c = some o := by
  have htree : ∀ c tree, mergeRepository.treeOf c = some tree → tree = emptyTreeId := by
    intro c tree h
    unfold Repository.treeOf at h
    split at h
    · rename_i t ps time hfind
      obtain rfl := Option.some.inj h
      obtain ⟨entry, hentry, hobject⟩ := Option.map_eq_some_iff.mp hfind
      have hmem := List.mem_of_find?_eq_some hentry
      simp only [mergeRepository, List.mem_cons, List.not_mem_nil, or_false] at hmem
      rcases hmem with rfl | rfl | rfl | rfl <;> cases hobject <;> rfl
    · cases h
  constructor
  · rintro ⟨tree, htreeOf, hpath⟩
    obtain rfl := htree c tree htreeOf
    cases Relation.ReflTransGen.cases_head hpath with
    | inl heq => rwa [← heq]
    | inr hstep =>
        obtain ⟨b, hb, -⟩ := hstep
        have hempty : mergeRepository.entries emptyTreeId = [] := by decide
        rw [Repository.Entry, hempty] at hb
        cases hb
  · intro h
    exact ⟨o, h, ReflTransGen.refl⟩

/-- The count and the writer of `mergeGix` meet the contract of any fetch. -/
theorem mergeGix_contract (wants haves : List Oid)
    (hwalk : ∀ ids : List Oid, mergeGix.revWalk mergeRepository wants haves = .ok (ids.map .ok) →
      ∀ c, c ∈ ids ↔ PrunedFrom mergeRepository.Parent {w | w ∈ wants}
        (fun y => y ∉ {h | h ∈ haves} ∧
          mergeRepository.Recent (mergeRepository.oldest haves) y) c) :
    GixContract mergeGix mergeContents mergeRepository wants haves where
  walk := hwalk
  count := by
    intro commits counts h o
    cases h
    simp [List.mem_eraseDups, mergeRepository_inTreeOf]
  write := by
    intro counts n bytes h o
    simp only [mergeGix] at h
    split_ifs at h with h2 h3
    · cases h
      simp [mergeContents, h2, asBytes_inj]
    · cases h
      simp [mergeContents, h3, asBytes_inj]
  empty := by
    rintro o (⟨h, -⟩ | ⟨h, -⟩) <;> exact absurd h (by decide)

/-- What one step of the walk can add. -/
theorem mergeRepository_parent {a b : Oid} (h : mergeRepository.Parent a b) :
    a = mergeId ∧ (b = haveId ∨ b = sideId) := by
  unfold Repository.Parent Repository.parents at h
  split at h
  · rename_i t ps time hfind
    obtain ⟨entry, hentry, hobject⟩ := Option.map_eq_some_iff.mp hfind
    have hid : entry.1 = a := by simpa using List.find?_some hentry
    have hmem := List.mem_of_find?_eq_some hentry
    simp only [mergeRepository, List.mem_cons, List.not_mem_nil, or_false] at hmem
    rcases hmem with rfl | rfl | rfl | rfl
    · cases hobject
      exact ⟨hid.symm, by simpa using h⟩
    · cases hobject
      cases h
    · cases hobject
      cases h
    · cases hobject
  · cases h

theorem mergeId_recent {cutoff : Int} (h : cutoff ≤ 200) :
    mergeRepository.Recent (some cutoff) mergeId :=
  ⟨200, by decide, fun c hc => by cases hc; exact h⟩

/-- A parentless commit reaches itself and its tree. -/
theorem mergeRepository_behind {a x : Oid} (ha : mergeRepository.links a = [emptyTreeId])
    (h : ReflTransGen mergeRepository.Link a x) : x = a ∨ x = emptyTreeId := by
  induction h with
  | refl => exact Or.inl rfl
  | tail _ hlast ih =>
      have htree : mergeRepository.links emptyTreeId = [] := by decide
      rcases ih with rfl | rfl
      · rw [Repository.Link, ha] at hlast
        exact Or.inr (List.mem_singleton.mp hlast)
      · rw [Repository.Link, htree] at hlast
        cases hlast

/-- The client has the side branch: the pack brings the other parent. -/
theorem generate_pack_complete_with_side : mergeContents (asBytes "PACK of 3") haveId := by
  refine (generate_pack_complete_iff (fun _ => true) mergeGix mergeContents mergeRepository rfl
    "demo.git" [mergeId.text] [sideId.text] (by decide) [mergeId] [sideId] (by decide)
    (by decide) (by decide) (mergeGix_contract [mergeId] [sideId] ?_) (asBytes "PACK of 3")
    (by decide)).mpr ?_ haveId ⟨?_, ?_⟩
  · intro ids hids c
    have hlist : ids = [mergeId, haveId] := by
      have hmap : ids.map Except.ok = [mergeId, haveId].map (Except.ok : Oid → Except String Oid) :=
        (Except.ok.inj hids).symm
      exact List.map_injective_iff.mpr (fun _ _ h => Except.ok.inj h) hmap
    have holdest : mergeRepository.oldest [sideId] = some 50 := by decide
    rw [hlist, holdest]
    constructor
    · intro hc
      have hroot : PrunedFrom mergeRepository.Parent {w | w ∈ [mergeId]}
          (fun y => y ∉ {h | h ∈ [sideId]} ∧ mergeRepository.Recent (some 50) y) mergeId :=
        PrunedFrom.root List.mem_cons_self
          ⟨fun h => absurd (List.mem_singleton.mp h) (by decide), mergeId_recent (by decide)⟩
      rcases List.mem_cons.mp hc with rfl | hc
      · exact hroot
      · obtain rfl := List.mem_singleton.mp hc
        exact hroot.step (show haveId ∈ mergeRepository.parents mergeId by decide)
          ⟨fun h => absurd (List.mem_singleton.mp h) (by decide),
            100, by decide, fun c hc => by cases hc; decide⟩
    · intro hc
      induction hc with
      | root hr _ => exact List.mem_cons.mpr (Or.inl (List.mem_singleton.mp hr))
      | step _ hstep hkeep _ =>
          rcases (mergeRepository_parent hstep).2 with rfl | rfl
          · exact List.mem_cons_of_mem _ List.mem_cons_self
          · exact absurd List.mem_cons_self hkeep.1
  · intro c time htime _ cutoff hcutoff
    have holdest : mergeRepository.oldest [sideId] = some 50 := by decide
    rw [holdest] at hcutoff
    obtain rfl := Option.some.inj hcutoff
    unfold Repository.committerTime at htime
    split at htime
    · rename_i t ps time' hfind
      obtain rfl := Option.some.inj htime
      obtain ⟨entry, hentry, hobject⟩ := Option.map_eq_some_iff.mp hfind
      have hmem := List.mem_of_find?_eq_some hentry
      simp only [mergeRepository, List.mem_cons, List.not_mem_nil, or_false] at hmem
      rcases hmem with rfl | rfl | rfl | rfl <;> cases hobject <;> decide
    · cases htime
  · exact ⟨mergeId, List.mem_cons_self,
      ReflTransGen.single (show haveId ∈ mergeRepository.links mergeId by decide)⟩
  · rintro ⟨r, hr, hpath⟩
    obtain rfl := List.mem_singleton.mp hr
    exact absurd (mergeRepository_behind (by decide) hpath) (by decide)

/-- The client has the newer parent: the side branch is missing from the pack. -/
theorem generate_pack_misses_side :
    GixContract mergeGix mergeContents mergeRepository [mergeId] [haveId] ∧
      generatePack (fun _ => true) mergeGix "demo.git" [mergeId.text] [haveId.text] =
        .ok (asBytes "PACK of 2") ∧
      Missing mergeRepository [mergeId] [haveId] sideId ∧
      ¬ mergeContents (asBytes "PACK of 2") sideId := by
  refine ⟨mergeGix_contract [mergeId] [haveId] ?_, by decide, ?_, by unfold mergeContents; decide⟩
  · intro ids hids c
    have hlist : ids = [mergeId] := by
      have hmap : ids.map Except.ok = [mergeId].map (Except.ok : Oid → Except String Oid) :=
        (Except.ok.inj hids).symm
      exact List.map_injective_iff.mpr (fun _ _ h => Except.ok.inj h) hmap
    have holdest : mergeRepository.oldest [haveId] = some 100 := by decide
    rw [hlist, holdest]
    constructor
    · intro hc
      obtain rfl := List.mem_singleton.mp hc
      exact PrunedFrom.root List.mem_cons_self
        ⟨fun h => absurd (List.mem_singleton.mp h) (by decide), mergeId_recent (by decide)⟩
    · intro hc
      induction hc with
      | root hr _ => exact hr
      | step _ hstep hkeep _ =>
          rcases (mergeRepository_parent hstep).2 with rfl | rfl
          · exact absurd List.mem_cons_self hkeep.1
          · -- the side branch is older than the have
            obtain ⟨time, htime, hcut⟩ := hkeep.2
            have hside : mergeRepository.committerTime sideId = some 50 := by decide
            rw [hside] at htime
            obtain rfl := Option.some.inj htime
            exact absurd (hcut 100 rfl) (by decide)
  · refine ⟨⟨mergeId, List.mem_cons_self, ReflTransGen.single ?_⟩, ?_⟩
    · exact (by decide : sideId ∈ mergeRepository.links mergeId)
    · rintro ⟨r, hr, hpath⟩
      obtain rfl := List.mem_singleton.mp hr
      exact absurd (mergeRepository_behind (by decide) hpath) (by decide)

end NativePack
end Artifacts
