import Artifacts.NativePack.Completeness
import Artifacts.NativePack.Ingest

/-!
# What a client finds in a pack

The graph of a repository says which ids refer to which; a pack carries bytes.  A `World`
ties the two together: each id of the graph names an object.  A pack that `generate_pack`
writes delivers what the client misses, as long as the walk did not stop too early.  It may be
thin: `generate_pack` allows deltas against any object of the repository, sent or not.

* `GixWrites` is what is asked of gix for this: the walk, the count, and a pack that resolves to
  what was counted.
* `PartOf` lets one world have servers that hold different parts of it.
* `Carries` is what a client can make of the bytes, given what it has.

The objects of a world are told apart by their ids, as those of one network of forks are.
-/

namespace Artifacts
namespace NativePack

open Foundation Relation Rust

/-- All objects there are, each under its hash. Servers and clients have parts of it, so an id means
the same object wherever it is. -/
structure World (sha1 : Sha1) where
  repo : Repository
  object : Oid → Object
  hashed : ∀ o, (repo.find o).isSome = true → looseOidHex sha1 (object o) = o

/-- The objects of a repository, by their ids. -/
def World.has {sha1 : Sha1} (world : World sha1) (repo : Repository) (oid : Oid) : Option Object :=
  if (repo.find oid).isSome then some (world.object oid) else none

/-- A repository that has some of the objects of another, and has the same under the same id. -/
def PartOf (part whole : Repository) : Prop := ∀ o x, part.find o = some x → whole.find o = some x

/-! ### Parts of a graph -/

section Graph

variable {repo part whole : Repository}

/-- What is referred to is there. -/
theorem Repository.Link.known {a b : Oid} (h : repo.Link a b) : (repo.find b).isSome = true := by
  have hsome : ∀ {p : Option GitObject → Bool}, p (repo.find b) = true → p none = false →
      (repo.find b).isSome = true := by
    intro p hp hnone
    cases hfind : repo.find b with
    | none =>
        rw [hfind, hnone] at hp
        cases hp
    | some o => rfl
  unfold Repository.Link Repository.links at h
  split at h
  · rename_i tree parents time hfind
    have hwf := Repository.wf_of_find hfind
    simp only [wellFormed, Bool.and_eq_true, List.all_eq_true] at hwf
    rcases List.mem_cons.mp h with rfl | hparent
    · exact hsome hwf.1 rfl
    · exact hsome (hwf.2 b hparent) rfl
  · rename_i entries hfind
    have hwf := Repository.wf_of_find hfind
    simp only [wellFormed, List.all_eq_true, Bool.or_eq_true] at hwf
    exact (hwf b h).elim (fun htree => hsome htree rfl) fun hblob => hsome hblob rfl
  · rename_i target hfind
    obtain rfl := List.mem_singleton.mp h
    exact Repository.wf_of_find hfind
  · cases h

theorem known_of_reach {roots : Set Oid} (hroots : ∀ r ∈ roots, (repo.find r).isSome = true) {o : Oid}
    (h : ReachFrom repo.Link roots o) : (repo.find o).isSome = true := by
  obtain ⟨r, hr, hpath⟩ := h
  cases hpath with
  | refl => exact hroots _ hr
  | tail _ hlast => exact Repository.Link.known hlast

theorem PartOf.known (hpart : PartOf part whole) {o : Oid} (h : (part.find o).isSome = true) :
    (whole.find o).isSome = true := by
  obtain ⟨x, hx⟩ := Option.isSome_iff_exists.mp h
  exact Option.isSome_iff_exists.mpr ⟨x, hpart o x hx⟩

/-- An object refers to the same ids everywhere. -/
theorem PartOf.links (hpart : PartOf part whole) {o : Oid} (h : (part.find o).isSome = true) :
    part.links o = whole.links o := by
  obtain ⟨x, hx⟩ := Option.isSome_iff_exists.mp h
  unfold Repository.links
  rw [hx, hpart o x hx]

theorem PartOf.reach_whole (hpart : PartOf part whole) {roots : Set Oid} {o : Oid}
    (h : ReachFrom part.Link roots o) : ReachFrom whole.Link roots o := by
  obtain ⟨r, hr, hpath⟩ := h
  refine ⟨r, hr, hpath.lift id fun a b hab => ?_⟩
  have hknown : (part.find a).isSome = true := by
    unfold Repository.Link Repository.links at hab
    split at hab
    · rename_i hfind
      rw [hfind]
      rfl
    · rename_i hfind
      rw [hfind]
      rfl
    · rename_i hfind
      rw [hfind]
      rfl
    · cases hab
  show b ∈ whole.links a
  rw [← hpart.links hknown]
  exact hab

theorem PartOf.reach_part (hpart : PartOf part whole) {roots : Set Oid}
    (hroots : ∀ r ∈ roots, (part.find r).isSome = true) {o : Oid}
    (h : ReachFrom whole.Link roots o) : ReachFrom part.Link roots o := by
  obtain ⟨r, hr, hpath⟩ := h
  induction hpath with
  | refl => exact ReachFrom.root hr
  | @tail a b _ hlast ih =>
      refine ih.step ?_
      show b ∈ part.links a
      rw [hpart.links (known_of_reach hroots ih)]
      exact hlast

/-- No commit that is missing is older than the oldest have. The walk with a boundary leaves such a
commit out. -/
def NoneOlder (repo : Repository) (wants haves : List Oid) : Prop :=
  ∀ c time, repo.committerTime c = some time → Missing repo wants haves c →
    ∀ cutoff, repo.oldest haves = some cutoff → cutoff ≤ time

/-- To a client without anything, nothing is older. -/
theorem noneOlder_clone (repo : Repository) (wants : List Oid) : NoneOlder repo wants [] := by
  intro c time _ _ cutoff hcutoff
  cases hcutoff

/-- Then the walk and the trees of its commits have all that is missing. -/
theorem walked_of_missing {wants haves : List Oid}
    (hcommits : ∀ w ∈ wants, isCommit (repo.find w) = true) (hnone : NoneOlder repo wants haves)
    {o : Oid} (h : Missing repo wants haves o) :
    PrunedFrom repo.Parent {w | w ∈ wants}
        (fun y => y ∉ {h | h ∈ haves} ∧ repo.Recent (repo.oldest haves) y) o ∨
      ∃ c, PrunedFrom repo.Parent {w | w ∈ wants}
        (fun y => y ∉ {h | h ∈ haves} ∧ repo.Recent (repo.oldest haves) y) c ∧ repo.InTreeOf c o := by
  obtain ⟨hreach, hout⟩ := h
  have hcommit : ∀ c, ReachFrom repo.Parent {w | w ∈ wants} c → isCommit (repo.find c) = true := by
    rintro c ⟨w, hw, hpath⟩
    cases hpath with
    | refl => exact hcommits _ hw
    | tail _ hlast => exact Repository.isCommit_of_parent hlast
  have hboundary : {h | h ∈ haves} ⊆ {x | ReachFrom repo.Link {h | h ∈ haves} x} :=
    fun h hh => ReachFrom.root hh
  have hclosed : ∀ a ∈ {x | ReachFrom repo.Link {h | h ∈ haves} x}, ∀ b,
      repo.Parent a b → b ∈ {x | ReachFrom repo.Link {h | h ∈ haves} x} :=
    fun a ha b hab => ReachFrom.step ha (Repository.Parent.link hab)
  have hwalk : ∀ c, ReachFrom repo.Parent {w | w ∈ wants} c →
      c ∉ {x | ReachFrom repo.Link {h | h ∈ haves} x} →
      PrunedFrom repo.Parent {w | w ∈ wants}
        (fun y => y ∉ {h | h ∈ haves} ∧ repo.Recent (repo.oldest haves) y) c := by
    refine (pruned_complete_iff hboundary hclosed).mpr fun c hc hnot => ?_
    obtain ⟨time, htime⟩ := Repository.isCommit_iff.mp (hcommit c hc)
    exact ⟨time, htime, fun cutoff hcutoff =>
      hnone c time htime ⟨reach_of_parents hc, hnot⟩ cutoff hcutoff⟩
  rcases reach_of_commits hcommits hreach with ⟨hparents, -⟩ | ⟨c, hparents, htree⟩
  · exact Or.inl (hwalk o hparents hout)
  · exact Or.inr ⟨c, hwalk c hparents fun hhave => hout (htree.reach hhave), htree⟩

end Graph

/-! ### One pack, one list of objects -/

section Shipment

variable {z : Decompress} {sha1 : Sha1} {stored : Oid → Option Object}

/-- The entries of a pack stand for the same objects in every plan. -/
theorem Plan.object_unique {pack : Pack} (plan plan' : Plan sha1 stored pack.entries)
    (hstored : ∀ oid x, stored oid = some x → looseOidHex sha1 x = oid)
    (hapart : HashesApart sha1 stored (pack.entries.map plan.object)) :
    pack.entries.map plan'.object = pack.entries.map plan.object :=
  List.map_congr_left fun _ he => plan.unique hstored hapart he (plan'.resolves he)

theorem Shipment.objects_unique {d d' : Shipment z sha1 stored} (hbytes : d'.bytes = d.bytes)
    (hstored : ∀ oid x, stored oid = some x → looseOidHex sha1 x = oid)
    (hapart : HashesApart sha1 stored d.objects) : d'.objects = d.objects := by
  have hread := parsePack_encodePack z d.sent d.few d.streams d.trailer.toList
  have hread' := parsePack_encodePack z d'.sent d'.few d'.streams d'.trailer.toList
  obtain ⟨⟨pack, hpack⟩, -⟩ := @storeWithFullResolution_of_parse (fun _ => true) sha1
    plainZlib _ sqliteObjectStore sampleRepo _ _ _ hread fun _ => none
  have hsame : placeFrom 12 d'.sent = placeFrom 12 d.sent := by
    have hbytes' : encodePack d'.sent d'.trailer.toList = encodePack d.sent d.trailer.toList := hbytes
    rw [hbytes', hread] at hread'
    exact (Except.ok.inj hread').symm
  obtain ⟨sent, trailer, few, streams, plan⟩ := d
  obtain ⟨sent', trailer', few', streams', plan'⟩ := d'
  simp only [Shipment.objects] at hapart hsame hpack ⊢
  clear hread hread' streams streams' few few' hbytes
  generalize placeFrom 12 sent = entries at *
  generalize placeFrom 12 sent' = entries' at *
  subst hsame
  subst hpack
  exact plan.object_unique plan' hstored hapart

/-- The plan of a pack of whole objects. -/
def Plan.whole (sha1 : Sha1) (stored : Oid → Option Object) {entries : List ParsedEntry}
    (kindOf : ParsedEntry → ObjectKind) (hwhole : ∀ e ∈ entries, e.kind = .direct (kindOf e)) :
    Plan sha1 stored entries where
  object e := ⟨kindOf e, e.data⟩
  depth _ := 0
  direct e he kind hkind := by
    rw [hwhole e he] at hkind
    cases hkind
    rfl
  ofs e he delta hkind := by
    rw [hwhole e he] at hkind
    cases hkind
  ref e he oid hkind := by
    rw [hwhole e he] at hkind
    cases hkind

/-- The pack without entries. -/
def emptyShipment (z : Decompress) (sha1 : Sha1) (stored : Oid → Option Object) :
    Shipment z sha1 stored where
  sent := []
  trailer := #v[2, 157, 8, 130, 59, 216, 168, 234, 181, 16, 173, 106, 199, 92, 130, 60, 253, 62,
    211, 30]
  few := by decide
  streams e he := by cases he
  plan := .whole sha1 stored (fun _ => .blob) fun e he => by cases he

theorem emptyShipment_bytes : (emptyShipment z sha1 stored).bytes = emptyPackBytes := by
  simp [emptyShipment, Shipment.bytes, encodePack, encodeEntries, magic_bytes, toBeBytes,
    emptyPackBytes]

end Shipment

/-! ### What `generate_pack` delivers -/

section Deliver

variable {printable : Char → Bool} {z : Decompress} {sha1 : Sha1} {world : World sha1}
  {repo : Repository} {wants haves : List Oid} {gix : Gix}

theorem World.has_eq_some {oid : Oid} {x : Object} :
    world.has repo oid = some x ↔ (repo.find oid).isSome = true ∧ x = world.object oid := by
  unfold World.has
  split_ifs with hknown
  · rw [Option.some.injEq, and_iff_right hknown, eq_comm]
  · simp [hknown]

theorem World.hash_of_has (hpart : PartOf repo world.repo) {oid : Oid} {x : Object}
    (h : world.has repo oid = some x) : looseOidHex sha1 x = oid := by
  obtain ⟨hknown, rfl⟩ := World.has_eq_some.mp h
  exact world.hashed oid (hpart.known hknown)

/-- What `generate_pack` relies on in gix, down to the bytes: a pack is written only of
objects that are there, and holds these objects, whole or as deltas of objects that are
there.  The base of a delta need not be in the pack, nor behind a have. -/
structure GixWrites (z : Decompress) (sha1 : Sha1) (world : World sha1) (gix : Gix) (repo : Repository)
    (wants haves : List Oid) : Prop where
  walk : ∀ ids : List Oid, gix.revWalk repo wants haves = .ok (ids.map .ok) → ∀ c, c ∈ ids ↔
    PrunedFrom repo.Parent {w | w ∈ wants}
      (fun y => y ∉ {h | h ∈ haves} ∧ repo.Recent (repo.oldest haves) y) c
  count : ∀ commits counts, gix.countObjects repo commits = .ok counts → ∀ o, o ∈ counts ↔
    o ∈ commits ∨ ∃ c ∈ commits, repo.InTreeOf c o
  write : ∀ counts n bytes, gix.writeEntries repo counts n = .ok bytes →
    (∀ o ∈ counts, (repo.find o).isSome = true) ∧
      ∃ d : Shipment z sha1 (world.has repo), d.bytes = bytes ∧
        ∀ x, x ∈ d.objects ↔ ∃ o ∈ counts, x = world.object o

/-- The bytes are a pack that holds only objects of the repository, and all that a client
misses who has everything behind the haves. -/
def Delivers (z : Decompress) (sha1 : Sha1) (world : World sha1) (repo : Repository)
    (wants haves : List Oid) (bytes : List UInt8) : Prop :=
  ∃ d : Shipment z sha1 (world.has repo), d.bytes = bytes ∧
    (∀ x ∈ d.objects, ∃ o, (repo.find o).isSome = true ∧ x = world.object o) ∧
    ∀ o, Missing repo wants haves o → world.object o ∈ d.objects

theorem World.object_inj (world : World sha1) {o o' : Oid}
    (ho : (world.repo.find o).isSome = true) (ho' : (world.repo.find o').isSome = true)
    (hsame : looseOidHex sha1 (world.object o) = looseOidHex sha1 (world.object o')) : o = o' := by
  rwa [world.hashed o ho, world.hashed o' ho'] at hsame

/-- Objects of the world have hashes of their own. -/
theorem World.hashesApart (world : World sha1) {stored : Oid → Option Object} {objects : List Object}
    (hstored : ∀ oid x, stored oid = some x → ∃ o, (world.repo.find o).isSome = true ∧
      x = world.object o)
    (hobjects : ∀ x ∈ objects, ∃ o, (world.repo.find o).isSome = true ∧ x = world.object o) :
    HashesApart sha1 stored objects := by
  have hworld : ∀ x, ((∃ oid, stored oid = some x) ∨ x ∈ objects) →
      ∃ o, (world.repo.find o).isSome = true ∧ x = world.object o := by
    rintro x (⟨oid, hfound⟩ | hx)
    · exact hstored oid x hfound
    · exact hobjects x hx
  intro x y hx hy hsame
  obtain ⟨o, ho, rfl⟩ := hworld x hx
  obtain ⟨o', ho', rfl⟩ := hworld y hy
  rw [world.object_inj ho ho' hsame]

/-- The objects a client finds in a pack, when all objects of the repository are at hand. -/
def Carries (z : Decompress) (world : World sha1) (repo : Repository) (bytes : List UInt8) (o : Oid) :
    Prop :=
  ∃ d : Shipment z sha1 (world.has repo), d.bytes = bytes ∧ ∃ x ∈ d.objects, looseOidHex sha1 x = o

theorem carries_iff (hpart : PartOf repo world.repo) {d : Shipment z sha1 (world.has repo)}
    (hobjects : ∀ x ∈ d.objects, ∃ o, (repo.find o).isSome = true ∧ x = world.object o) (o : Oid) :
    Carries z world repo d.bytes o ↔ ∃ x ∈ d.objects, looseOidHex sha1 x = o := by
  have hapart : HashesApart sha1 (world.has repo) d.objects := by
    refine world.hashesApart (fun oid x hx => ?_) fun x hx => ?_
    · obtain ⟨hknown, rfl⟩ := World.has_eq_some.mp hx
      exact ⟨oid, hpart.known hknown, rfl⟩
    · obtain ⟨o, ho, rfl⟩ := hobjects x hx
      exact ⟨o, hpart.known ho, rfl⟩
  constructor
  · rintro ⟨d', hbytes, hfound⟩
    rwa [Shipment.objects_unique hbytes (fun _ _ h => World.hash_of_has hpart h) hapart] at hfound
  · exact fun hfound => ⟨d, rfl, hfound⟩

theorem not_carries_empty (o : Oid) : ¬ Carries z world repo emptyPackBytes o := by
  rintro ⟨⟨sent, trailer, few, streams, plan⟩, hbytes, x, hx, -⟩
  have hnone : sent = [] := by
    refine (length_encodePack_le_iff sent trailer).mp ?_
    have hlen := congrArg List.length hbytes
    simp only [Shipment.bytes] at hlen
    rw [hlen]
    decide
  subst hnone
  cases hx

/-- The contract of a fetch, with the pack read as a client reads it. -/
theorem GixWrites.contract (h : GixWrites z sha1 world gix repo wants haves)
    (hpart : PartOf repo world.repo) :
    GixContract gix (Carries z world repo) repo wants haves where
  walk := h.walk
  count := h.count
  write := by
    intro counts n bytes hwrite o
    obtain ⟨hknown, d, rfl, hobjects⟩ := h.write counts n bytes hwrite
    have hthere : ∀ x ∈ d.objects, ∃ o, (repo.find o).isSome = true ∧ x = world.object o := by
      intro x hx
      obtain ⟨o, ho, rfl⟩ := (hobjects x).mp hx
      exact ⟨o, hknown o ho, rfl⟩
    rw [carries_iff hpart hthere]
    constructor
    · rintro ⟨x, hx, rfl⟩
      obtain ⟨o, ho, rfl⟩ := (hobjects x).mp hx
      rwa [world.hashed o (hpart.known (hknown o ho))]
    · intro ho
      exact ⟨world.object o, (hobjects _).mpr ⟨o, ho, rfl⟩,
        world.hashed o (hpart.known (hknown o ho))⟩
  empty := not_carries_empty

/-- The ids among the texts of a request. -/
def oidsOf (texts : List String) : List Oid := texts.filterMap fromHex

theorem parseOids_eq_ok {texts : List String} {oids : List Oid}
    (h : parseOids printable gix texts = .ok oids) : oidsOf texts = oids := by
  induction texts generalizing oids with
  | nil =>
      cases h
      rfl
  | cons text texts ih =>
      unfold parseOids at h
      split at h
      · cases h
      · rename_i oid hoid
        split at h
        · cases h
        · rename_i rest hrest
          cases h
          rw [← ih hrest]
          exact List.filterMap_cons_some hoid

/-- A pack is returned for nothing, or from what was opened; it is the empty one, or was
written. -/
theorem generatePack_cases {repoPath : String} {wantTexts haveTexts : List String}
    {bytes : List UInt8} (h : generatePack printable gix repoPath wantTexts haveTexts = .ok bytes) :
    (wantTexts = [] ∧ bytes = emptyPackBytes) ∨
      ∃ repo, gix.openRepo = .ok repo ∧ wantTexts ≠ [] ∧
        parseOids printable gix wantTexts = .ok (oidsOf wantTexts) ∧
        parseOids printable gix haveTexts = .ok (oidsOf haveTexts) ∧
        (bytes = emptyPackBytes ∨ ∃ counts n, gix.writeEntries repo counts n = .ok bytes) := by
  unfold generatePack at h
  split_ifs at h with hnone
  · exact Or.inl ⟨List.isEmpty_iff.mp hnone, (Except.ok.inj h).symm⟩
  · split at h
    · cases h
    · rename_i repo hopen
      split at h
      · cases h
      · rename_i wants hwants
        split at h
        · cases h
        · rename_i haves hhaves
          refine Or.inr ⟨repo, hopen, fun hnil => hnone (List.isEmpty_iff.mpr hnil), ?_, ?_, ?_⟩
          · rw [parseOids_eq_ok hwants, hwants]
          · rw [parseOids_eq_ok hhaves, hhaves]
          · split at h
            · cases h
            · split at h
              · cases h
              · split_ifs at h
                · exact Or.inl (Except.ok.inj h).symm
                · unfold packCommits at h
                  split at h
                  · cases h
                  · split_ifs at h
                    · exact Or.inl (Except.ok.inj h).symm
                    · split at h
                      · cases h
                      · rename_i hwrite
                        cases h
                        exact Or.inr ⟨_, _, hwrite⟩

theorem delivers_nothing {haves : List Oid} : Delivers z sha1 world repo [] haves emptyPackBytes := by
  refine ⟨emptyShipment z sha1 _, emptyShipment_bytes, ?_, ?_⟩
  · intro x hx
    cases hx
  · rintro o ⟨⟨w, hw, -⟩, -⟩
    cases hw

/-- **Native packs deliver**, as long as no missing commit is older than the oldest have. -/
theorem generatePack_delivers {wantTexts haveTexts : List String}
    (hopens : ∀ repo', gix.openRepo = .ok repo' → repo' = repo) (hpart : PartOf repo world.repo)
    (hgix : GixWrites z sha1 world gix repo (oidsOf wantTexts) (oidsOf haveTexts))
    (hcommits : ∀ w ∈ oidsOf wantTexts, isCommit (repo.find w) = true)
    (hnone : NoneOlder repo (oidsOf wantTexts) (oidsOf haveTexts)) {repoPath : String}
    {bytes : List UInt8}
    (h : generatePack printable gix repoPath wantTexts haveTexts = .ok bytes) :
    Delivers z sha1 world repo (oidsOf wantTexts) (oidsOf haveTexts) bytes := by
  obtain ⟨rfl, rfl⟩ | ⟨repo', hopen, hne, hwants, hhaves, hbytes⟩ := generatePack_cases h
  · exact delivers_nothing
  · obtain rfl := hopens repo' hopen
    have hcontents := contents_generatePack hopen hne hwants hhaves (hgix.contract hpart) h
    have hmissing : ∀ o, Missing repo' (oidsOf wantTexts) (oidsOf haveTexts) o →
        Carries z world repo' bytes o :=
      fun o ho => (hcontents o).mpr (walked_of_missing hcommits hnone ho)
    obtain ⟨d, rfl, hthere⟩ : ∃ d : Shipment z sha1 (world.has repo'), d.bytes = bytes ∧
        ∀ x ∈ d.objects, ∃ o, (repo'.find o).isSome = true ∧ x = world.object o := by
      rcases hbytes with rfl | ⟨counts, n, hwrite⟩
      · refine ⟨emptyShipment z sha1 _, emptyShipment_bytes, fun x hx => ?_⟩
        cases hx
      · obtain ⟨hknown, d, hbytes, hobjects⟩ := hgix.write counts n bytes hwrite
        refine ⟨d, hbytes, fun x hx => ?_⟩
        obtain ⟨o, ho, rfl⟩ := (hobjects x).mp hx
        exact ⟨o, hknown o ho, rfl⟩
    refine ⟨d, rfl, hthere, fun o ho => ?_⟩
    obtain ⟨x, hx, rfl⟩ := (carries_iff hpart hthere o).mp (hmissing o ho)
    obtain ⟨o, hknown, rfl⟩ := hthere x hx
    rwa [world.hashed o (hpart.known hknown)]

end Deliver
end NativePack
end Artifacts
