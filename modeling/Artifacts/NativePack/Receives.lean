import Artifacts.NativePack.Ingest

/-!
# Packs sent and received

What is stored behind a run of packs is what was stored before it and the objects that were
sent, under their hashes, as long as the receiver has every base that the deltas of a pack
name and the pack does not hold.

`Receives` is the run, one pack after another into the SQLite store.  The objects are told apart
by their hashes (`HashesApart`).  Packs that the receiver refuses do not occur in it; the
layers that refuse are compared in `Layers`.
-/

namespace Artifacts
namespace NativePack

open Foundation Rust

section Receive

variable {printable : Char → Bool} {sha1 : Sha1} {zlib : Zlib} {z : Decompress} {repoId : RepoId}

/-! ### Any number of packs -/

/-- A run of packs: each is sent to what is stored by then.  Of each the number of its
entries is kept, and the result. -/
inductive Receives (printable : Char → Bool) (sha1 : Sha1) (zlib : Zlib) (z : Decompress)
    (repoId : RepoId) (rows : LooseRows) :
    List Object → LooseRows → List (Nat × Result Nat) → Prop where
  | none : Receives printable sha1 zlib z repoId rows [] rows []
  | pack {xs : List Object} {rows' rows'' : LooseRows} {results : List (Nat × Result Nat)}
      {result : Result Nat} (fuel : Nat)
      (d : Shipment z sha1 (objectAt printable zlib sqliteObjectStore repoId rows')) :
      Receives printable sha1 zlib z repoId rows xs rows' results → d.sent.length ≤ fuel →
      ingestPack printable sha1 zlib (decompressZlib z) repoId fuel d.bytes rows' =
        some (result, rows'') →
      Receives printable sha1 zlib z repoId rows (xs ++ d.objects) rows''
        (results ++ [(d.sent.length, result)])

/-- The hashes of a longer list are apart only if those of its front are. -/
theorem HashesApart.front {stored : Oid → Option Object} {xs ys : List Object}
    (h : HashesApart sha1 stored (xs ++ ys)) : HashesApart sha1 stored xs :=
  fun x y hx hy => h x y (hx.imp_right (List.mem_append_left _)) (hy.imp_right (List.mem_append_left _))

/-- What was gained counts as stored. -/
theorem HashesApart.later {rows rows' : LooseRows} {xs ys : List Object}
    (h : HashesApart sha1 (objectAt printable zlib sqliteObjectStore repoId rows) (xs ++ ys))
    (hgains : Gains printable sha1 zlib repoId rows xs rows') :
    HashesApart sha1 (objectAt printable zlib sqliteObjectStore repoId rows') ys := by
  have hknown : ∀ x, (∃ oid, objectAt printable zlib sqliteObjectStore repoId rows' oid = some x) ∨
      x ∈ ys → (∃ oid, objectAt printable zlib sqliteObjectStore repoId rows oid = some x) ∨
        x ∈ xs ++ ys := by
    rintro x (⟨oid, hfound⟩ | hx)
    · rcases (hgains.holds oid x).mp hfound with hearly | ⟨hx, -⟩
      · exact Or.inl ⟨oid, hearly⟩
      · exact Or.inr (List.mem_append_left _ hx)
    · exact Or.inr (List.mem_append_right _ hx)
  exact fun x y hx hy => h x y (hknown x hx) (hknown y hy)

/-- The run lemma: every pack of a run is taken, and the gains add up. -/
theorem Receives.gains {rows rows' : LooseRows} {xs : List Object}
    {results : List (Nat × Result Nat)}
    (h : Receives printable sha1 zlib z repoId rows xs rows' results)
    (hwf : WellFormed sha1 zlib sqliteObjectStore repoId rows)
    (hapart : HashesApart sha1 (objectAt printable zlib sqliteObjectStore repoId rows) xs) :
    (∀ result ∈ results, result.2 = .ok result.1) ∧
      Gains printable sha1 zlib repoId rows xs rows' := by
  induction h with
  | none => exact ⟨nofun, Gains.none hwf⟩
  | @pack xs rows' rows'' results result fuel d _ hfuel hrun ih =>
      obtain ⟨hok, hgains⟩ := ih hapart.front
      obtain ⟨rows₁, hruns, hmore⟩ := ingestPack_of_shipment hgains.wf d (hapart.later hgains)
      rw [hruns fuel hfuel] at hrun
      cases hrun
      refine ⟨fun result hresult => ?_, hgains.trans hmore⟩
      rcases List.mem_append.mp hresult with hearly | hlast
      · exact hok result hearly
      · rw [List.mem_singleton.mp hlast]

/-- **Packs sent and received.** In a run of packs, whole objects or deltas in whatever way,
`ingest_pack` takes every pack and counts its entries.  Behind the run the repository holds
what it held and what was sent, each object under its hash and read back from there, and the
other repositories hold what they held.  The next pack is taken as well. -/
theorem packs_received (printable : Char → Bool) (sha1 : Sha1) (zlib : Zlib) (z : Decompress)
    (repoId : RepoId) (rows rows' : LooseRows) (xs : List Object)
    (results : List (Nat × Result Nat))
    (h : Receives printable sha1 zlib z repoId rows xs rows' results)
    (hwf : WellFormed sha1 zlib sqliteObjectStore repoId rows)
    (hapart : HashesApart sha1 (objectAt printable zlib sqliteObjectStore repoId rows) xs) :
    (∀ result ∈ results, result.2 = .ok result.1) ∧
      (∀ oid x, objectAt printable zlib sqliteObjectStore repoId rows' oid = some x ↔
        objectAt printable zlib sqliteObjectStore repoId rows oid = some x ∨
          x ∈ xs ∧ looseOidHex sha1 x = oid) ∧
      (∀ x ∈ xs, readLooseInflated printable zlib sqliteObjectStore rows' repoId
        (looseOidHex sha1 x) = .ok (some x)) ∧
      (∀ repo oid, repo ≠ repoId →
        sqliteObjectStore.readLoose rows' repo oid = sqliteObjectStore.readLoose rows repo oid) ∧
      ∀ d : Shipment z sha1 (objectAt printable zlib sqliteObjectStore repoId rows'),
        HashesApart sha1 (objectAt printable zlib sqliteObjectStore repoId rows)
          (xs ++ d.objects) →
        ∃ rows'', ∀ fuel, d.sent.length ≤ fuel →
          ingestPack printable sha1 zlib (decompressZlib z) repoId fuel d.bytes rows' =
            some (.ok d.sent.length, rows'') := by
  obtain ⟨hok, hgains⟩ := h.gains hwf hapart
  refine ⟨hok, hgains.holds, fun x hx => ?_, hgains.others, fun d hnext => ?_⟩
  · rw [readLooseInflated_eq sqliteObjectStore_lawful hgains.wf,
      (hgains.holds _ _).mpr (Or.inr ⟨hx, rfl⟩)]
  · obtain ⟨rows'', hruns, -⟩ := ingestPack_of_shipment hgains.wf d (hnext.later hgains)
    exact ⟨rows'', hruns⟩

end Receive

/-! ### Two packs -/

/-- The blob, and one byte more by the delta. -/
def pairPlan (stored : Oid → Option Object) : Plan lengthHash stored (placeFrom 12 sentPair) where
  object e := ⟨.blob, if e.offset = 12 then [1, 2, 3] else [1, 2, 3, 9]⟩
  depth e := e.offset
  direct e he kind hkind := by
    rcases List.mem_pair.mp he with rfl | rfl
    · cases hkind
      rfl
    · cases hkind
  ofs e he delta hkind := by
    rcases List.mem_pair.mp he with rfl | rfl
    · cases hkind
    · cases hkind
      exact ⟨⟨12, .direct .blob, [1, 2, 3]⟩, List.mem_cons_self, by decide, by decide,
        patches_iff.mpr ⟨rfl, by decide⟩⟩
  ref e he oid hkind := by
    rcases List.mem_pair.mp he with rfl | rfl <;> cases hkind

def pairShipment (stored : Oid → Option Object) : Shipment storedDecoder lengthHash stored where
  sent := sentPair
  trailer := Vector.replicate 20 0
  few := by decide
  streams := inflates_sentPair
  plan := pairPlan stored

def longBlob : Object := ⟨.blob, [1, 2, 3, 9]⟩

def longerBlob : Object := ⟨.blob, [1, 2, 3, 9, 7]⟩

/-- One more byte behind a blob that is not sent along. -/
def laterSent : List SentEntry :=
  [⟨.refDelta (lengthHash (looseBytes longBlob)), [4, 5, 0x90, 4, 1, 7],
    storedStream [4, 5, 0x90, 4, 1, 7], by decide, by
      intro delta h
      cases h⟩]

def laterPlan (stored : Oid → Option Object)
    (hbase : stored (looseOidHex lengthHash longBlob) = some longBlob) :
    Plan lengthHash stored (placeFrom 12 laterSent) where
  object _ := longerBlob
  depth _ := 0
  direct e he kind hkind := by
    obtain rfl := List.mem_singleton.mp he
    cases hkind
  ofs e he delta hkind := by
    obtain rfl := List.mem_singleton.mp he
    cases hkind
  ref e he oid hkind := by
    obtain rfl := List.mem_singleton.mp he
    cases hkind
    exact ⟨longBlob, patches_iff.mpr ⟨rfl, by decide⟩, Or.inl hbase⟩

def laterShipment (stored : Oid → Option Object)
    (hbase : stored (looseOidHex lengthHash longBlob) = some longBlob) :
    Shipment storedDecoder lengthHash stored where
  sent := laterSent
  trailer := Vector.replicate 20 0
  few := by decide
  streams e he := by
    obtain rfl := List.mem_singleton.mp he
    exact inflates_storedStream (by decide)
  plan := laterPlan stored hbase

/-- The three blobs have hashes of their own. -/
theorem blobs_apart {stored : Oid → Option Object} (hempty : ∀ oid, stored oid = none) :
    HashesApart lengthHash stored ([⟨.blob, [1, 2, 3]⟩, longBlob] ++ [longerBlob]) := by
  have hdiffer : (([⟨.blob, [1, 2, 3]⟩, longBlob] ++ [longerBlob]).map
      (looseOidHex lengthHash)).Nodup := by
    decide +kernel
  intro x y hx hy hsame
  have hx := hx.resolve_left fun ⟨oid, hoid⟩ => by rw [hempty] at hoid; cases hoid
  have hy := hy.resolve_left fun ⟨oid, hoid⟩ => by rw [hempty] at hoid; cases hoid
  exact List.inj_on_of_nodup_map hdiffer hx hy hsame

/-- The second pack holds a delta alone, against a blob that came with the first. -/
theorem packs_received_pair :
    ∃ rows rows' stored hbase,
      ingestPack (fun _ => true) lengthHash plainZlib (decompressZlib storedDecoder) sampleRepo 2
        (pairShipment fun _ => none).bytes (fun _ => none) = some (.ok 2, rows) ∧
      ingestPack (fun _ => true) lengthHash plainZlib (decompressZlib storedDecoder) sampleRepo 1
        (laterShipment stored hbase).bytes rows = some (.ok 1, rows') ∧
      ∀ x ∈ [⟨.blob, [1, 2, 3]⟩, longBlob, longerBlob],
        readLooseInflated (fun _ => true) plainZlib sqliteObjectStore rows' sampleRepo
          (looseOidHex lengthHash x) = .ok (some x) := by
  have hempty : ∀ oid, objectAt (fun _ => true) plainZlib sqliteObjectStore sampleRepo
      (fun _ => none) oid = none := fun _ => rfl
  have hwf : WellFormed lengthHash plainZlib sqliteObjectStore sampleRepo (fun _ => none) := by
    intro oid bytes h
    cases h
  have hapart := blobs_apart hempty
  obtain ⟨rows, hruns, hgains⟩ := @ingestPack_of_shipment _ _ _ storedDecoder _ _ hwf
    (pairShipment _) hapart.front
  have hbase := (hgains.holds (looseOidHex lengthHash longBlob) longBlob).mpr
    (Or.inr ⟨List.mem_cons_of_mem _ List.mem_cons_self, rfl⟩)
  obtain ⟨rows', hruns', -⟩ := ingestPack_of_shipment hgains.wf (laterShipment _ hbase)
    (hapart.later hgains)
  obtain ⟨-, -, hback, -⟩ := packs_received _ _ _ storedDecoder _ _ rows' _ _
    (.pack 1 (laterShipment _ hbase) (.pack 2 (pairShipment _) .none (Nat.le_refl 2)
      (hruns 2 (Nat.le_refl 2))) (Nat.le_refl 1) (hruns' 1 (Nat.le_refl 1))) hwf hapart
  exact ⟨rows, rows', _, hbase, hruns 2 (Nat.le_refl 2), hruns' 1 (Nat.le_refl 1), hback⟩

end NativePack
end Artifacts
