import Artifacts.NativePack.Ingest

/-!
# The layers of the resolver

Delta resolution came in three steps.  `storeNonDeltaEntries` takes packs without deltas,
`storeWithRefDeltaResolution` has deltas that name their base by its hash as well, and
`storeWithFullResolution` has all of them.  A pack that an earlier layer takes is taken by
the later ones, with the same count and the same store, whatever the store does.

`SameStore` and `SameEnd` compare two ends of a layer, `EndAlike` also where a pass is missing.
The errors of two layers have texts of their own and are not compared.
-/

namespace Artifacts
namespace NativePack

open Foundation Rust

/-! ### The earlier layers -/

/-- The store, and how many objects were written to it: what both resolvers hand on from entry to
entry, whatever else they remember. -/
structure Stored (σ : Type) where
  store : σ
  count : Nat

section Layers

variable (printable : Char → Bool) (sha1 : Sha1) (zlib : Zlib) {σ : Type}
  (store : ObjectStore σ) (repoId : RepoId)

/-- Hash, deflate and write an object. -/
def writeObject (u : Stored σ) (x : Object) : Result Unit × Stored σ :=
  match looseFormatBytes zlib x with
  | .error e => (.error e, u)
  | .ok loose =>
      match store.writeLoose u.store repoId (looseOidHex sha1 x) loose with
      | (.error e, s) => (.error e, { u with store := s })
      | (.ok _, s) => (.ok (), ⟨s, u.count + 1⟩)

/-- The loop of `store_non_delta_entries`. -/
def storeNonDeltas : List (ParsedEntry × Nat) → Stored σ → Result Unit × Stored σ
  | [], u => (.ok (), u)
  | (entry, i) :: rest, u =>
      match entry.kind with
      | .direct kind =>
          match writeObject sha1 zlib store repoId u ⟨kind, entry.data⟩ with
          | (.error e, u) => (.error e, u)
          | (.ok _, u) => storeNonDeltas rest u
      | .refDelta _ | .ofsDelta _ =>
          (.error (.packParse ("entry " ++ toString i ++
            ": delta entries not yet supported (D2/D3)")), u)

/-- `store_non_delta_entries`. The first delta ends it with an error that names its place, and what
was written before stays. -/
def storeNonDeltaEntries (decompressZlib : DecompressZlib) (packBytes : List UInt8) (s : σ) :
    Result Nat × σ :=
  match parsePack decompressZlib packBytes with
  | .error e => (.error e, s)
  | .ok entries =>
      match storeNonDeltas sha1 zlib store repoId entries.zipIdx ⟨s, 0⟩ with
      | (.error e, u) => (.error e, u.store)
      | (.ok _, u) => (.ok u.count, u.store)

/-- Phase 1 of `store_with_ref_delta_resolution`. -/
def writeDirects : List ParsedEntry → Stored σ → Result Unit × Stored σ
  | [], u => (.ok (), u)
  | entry :: rest, u =>
      match entry.kind with
      | .direct kind =>
          match writeObject sha1 zlib store repoId u ⟨kind, entry.data⟩ with
          | (.error e, u) => (.error e, u)
          | (.ok _, u) => writeDirects rest u
      | _ => writeDirects rest u

/-- The entries that phase 2 has to resolve. -/
def deltaIndices (entries : List ParsedEntry) : List Nat :=
  entries.zipIdx.filterMap fun entry =>
    match entry.1.kind with
    | .refDelta _ => some entry.2
    | .ofsDelta _ => some entry.2
    | .direct _ => none

/-- `matches!(entries[i].kind, ParsedKind::OfsDelta { .. })`. -/
def isOfsAt (entries : List ParsedEntry) (i : Nat) : Bool :=
  match (entries[i]?).map ParsedEntry.kind with
  | some (.ofsDelta _) => true
  | _ => false

/-- Phase 2 for one pending entry. -/
def attemptRefDelta (entries : List ParsedEntry) (u : Stored σ) (i : Nat) :
    Attempt (Stored σ) Error :=
  match entries[i]? with
  | none => .failed (.other "index out of bounds") u
  | some entry =>
      match entry.kind with
      | .refDelta baseOid =>
          match readLooseInflated printable zlib store u.store repoId (hexOid baseOid) with
          | .error e => .failed e u
          | .ok none => .waits
          | .ok (some base) =>
              match applyDelta base.payload entry.data with
              | .error e =>
                  .failed (.packParse ("entry " ++ toString i ++ ": REF_DELTA apply against " ++
                    (hexOid baseOid).text ++ ": " ++ e.display)) u
              | .ok target =>
                  match writeObject sha1 zlib store repoId u ⟨base.kind, target⟩ with
                  | (.error e, u) => .failed e u
                  | (.ok _, u) => .done u
      -- a panic in the source, which no pending entry reaches
      | _ => .failed (.other "internal error: entered unreachable code: filtered to delta kinds above") u

/-- The error of a pass without progress. -/
def refStuckError (pending : Nat) : Error :=
  .packParse ("ref_delta resolution: " ++ toString pending ++ " entries with missing bases")

/-- The two phases, with a bound on the passes of the second one. -/
def storeRefEntries (fuel : Nat) (entries : List ParsedEntry) (s : σ) : Option (Result Nat × σ) :=
  match writeDirects sha1 zlib store repoId entries ⟨s, 0⟩ with
  | (.error e, u) => some (.error e, u.store)
  | (.ok _, u) =>
      let pending := deltaIndices entries
      if pending = [] then
        some (.ok u.count, u.store)
      else
        match pending.find? (isOfsAt entries) with
        | some i =>
            some (.error (.packParse ("entry " ++ toString i ++
              ": OFS_DELTA not yet supported (D3)")), u.store)
        | none =>
            match passesUntilEmpty (attemptRefDelta printable sha1 zlib store repoId entries)
                refStuckError fuel pending u with
            | none => none
            | some (.error e, u) => some (.error e, u.store)
            | some (.ok _, u) => some (.ok u.count, u.store)

/-- `store_with_ref_delta_resolution`. `fuel` bounds the passes; `none` is that they were not
enough, and is no answer of the code. -/
def storeWithRefDeltaResolution (decompressZlib : DecompressZlib) (fuel : Nat)
    (packBytes : List UInt8) (s : σ) : Option (Result Nat × σ) :=
  match parsePack decompressZlib packBytes with
  | .error e => some (.error e, s)
  | .ok entries => storeRefEntries printable sha1 zlib store repoId fuel entries s

end Layers

/-! ### The same object, stored by each layer -/

section Layers

variable {printable : Char → Bool} {sha1 : Sha1} {zlib : Zlib} {σ : Type}
  {store : ObjectStore σ} {repoId : RepoId}

/-- The full resolver remembers objects beside the store and the count. -/
def SameStore (u : Stored σ) (v : Resolution σ) : Prop := u.store = v.store ∧ u.count = v.count

/-- Two results of which both or none are good, with the same store. -/
inductive SameEnd : Result Unit × Stored σ → Result Unit × Resolution σ → Prop where
  | ok {u : Stored σ} {v : Resolution σ} : SameStore u v → SameEnd (.ok (), u) (.ok (), v)
  | error {e e' : Error} {u : Stored σ} {v : Resolution σ} : SameStore u v →
      SameEnd (.error e, u) (.error e', v)

theorem writeObject_same {u : Stored σ} {v : Resolution σ} (h : SameStore u v) (i : Nat)
    (x : Object) :
    SameEnd (writeObject sha1 zlib store repoId u x) (storeObject sha1 zlib store repoId v i x) := by
  obtain ⟨hstore, hcount⟩ := h
  unfold writeObject storeObject looseFormatBytes
  simp only [hstore]
  generalize store.writeLoose v.store repoId (looseOidHex sha1 x) (zlib.deflate (looseBytes x)) =
    result
  obtain ⟨outcome, s⟩ := result
  cases outcome with
  | error e => exact .error ⟨rfl, hcount⟩
  | ok _ => exact .ok ⟨rfl, by rw [hcount]⟩

/-- Phase 1 of the second layer is phase 1 of the third one. -/
theorem writeDirects_same {l : List (ParsedEntry × Nat)} {u : Stored σ} {v : Resolution σ}
    (h : SameStore u v) :
    SameEnd (writeDirects sha1 zlib store repoId (l.map Prod.fst) u)
      (storeDirects sha1 zlib store repoId l v) := by
  induction l generalizing u v with
  | nil => exact .ok h
  | cons entry l ih =>
      obtain ⟨e, i⟩ := entry
      simp only [List.map_cons, writeDirects, storeDirects]
      cases e.kind with
      | refDelta oid => exact ih h
      | ofsDelta delta => exact ih h
      | direct kind =>
          simp only []
          have hfirst := @writeObject_same sha1 zlib σ store repoId u v h i ⟨kind, e.data⟩
          generalize writeObject sha1 zlib store repoId u ⟨kind, e.data⟩ = first at hfirst ⊢
          generalize storeObject sha1 zlib store repoId v i ⟨kind, e.data⟩ = second at hfirst ⊢
          cases hfirst with
          | error herror => exact .error herror
          | ok hok => exact ih hok

/-- Without deltas the first layer does the same. -/
theorem storeNonDeltas_eq {l : List (ParsedEntry × Nat)}
    (h : ∀ entry ∈ l, isDirect entry.1 = true) (u : Stored σ) :
    storeNonDeltas sha1 zlib store repoId l u =
      writeDirects sha1 zlib store repoId (l.map Prod.fst) u := by
  induction l generalizing u with
  | nil => rfl
  | cons entry l ih =>
      obtain ⟨e, i⟩ := entry
      obtain ⟨kind, hkind⟩ : ∃ kind, e.kind = .direct kind :=
        isDirect_iff.mp (h (e, i) List.mem_cons_self)
      have hrest := ih fun entry hentry => h entry (List.mem_cons_of_mem _ hentry)
      simp only [List.map_cons, storeNonDeltas, writeDirects, hkind, hrest]

/-- With one it fails. -/
theorem storeNonDeltas_direct {l : List (ParsedEntry × Nat)} {u t : Stored σ}
    (h : storeNonDeltas sha1 zlib store repoId l u = (.ok (), t)) :
    ∀ entry ∈ l, isDirect entry.1 = true := by
  induction l generalizing u with
  | nil => exact nofun
  | cons entry l ih =>
      obtain ⟨e, i⟩ := entry
      simp only [storeNonDeltas] at h
      cases hkind : e.kind with
      | refDelta oid =>
          rw [hkind] at h
          cases h
      | ofsDelta delta =>
          rw [hkind] at h
          cases h
      | direct kind =>
          rw [hkind] at h
          simp only [] at h
          split at h
          · cases h
          · intro entry hentry
            rcases List.mem_cons.mp hentry with rfl | hentry
            · exact isDirect_iff.mpr ⟨kind, hkind⟩
            · exact ih h entry hentry

/-! ### What is pending -/

/-- Behind phase 1 the direct entries are remembered, whatever the store did. -/
theorem storeDirects_resolved {l : List (ParsedEntry × Nat)} {u t : Resolution σ}
    (h : storeDirects sha1 zlib store repoId l u = (.ok (), t)) (i : Nat) :
    (t.resolved i).isSome = true ↔
      (u.resolved i).isSome = true ∨ ∃ entry ∈ l, isDirect entry.1 = true ∧ entry.2 = i := by
  induction l generalizing u with
  | nil =>
      cases h
      simp
  | cons entry l ih =>
      obtain ⟨e, j⟩ := entry
      simp only [storeDirects] at h
      by_cases hdirect : isDirect e = true
      · obtain ⟨kind, hkind⟩ := isDirect_iff.mp hdirect
        rw [hkind] at h
        simp only [storeObject, looseFormatBytes] at h
        generalize store.writeLoose u.store repoId _ _ = written at h
        obtain ⟨outcome, s⟩ := written
        cases outcome with
        | error e => cases h
        | ok _ =>
            rw [ih h]
            by_cases hij : i = j
            · subst hij
              simp [hdirect]
            · simp only [if_neg hij, List.mem_cons, exists_eq_or_imp]
              simp [Ne.symm hij]
      · have hskip : storeDirects sha1 zlib store repoId l u = (.ok (), t) := by
          cases hkind : e.kind with
          | direct kind => exact absurd (isDirect_iff.mpr ⟨kind, hkind⟩) hdirect
          | refDelta oid =>
              rw [hkind] at h
              exact h
          | ofsDelta delta =>
              rw [hkind] at h
              exact h
        rw [ih hskip]
        simp [hdirect]

/-- The layers have the same entries pending. -/
theorem deltaIndices_eq {entries : List ParsedEntry} {s : σ} {t : Resolution σ}
    (h : storeDirects sha1 zlib store repoId entries.zipIdx ⟨s, fun _ => none, 0⟩ = (.ok (), t)) :
    deltaIndices entries = (List.range entries.length).filter fun i => (t.resolved i).isNone := by
  have hresolved : ∀ i, (t.resolved i).isSome = true ↔
      ∃ entry ∈ entries.zipIdx, isDirect entry.1 = true ∧ entry.2 = i := by
    intro i
    rw [storeDirects_resolved h i]
    simp
  rw [pending_eq hresolved, deltaIndices, ← List.filterMap_eq_map, ← List.filterMap_eq_filter,
    List.filterMap_filterMap]
  refine List.filterMap_congr fun entry _ => ?_
  cases hkind : entry.1.kind <;> simp [Option.guard, isDirect, hkind]

theorem mem_deltaIndices {entries : List ParsedEntry} {i : Nat} (h : i ∈ deltaIndices entries) :
    ∃ e, entries[i]? = some e ∧ isDirect e = false := by
  obtain ⟨entry, hentry, hsome⟩ := List.mem_filterMap.mp h
  refine ⟨entry.1, ?_, ?_⟩
  · have hi := List.mem_zipIdx_iff_getElem?.mp hentry
    cases hkind : entry.1.kind <;> rw [hkind] at hsome <;> cases hsome <;> exact hi
  · unfold isDirect
    cases hkind : entry.1.kind with
    | direct kind =>
        rw [hkind] at hsome
        cases hsome
    | refDelta oid => rfl
    | ofsDelta delta => rfl

theorem deltaIndices_eq_nil_iff {entries : List ParsedEntry} :
    deltaIndices entries = [] ↔ ∀ e ∈ entries, isDirect e = true := by
  rw [deltaIndices, List.filterMap_eq_nil_iff]
  constructor
  · intro h e he
    obtain ⟨i, hi⟩ := List.mem_iff_getElem?.mp he
    have hnone := h (e, i) (List.mem_zipIdx_iff_getElem?.mpr hi)
    unfold isDirect
    cases hkind : e.kind <;> simp [hkind] at hnone ⊢
  · intro h entry hentry
    have hi := List.mem_zipIdx_iff_getElem?.mp hentry
    obtain ⟨kind, hkind⟩ := isDirect_iff.mp (h entry.1 (List.mem_of_getElem? hi))
    simp [hkind]

/-! ### Phase 2 -/

/-- **An attempt at a delta that names its base by its hash** comes to the same in both
layers; only the texts of their errors differ. -/
theorem attemptRefDelta_agrees {entries : List ParsedEntry} {i : Nat} {e : ParsedEntry}
    (hi : entries[i]? = some e) {oid : Vector UInt8 20} (hkind : e.kind = .refDelta oid)
    {u : Stored σ} {v : Resolution σ} (h : SameStore u v) :
    (attemptRefDelta printable sha1 zlib store repoId entries u i).Agrees SameStore
      (attemptDelta printable sha1 zlib store repoId entries v i) := by
  unfold attemptRefDelta attemptDelta findBase
  simp only [hi, hkind, h.1]
  cases hread : readLooseInflated printable zlib store v.store repoId (hexOid oid) with
  | error err => exact .failed h
  | ok found =>
      cases found with
      | none => exact .waits
      | some base =>
          simp only []
          cases happly : applyDelta base.payload e.data with
          | error err => exact .failed h
          | ok target =>
              have hwrite := @writeObject_same sha1 zlib σ store repoId u v h i ⟨base.kind, target⟩
              simp only []
              generalize writeObject sha1 zlib store repoId u ⟨base.kind, target⟩ = first
                at hwrite ⊢
              generalize storeObject sha1 zlib store repoId v i ⟨base.kind, target⟩ = second
                at hwrite ⊢
              cases hwrite with
              | error herror => exact .failed herror
              | ok hok => exact .done hok

/-- The entry is a delta that names its base by its distance. -/
def isOfs (e : ParsedEntry) : Bool :=
  match e.kind with
  | .ofsDelta _ => true
  | _ => false

theorem isOfsAt_eq {entries : List ParsedEntry} {i : Nat} {e : ParsedEntry}
    (hi : entries[i]? = some e) : isOfsAt entries i = isOfs e := by
  unfold isOfsAt isOfs
  rw [hi, Option.map_some]
  cases e.kind <;> rfl

/-- The layer looks for such a delta among the pending ones, and finds one if there is one. -/
theorem find_isOfsAt_eq_none_iff {entries : List ParsedEntry} :
    (deltaIndices entries).find? (isOfsAt entries) = none ↔ ∀ e ∈ entries, isOfs e = false := by
  rw [List.find?_eq_none]
  constructor
  · intro h e he
    obtain ⟨i, hi⟩ := List.mem_iff_getElem?.mp he
    by_contra hofs
    rw [Bool.not_eq_false] at hofs
    refine h i ?_ (by rw [isOfsAt_eq hi, hofs])
    refine List.mem_filterMap.mpr ⟨(e, i), List.mem_zipIdx_iff_getElem?.mpr hi, ?_⟩
    unfold isOfs at hofs
    cases hkind : e.kind <;> simp [hkind] at hofs ⊢
  · intro h i hi
    obtain ⟨e, he, -⟩ := mem_deltaIndices hi
    rw [isOfsAt_eq he, h e (List.mem_of_getElem? he)]
    exact Bool.false_ne_true

/-! ### The layers on one pack -/

/-- The second layer and the third one end alike: both run on, or leave the same store, with
the same count or both with an error. -/
inductive EndAlike : Option (Result Nat × σ) → Option (Result Nat × σ) → Prop where
  | runs : EndAlike none none
  | ok {n : Nat} {s : σ} : EndAlike (some (.ok n, s)) (some (.ok n, s))
  | error {e e' : Error} {s : σ} : EndAlike (some (.error e, s)) (some (.error e', s))

theorem EndAlike.ok_iff {a b : Option (Result Nat × σ)} (h : EndAlike a b) (n : Nat) (s : σ) :
    a = some (.ok n, s) ↔ b = some (.ok n, s) := by
  cases h with
  | runs => exact Iff.rfl
  | ok => exact Iff.rfl
  | error => exact iff_of_false nofun nofun

/-- Without deltas by distance the second layer ends as the third one. -/
theorem storeRefEntries_alike {entries : List ParsedEntry} (h : ∀ e ∈ entries, isOfs e = false)
    (fuel : Nat) (s : σ) :
    EndAlike (storeRefEntries printable sha1 zlib store repoId fuel entries s)
      (storeEntries printable sha1 zlib store repoId fuel entries s) := by
  have hstart : SameStore (⟨s, 0⟩ : Stored σ) ⟨s, fun _ => none, 0⟩ := ⟨rfl, rfl⟩
  have hdirects := @writeDirects_same sha1 zlib σ store repoId entries.zipIdx _ _ hstart
  have hentries : entries.zipIdx.map Prod.fst = entries := List.zipIdx_map_fst 0 entries
  rw [hentries] at hdirects
  unfold storeRefEntries storeEntries
  generalize writeDirects sha1 zlib store repoId entries ⟨s, 0⟩ = first at hdirects ⊢
  cases hsecond : storeDirects sha1 zlib store repoId entries.zipIdx ⟨s, fun _ => none, 0⟩ with
  | mk outcome v =>
      rw [hsecond] at hdirects
      cases hdirects with
      | @error e e' u _ hsame =>
          simp only [hsame.1]
          exact .error
      | @ok u _ hsame =>
          have hpending := deltaIndices_eq hsecond
          simp only [← hpending, find_isOfsAt_eq_none_iff.mpr h]
          split_ifs with hnil
          · -- no deltas: the third layer has nothing to pass over
            rw [hnil]
            simp only [passes, hsame.1, hsame.2]
            exact .ok
          · rw [passesUntilEmpty_eq hnil]
            have hagree := @passes_agree _ _ _ (attemptRefDelta printable sha1 zlib store repoId
              entries) refStuckError _ _ SameStore (attemptDelta printable sha1 zlib store repoId
              entries) stuckError fuel (deltaIndices entries) (fun i hi u v huv => by
                obtain ⟨e, he, hdelta⟩ := mem_deltaIndices hi
                have hofs := h e (List.mem_of_getElem? he)
                cases hkind : e.kind with
                | direct kind => simp [isDirect, hkind] at hdelta
                | ofsDelta delta => simp [isOfs, hkind] at hofs
                | refDelta oid => exact attemptRefDelta_agrees he hkind huv) u v hsame
            generalize passes (attemptRefDelta printable sha1 zlib store repoId entries)
              refStuckError fuel (deltaIndices entries) u = runs at hagree ⊢
            generalize passes (attemptDelta printable sha1 zlib store repoId entries) stuckError
              fuel (deltaIndices entries) v = runs' at hagree ⊢
            cases hagree with
            | runs => exact .runs
            | finished hend =>
                simp only [hend.1, hend.2]
                exact .ok
            | failed hend =>
                simp only [hend.1]
                exact .error

/-- With such a delta the second layer fails. -/
theorem not_isOfs_of_storeRefEntries {entries : List ParsedEntry} {fuel n : Nat} {s s' : σ}
    (h : storeRefEntries printable sha1 zlib store repoId fuel entries s = some (.ok n, s')) :
    ∀ e ∈ entries, isOfs e = false := by
  unfold storeRefEntries at h
  split at h
  · cases h
  · simp only [] at h
    split_ifs at h with hnil
    · intro e he
      obtain ⟨kind, hkind⟩ := isDirect_iff.mp (deltaIndices_eq_nil_iff.mp hnil e he)
      simp [isOfs, hkind]
    · cases hfind : (deltaIndices entries).find? (isOfsAt entries) with
      | some i =>
          rw [hfind] at h
          cases h
      | none => exact find_isOfsAt_eq_none_iff.mp hfind

/-- Without deltas the first layer ends as the third one. -/
theorem storeNonDeltas_alike {entries : List ParsedEntry}
    (h : ∀ e ∈ entries, isDirect e = true) (fuel : Nat) (s : σ) (n : Nat) (s' : σ) :
    (∃ u, storeNonDeltas sha1 zlib store repoId entries.zipIdx ⟨s, 0⟩ = (.ok (), u) ∧
        u.count = n ∧ u.store = s') ↔
      storeEntries printable sha1 zlib store repoId fuel entries s = some (.ok n, s') := by
  have hofs : ∀ e ∈ entries, isOfs e = false := by
    intro e he
    obtain ⟨kind, hkind⟩ := isDirect_iff.mp (h e he)
    simp [isOfs, hkind]
  have hzip : ∀ entry ∈ entries.zipIdx, isDirect entry.1 = true := fun entry hentry =>
    h entry.1 (List.mem_of_getElem? (List.mem_zipIdx_iff_getElem?.mp hentry))
  have hentries : entries.zipIdx.map Prod.fst = entries := List.zipIdx_map_fst 0 entries
  rw [← (storeRefEntries_alike hofs fuel s).ok_iff, storeNonDeltas_eq hzip, hentries]
  unfold storeRefEntries
  rw [deltaIndices_eq_nil_iff.mpr h]
  cases writeDirects sha1 zlib store repoId entries ⟨s, 0⟩ with
  | mk outcome u =>
      cases outcome with
      | error e =>
          refine iff_of_false ?_ nofun
          rintro ⟨u', hu', -⟩
          cases hu'
      | ok _ =>
          constructor
          · rintro ⟨u', hu', rfl, rfl⟩
            cases hu'
            rfl
          · intro hrun
            cases hrun
            exact ⟨u, rfl, rfl, rfl⟩

/-- A pass for each entry is enough for the third layer. -/
theorem storeEntries_isSome {fuel : Nat} {entries : List ParsedEntry}
    (h : entries.length ≤ fuel) (s : σ) :
    (storeEntries printable sha1 zlib store repoId fuel entries s).isSome = true := by
  unfold storeEntries
  split
  · rfl
  · rename_i u _
    have hpending : ((List.range entries.length).filter fun i =>
        (u.resolved i).isNone).length ≤ fuel := by
      have hfilter := List.length_filter_le (fun i => (u.resolved i).isNone)
        (List.range entries.length)
      rw [List.length_range] at hfilter
      omega
    obtain ⟨⟨outcome, u'⟩, hresult⟩ : ∃ result,
        passes (attemptDelta printable sha1 zlib store repoId entries) stuckError fuel
          ((List.range entries.length).filter fun i => (u.resolved i).isNone) u = some result :=
      passes_isSome hpending
    simp only [hresult]
    cases outcome <;> rfl

/-- And for the second one. -/
theorem storeRefEntries_isSome {fuel : Nat} {entries : List ParsedEntry}
    (h : entries.length ≤ fuel) (s : σ) :
    (storeRefEntries printable sha1 zlib store repoId fuel entries s).isSome = true := by
  have hpending : (deltaIndices entries).length ≤ fuel := by
    have hdeltas : (deltaIndices entries).length ≤ entries.zipIdx.length :=
      List.length_filterMap_le _ _
    rw [List.length_zipIdx] at hdeltas
    omega
  unfold storeRefEntries
  split
  · rfl
  · rename_i u _
    simp only []
    split_ifs with hnil
    · rfl
    · split
      · rfl
      · obtain ⟨⟨outcome, u'⟩, hresult⟩ : ∃ result,
            passes (attemptRefDelta printable sha1 zlib store repoId entries) refStuckError fuel
              (deltaIndices entries) u = some result :=
          passes_isSome hpending
        rw [passesUntilEmpty_eq hnil, hresult]
        cases outcome <;> rfl

/-- **The layers of the resolver.** On every pack and every store, also one that fails or
loses objects: the first layer takes a pack exactly when it has no deltas and the third
layer takes it, and the second layer when it has no deltas by distance and the third layer
takes it; the count and the store are the same.  On packs without deltas by distance the
second layer also fails where the third one does, with the same store behind it.  Both loops
end, with at most one pass for each entry of the pack. -/
theorem layers_agree (printable : Char → Bool) (sha1 : Sha1) (zlib : Zlib) {σ : Type}
    (store : ObjectStore σ) (repoId : RepoId) (decompressZlib : DecompressZlib)
    (packBytes : List UInt8) (fuel : Nat) (s : σ) :
    (∀ n s', storeNonDeltaEntries sha1 zlib store repoId decompressZlib packBytes s = (.ok n, s') ↔
      (∀ entries, parsePack decompressZlib packBytes = .ok entries →
        ∀ e ∈ entries, isDirect e = true) ∧
      storeWithFullResolution printable sha1 zlib store repoId decompressZlib fuel packBytes s =
        some (.ok n, s')) ∧
      (∀ n s', storeWithRefDeltaResolution printable sha1 zlib store repoId decompressZlib fuel
          packBytes s = some (.ok n, s') ↔
        (∀ entries, parsePack decompressZlib packBytes = .ok entries →
          ∀ e ∈ entries, isOfs e = false) ∧
        storeWithFullResolution printable sha1 zlib store repoId decompressZlib fuel packBytes s =
          some (.ok n, s')) ∧
      ((∀ entries, parsePack decompressZlib packBytes = .ok entries →
          ∀ e ∈ entries, isOfs e = false) →
        EndAlike
          (storeWithRefDeltaResolution printable sha1 zlib store repoId decompressZlib fuel
            packBytes s)
          (storeWithFullResolution printable sha1 zlib store repoId decompressZlib fuel packBytes
            s)) ∧
      ((∀ entries, parsePack decompressZlib packBytes = .ok entries → entries.length ≤ fuel) →
        (storeWithRefDeltaResolution printable sha1 zlib store repoId decompressZlib fuel
            packBytes s).isSome = true ∧
          (storeWithFullResolution printable sha1 zlib store repoId decompressZlib fuel packBytes
            s).isSome = true) := by
  unfold storeNonDeltaEntries storeWithRefDeltaResolution storeWithFullResolution
  cases hparse : parsePack decompressZlib packBytes with
  | error e =>
      refine ⟨fun n s' => ?_, fun n s' => ?_, fun _ => .error, fun _ => ⟨rfl, rfl⟩⟩
      · refine iff_of_false nofun fun h => ?_
        cases h.2
      · refine iff_of_false nofun fun h => ?_
        cases h.2
  | ok entries =>
      -- an entry that an earlier layer cannot take makes that layer fail
      simp only [Except.ok.injEq, forall_eq']
      refine ⟨fun n s' => ?_, fun n s' => ?_, fun h => storeRefEntries_alike h fuel s,
        fun h => ⟨storeRefEntries_isSome h s, storeEntries_isSome h s⟩⟩
      · constructor
        · intro h
          split at h
          · cases h
          · rename_i u hrun
            cases h
            have hdirect : ∀ e ∈ entries, isDirect e = true := by
              intro e he
              obtain ⟨i, hi⟩ := List.mem_iff_getElem?.mp he
              exact storeNonDeltas_direct hrun (e, i) (List.mem_zipIdx_iff_getElem?.mpr hi)
            exact ⟨hdirect, (storeNonDeltas_alike hdirect fuel s _ _).mp ⟨u, hrun, rfl, rfl⟩⟩
        · rintro ⟨hdirect, hrun⟩
          obtain ⟨u, hu, rfl, rfl⟩ := (storeNonDeltas_alike hdirect fuel s _ _).mpr hrun
          rw [hu]
      · constructor
        · intro h
          have hofs := not_isOfs_of_storeRefEntries h
          exact ⟨hofs, ((storeRefEntries_alike hofs fuel s).ok_iff n s').mp h⟩
        · rintro ⟨hofs, hrun⟩
          exact ((storeRefEntries_alike hofs fuel s).ok_iff n s').mpr hrun

end Layers

end NativePack
end Artifacts
