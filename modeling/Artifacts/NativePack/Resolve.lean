import Artifacts.Foundation.Retry
import Artifacts.NativePack.Entries

/-!
# Delta resolution

`storeWithFullResolution` writes the direct entries of a pack into the object store and
then retries the deltas in passes until all of them have found their bases.  `Resolves`
is the meaning of a pack on its own: what object an entry stands for, as a derivation
from the entries and the objects that were stored before.

* `objectAt` reads an object back as `read_loose_inflated` does; `WellFormed` says that all can.
* `Sound` is the invariant of the passes: what is stored is known, and what is resolved is
  stored.
* A pass that resolves nothing leaves deltas without a base, which is where the loop may fail.

SHA-1 and zlib are parameters.  Of SHA-1 it is asked that no two known objects collide.
-/

namespace Artifacts
namespace NativePack

open Foundation Rust

/-! ### The resolver -/

/-- The store, the entries that are materialized (`resolved`), and how many. Entries are known by
their place in the pack. -/
structure Resolution (σ : Type) where
  store : σ
  resolved : Nat → Option Object
  count : Nat

section Resolver

variable (printable : Char → Bool) (sha1 : Sha1) (zlib : Zlib) {σ : Type}
  (store : ObjectStore σ) (repoId : RepoId)

/-- Hash, deflate and write the object of entry `i`, and remember it. -/
def storeObject (u : Resolution σ) (i : Nat) (x : Object) : Result Unit × Resolution σ :=
  match looseFormatBytes zlib x with
  | .error e => (.error e, u)
  | .ok loose =>
      match store.writeLoose u.store repoId (looseOidHex sha1 x) loose with
      | (.error e, s) => (.error e, { u with store := s })
      | (.ok _, s) => (.ok (), ⟨s, fun j => if j = i then some x else u.resolved j, u.count + 1⟩)

/-- Phase 1: the direct entries. -/
def storeDirects : List (ParsedEntry × Nat) → Resolution σ → Result Unit × Resolution σ
  | [], u => (.ok (), u)
  | (entry, i) :: rest, u =>
      match entry.kind with
      | .direct kind =>
          match storeObject sha1 zlib store repoId u i ⟨kind, entry.data⟩ with
          | (.error e, u) => (.error e, u)
          | (.ok _, u) => storeDirects rest u
      | _ => storeDirects rest u

/-- `offset_to_idx`, a map in which the last entry of an offset stays. -/
def offsetToIdx (entries : List ParsedEntry) (offset : Nat) : Option Nat :=
  ((entries.zipIdx.filter fun entry => entry.1.offset == offset).getLast?).map Prod.snd

/-- The base of a pending entry, if it is there yet. -/
def findBase (entries : List ParsedEntry) (u : Resolution σ) (i : Nat) (entry : ParsedEntry) :
    Result (Option Object) :=
  match entry.kind with
  -- a panic in the source, which no pending entry reaches
  | .direct _ => .error (.other "internal error: entered unreachable code: Direct entries already resolved")
  | .refDelta baseOid =>
      readLooseInflated printable zlib store u.store repoId (hexOid baseOid)
  | .ofsDelta delta =>
      if entry.offset < delta then
        .error (.packParse ("entry " ++ toString i ++ ": OFS_DELTA base offset underflow (" ++
          toString entry.offset ++ " - " ++ toString delta ++ ")"))
      else
        match offsetToIdx entries (entry.offset - delta) with
        | none =>
            .error (.packParse ("entry " ++ toString i ++ ": OFS_DELTA base offset " ++
              toString (entry.offset - delta) ++ " doesn't match any entry"))
        | some baseIdx => .ok (u.resolved baseIdx)

/-- Phase 2 for one pending entry. -/
def attemptDelta (entries : List ParsedEntry) (u : Resolution σ) (i : Nat) :
    Attempt (Resolution σ) Error :=
  match entries[i]? with
  | none => .failed (.other "index out of bounds") u
  | some entry =>
      match findBase printable zlib store repoId entries u i entry with
      | .error e => .failed e u
      | .ok none => .waits
      | .ok (some base) =>
          match applyDelta base.payload entry.data with
          | .error e =>
              .failed (.packParse ("entry " ++ toString i ++ ": apply_delta: " ++ e.display)) u
          | .ok target =>
              match storeObject sha1 zlib store repoId u i ⟨base.kind, target⟩ with
              | (.error e, u) => .failed e u
              | (.ok _, u) => .done u

/-- The error of a pass without progress. -/
def stuckError (pending : Nat) : Error :=
  .packParse ("delta resolution stuck: " ++ toString pending ++ " entries with missing bases")

/-- The two phases, with a bound on the passes of the second one. -/
def storeEntries (fuel : Nat) (entries : List ParsedEntry) (s : σ) : Option (Result Nat × σ) :=
  match storeDirects sha1 zlib store repoId entries.zipIdx ⟨s, fun _ => none, 0⟩ with
  | (.error e, u) => some (.error e, u.store)
  | (.ok _, u) =>
      let pending := (List.range entries.length).filter fun i => (u.resolved i).isNone
      match passes (attemptDelta printable sha1 zlib store repoId entries) stuckError fuel
          pending u with
      | none => none
      | some (.error e, u) => some (.error e, u.store)
      | some (.ok _, u) => some (.ok u.count, u.store)

/-- `store_with_full_resolution`. `fuel` bounds the passes over what is pending; `none` is that they
were not enough, and is no answer of the code. -/
def storeWithFullResolution (decompressZlib : DecompressZlib) (fuel : Nat)
    (packBytes : List UInt8) (s : σ) : Option (Result Nat × σ) :=
  match parsePack decompressZlib packBytes with
  | .error e => some (.error e, s)
  | .ok entries => storeEntries printable sha1 zlib store repoId fuel entries s

/-! ### What a pack means -/

/-- The object that the store holds under an id. -/
def objectAt (s : σ) (oid : Oid) : Option Object :=
  match store.readLoose s repoId oid with
  | .ok (some bytes) => (inflateLoose printable zlib oid bytes).toOption
  | _ => none

/-- Every stored object is a zlib stream of a loose object, under its own hash. The resolver keeps
it, so it holds of a store that only packs were stored in. -/
def WellFormed (s : σ) : Prop :=
  ∀ oid bytes, store.readLoose s repoId oid = .ok (some bytes) →
    ∃ x, zlib.inflate bytes = .ok (looseBytes x) ∧ looseOidHex sha1 x = oid

end Resolver

section Meaning

variable (sha1 : Sha1) (pack : Pack) (stored : Oid → Option Object)

/-- The object an entry of the pack stands for, whatever the order in which the resolver comes to
it. A base is an entry of the pack or an object that was stored before the pack came. -/
inductive Resolves : ParsedEntry → Object → Prop where
  | direct {e : ParsedEntry} {kind : ObjectKind} : e.kind = .direct kind →
      Resolves e ⟨kind, e.data⟩
  /-- A delta against the entry so many bytes before it. -/
  | ofs {e b : ParsedEntry} {delta : Nat} {base : Object} {target : List UInt8} :
      e.kind = .ofsDelta delta → b ∈ pack.entries → b.offset + delta = e.offset →
      Resolves b base → applyDelta base.payload e.data = .ok target →
      Resolves e ⟨base.kind, target⟩
  /-- A delta against an object that was stored before. -/
  | stored {e : ParsedEntry} {oid : Vector UInt8 20} {base : Object} {target : List UInt8} :
      e.kind = .refDelta oid → stored (hexOid oid) = some base →
      applyDelta base.payload e.data = .ok target → Resolves e ⟨base.kind, target⟩
  /-- A delta against an object of the pack. -/
  | packed {e b : ParsedEntry} {oid : Vector UInt8 20} {base : Object} {target : List UInt8} :
      e.kind = .refDelta oid → b ∈ pack.entries → Resolves b base →
      looseOidHex sha1 base = hexOid oid → applyDelta base.payload e.data = .ok target →
      Resolves e ⟨base.kind, target⟩

/-- The base of a delta is to be had, from the pack without a cycle or from the store. -/
def BaseOf (e : ParsedEntry) (base : Object) : Prop :=
  match e.kind with
  | .direct _ => False
  | .ofsDelta delta =>
      ∃ b ∈ pack.entries, b.offset + delta = e.offset ∧ Resolves sha1 pack stored b base
  | .refDelta oid =>
      stored (hexOid oid) = some base ∨
        ∃ b ∈ pack.entries, Resolves sha1 pack stored b base ∧ looseOidHex sha1 base = hexOid oid

/-- The entry is a delta. -/
def IsDelta (e : ParsedEntry) : Prop :=
  ∀ kind, e.kind ≠ .direct kind

/-- An object that is stored, or that an entry stands for. -/
def Known (x : Object) : Prop :=
  (∃ oid, stored oid = some x) ∨ ∃ e ∈ pack.entries, Resolves sha1 pack stored e x

/-- No two known objects have the same SHA-1. It is asked of the objects at hand only, for it is
false of all. -/
def NoCollision : Prop :=
  ∀ x y, Known sha1 pack stored x → Known sha1 pack stored y →
    looseOidHex sha1 x = looseOidHex sha1 y → x = y

end Meaning

section Meaning

variable {sha1 : Sha1} {pack : Pack} {stored : Oid → Option Object}

theorem Resolves.known {e : ParsedEntry} {x : Object} (he : e ∈ pack.entries)
    (h : Resolves sha1 pack stored e x) : Known sha1 pack stored x :=
  Or.inr ⟨e, he, h⟩

/-- A delta is resolved by its base. -/
theorem resolves_of_base {e : ParsedEntry} {base : Object} {target : List UInt8}
    (hbase : BaseOf sha1 pack stored e base) (happly : applyDelta base.payload e.data = .ok target) :
    Resolves sha1 pack stored e ⟨base.kind, target⟩ := by
  unfold BaseOf at hbase
  split at hbase
  · cases hbase
  · rename_i delta hkind
    obtain ⟨b, hb, hoffset, hresolves⟩ := hbase
    exact .ofs hkind hb hoffset hresolves happly
  · rename_i oid hkind
    rcases hbase with hstored | ⟨b, hb, hresolves, hoid⟩
    · exact .stored hkind hstored happly
    · exact .packed hkind hb hresolves hoid happly

/-- An entry that stands for an object is direct, or has a base that it applies to. -/
theorem Resolves.cases_base {e : ParsedEntry} {x : Object} (h : Resolves sha1 pack stored e x) :
    (∃ kind, e.kind = .direct kind ∧ x = ⟨kind, e.data⟩) ∨
      IsDelta e ∧ ∃ base target, BaseOf sha1 pack stored e base ∧
        applyDelta base.payload e.data = .ok target ∧ x = ⟨base.kind, target⟩ := by
  cases h with
  | direct hkind => exact Or.inl ⟨_, hkind, rfl⟩
  | ofs hkind hb hoffset hbase happly =>
      refine Or.inr ⟨fun kind => by rw [hkind]; exact nofun, _, _, ?_, happly, rfl⟩
      unfold BaseOf
      rw [hkind]
      exact ⟨_, hb, hoffset, hbase⟩
  | stored hkind hstored happly =>
      refine Or.inr ⟨fun kind => by rw [hkind]; exact nofun, _, _, ?_, happly, rfl⟩
      unfold BaseOf
      rw [hkind]
      exact Or.inl hstored
  | packed hkind hb hbase hoid happly =>
      refine Or.inr ⟨fun kind => by rw [hkind]; exact nofun, _, _, ?_, happly, rfl⟩
      unfold BaseOf
      rw [hkind]
      exact Or.inr ⟨_, hb, hbase, hoid⟩

/-- A base that a delta names by its id is known under that id. -/
theorem known_of_ref {oid : Vector UInt8 20} {base : Object}
    (hstored : ∀ oid x, stored oid = some x → looseOidHex sha1 x = oid)
    (h : stored (hexOid oid) = some base ∨
      ∃ b ∈ pack.entries, Resolves sha1 pack stored b base ∧ looseOidHex sha1 base = hexOid oid) :
    Known sha1 pack stored base ∧ looseOidHex sha1 base = hexOid oid := by
  rcases h with hfound | ⟨b, hb, hresolves, hoid⟩
  · exact ⟨Or.inl ⟨_, hfound⟩, hstored _ _ hfound⟩
  · exact ⟨hresolves.known hb, hoid⟩

/-- The target of a delta whose base is named by its id. -/
theorem target_unique_of_ref (hstored : ∀ oid x, stored oid = some x → looseOidHex sha1 x = oid)
    (hhash : NoCollision sha1 pack stored) {e : ParsedEntry} {oid : Vector UInt8 20}
    {base y : Object} {target : List UInt8} (hkind : e.kind = .refDelta oid)
    (hbase : BaseOf sha1 pack stored e base) (happly : applyDelta base.payload e.data = .ok target)
    (hy : Resolves sha1 pack stored e y) : (⟨base.kind, target⟩ : Object) = y := by
  rcases hy.cases_base with ⟨kind, hkind', -⟩ | ⟨-, base', target', hbase', happly', rfl⟩
  · rw [hkind] at hkind'
    cases hkind'
  · unfold BaseOf at hbase hbase'
    rw [hkind] at hbase hbase'
    obtain ⟨hknown, hoid⟩ := known_of_ref hstored hbase
    obtain ⟨hknown', hoid'⟩ := known_of_ref hstored hbase'
    obtain rfl := hhash base base' hknown hknown' (hoid.trans hoid'.symm)
    rw [happly] at happly'
    cases happly'
    rfl

/-- **Every entry stands for at most one object.** The induction is on the derivation of
the first one; only a base in the same pack needs the induction hypothesis. -/
theorem Resolves.unique (hstored : ∀ oid x, stored oid = some x → looseOidHex sha1 x = oid)
    (hhash : NoCollision sha1 pack stored) {e : ParsedEntry} {x y : Object}
    (hx : Resolves sha1 pack stored e x) (hy : Resolves sha1 pack stored e y) : x = y := by
  induction hx generalizing y with
  | @direct e kind hkind =>
      rcases hy.cases_base with ⟨kind', hkind', rfl⟩ | ⟨hdelta, -⟩
      · rw [hkind] at hkind'
        cases hkind'
        rfl
      · exact absurd hkind (hdelta kind)
  | @ofs e b delta base target hkind hb hoffset _ happly ih =>
      rcases hy.cases_base with ⟨kind, hkind', -⟩ | ⟨-, base', target', hbase', happly', rfl⟩
      · rw [hkind] at hkind'
        cases hkind'
      · unfold BaseOf at hbase'
        rw [hkind] at hbase'
        obtain ⟨b', hb', hoffset', hresolves'⟩ := hbase'
        obtain rfl : b = b' := pack.apart b hb b' hb' (by omega)
        obtain rfl := ih hresolves'
        rw [happly] at happly'
        cases happly'
        rfl
  | @stored e oid base target hkind hbase happly =>
      refine target_unique_of_ref hstored hhash hkind ?_ happly hy
      unfold BaseOf
      rw [hkind]
      exact Or.inl hbase
  | @packed e b oid base target hkind hb hbase hoid happly _ =>
      refine target_unique_of_ref hstored hhash hkind ?_ happly hy
      unfold BaseOf
      rw [hkind]
      exact Or.inr ⟨b, hb, hbase, hoid⟩

/-- **A delta has at most one base.** -/
theorem BaseOf.unique (hstored : ∀ oid x, stored oid = some x → looseOidHex sha1 x = oid)
    (hhash : NoCollision sha1 pack stored) {e : ParsedEntry} {base base' : Object}
    (h : BaseOf sha1 pack stored e base) (h' : BaseOf sha1 pack stored e base') : base = base' := by
  unfold BaseOf at h h'
  cases hkind : e.kind with
  | direct kind =>
      rw [hkind] at h
      cases h
  | ofsDelta delta =>
      rw [hkind] at h h'
      obtain ⟨b, hb, hoffset, hresolves⟩ := h
      obtain ⟨b', hb', hoffset', hresolves'⟩ := h'
      obtain rfl : b = b' := pack.apart b hb b' hb' (by omega)
      exact hresolves.unique hstored hhash hresolves'
  | refDelta oid =>
      rw [hkind] at h h'
      obtain ⟨hknown, hoid⟩ := known_of_ref hstored h
      obtain ⟨hknown', hoid'⟩ := known_of_ref hstored h'
      exact hhash base base' hknown hknown' (hoid.trans hoid'.symm)

/-- All entries stand for objects exactly when all deltas have bases they apply to. -/
theorem forall_resolves_iff :
    (∀ e ∈ pack.entries, ∃ x, Resolves sha1 pack stored e x) ↔
      ∀ e ∈ pack.entries, IsDelta e → ∃ base target, BaseOf sha1 pack stored e base ∧
        applyDelta base.payload e.data = .ok target := by
  constructor
  · intro h e he hdelta
    obtain ⟨x, hx⟩ := h e he
    rcases hx.cases_base with ⟨kind, hkind, -⟩ | ⟨-, base, target, hbase, happly, -⟩
    · exact absurd hkind (hdelta kind)
    · exact ⟨base, target, hbase, happly⟩
  · intro h e he
    by_cases hdirect : ∃ kind, e.kind = .direct kind
    · obtain ⟨kind, hkind⟩ := hdirect
      exact ⟨_, .direct hkind⟩
    · obtain ⟨base, target, hbase, happly⟩ := h e he fun kind hkind => hdirect ⟨kind, hkind⟩
      exact ⟨_, resolves_of_base hbase happly⟩

end Meaning

/-! ### Writing objects -/

section Writes

variable {printable : Char → Bool} {sha1 : Sha1} {zlib : Zlib} {σ : Type}
  {store : ObjectStore σ} {repoId : RepoId}

theorem objectAt_of_read {s : σ} {oid : Oid} {bytes : List UInt8} {x : Object}
    (hread : store.readLoose s repoId oid = .ok (some bytes))
    (hinflate : zlib.inflate bytes = .ok (looseBytes x)) :
    objectAt printable zlib store repoId s oid = some x := by
  unfold objectAt
  rw [hread]
  change (inflateLoose printable zlib oid bytes).toOption = some x
  rw [inflateLoose_of_inflate printable oid hinflate]
  rfl

/-- The same read gives the same object. -/
theorem objectAt_congr {s s' : σ} {oid : Oid}
    (h : store.readLoose s' repoId oid = store.readLoose s repoId oid) :
    objectAt printable zlib store repoId s' oid = objectAt printable zlib store repoId s oid := by
  unfold objectAt
  rw [h]

/-- An object of a well-formed store lies under its own hash. -/
theorem hash_of_objectAt {s : σ} (hwf : WellFormed sha1 zlib store repoId s) {oid : Oid} {x : Object}
    (h : objectAt printable zlib store repoId s oid = some x) : looseOidHex sha1 x = oid := by
  cases hread : store.readLoose s repoId oid with
  | error e =>
      unfold objectAt at h
      rw [hread] at h
      cases h
  | ok found =>
      cases found with
      | none =>
          unfold objectAt at h
          rw [hread] at h
          cases h
      | some bytes =>
          obtain ⟨y, hinflate, hoid⟩ := hwf oid bytes hread
          rw [objectAt_of_read hread hinflate] at h
          cases h
          exact hoid

/-- Over a well-formed store `read_loose_inflated` is the lookup of an object. -/
theorem readLooseInflated_eq (hstore : store.Lawful) {s : σ}
    (hwf : WellFormed sha1 zlib store repoId s) (oid : Oid) :
    readLooseInflated printable zlib store s repoId oid =
      .ok (objectAt printable zlib store repoId s oid) := by
  obtain ⟨found, hread⟩ := hstore.reads s repoId oid
  cases found with
  | none =>
      unfold readLooseInflated objectAt
      rw [hread]
  | some bytes =>
      obtain ⟨x, hinflate, -⟩ := hwf oid bytes hread
      rw [objectAt_of_read hread hinflate]
      unfold readLooseInflated
      simp only [hread, inflateLoose_of_inflate printable oid hinflate]

/-- **A write adds one object**, if the store holds no other one under its id. -/
theorem objectAt_write (hstore : store.Lawful) {s : σ} (hwf : WellFormed sha1 zlib store repoId s)
    {x : Object} (hfree : ∀ y, objectAt printable zlib store repoId s (looseOidHex sha1 x) = some y →
      y = x) :
    let s' := (store.writeLoose s repoId (looseOidHex sha1 x) (zlib.deflate (looseBytes x))).2
    WellFormed sha1 zlib store repoId s' ∧
      ∀ oid y, objectAt printable zlib store repoId s' oid = some y ↔
        objectAt printable zlib store repoId s oid = some y ∨ y = x ∧ looseOidHex sha1 x = oid := by
  intro s'
  have hothers : ∀ oid, oid ≠ looseOidHex sha1 x →
      store.readLoose s' repoId oid = store.readLoose s repoId oid := fun oid hne =>
    hstore.others s repoId _ _ repoId oid fun heq => hne heq.2
  -- behind the write the id holds `x`, whether the bytes are new or kept
  have hhere : ∃ bytes, store.readLoose s' repoId (looseOidHex sha1 x) = .ok (some bytes) ∧
      zlib.inflate bytes = .ok (looseBytes x) := by
    rcases hstore.written s repoId (looseOidHex sha1 x) (zlib.deflate (looseBytes x)) with
      hnew | ⟨⟨old, hold⟩, hkept⟩
    · exact ⟨_, hnew, zlib.inflate_deflate _⟩
    · obtain ⟨y, hinflate, -⟩ := hwf _ _ hold
      obtain rfl := hfree y (objectAt_of_read hold hinflate)
      exact ⟨old, hkept.trans hold, hinflate⟩
  obtain ⟨bytes, hread, hinflate⟩ := hhere
  have hself := @objectAt_of_read printable zlib σ store repoId s' _ bytes x hread hinflate
  constructor
  · intro oid found hfound
    by_cases hoid : oid = looseOidHex sha1 x
    · subst hoid
      rw [hread] at hfound
      cases hfound
      exact ⟨x, hinflate, rfl⟩
    · rw [hothers oid hoid] at hfound
      exact hwf oid found hfound
  · intro oid y
    by_cases hoid : oid = looseOidHex sha1 x
    · subst hoid
      rw [hself]
      constructor
      · intro h
        cases h
        exact Or.inr ⟨rfl, rfl⟩
      · rintro (h | ⟨rfl, -⟩)
        · rw [hfree y h]
        · rfl
    · rw [objectAt_congr (hothers oid hoid)]
      constructor
      · exact Or.inl
      · rintro (h | ⟨-, h⟩)
        · exact h
        · exact absurd h.symm hoid

end Writes

/-! ### What the resolver keeps -/

section Resolver

variable {printable : Char → Bool} {sha1 : Sha1} {zlib : Zlib} {σ : Type}
  {store : ObjectStore σ} {repoId : RepoId} {pack : Pack} {order : List ParsedEntry} {s : σ}

/-- A state that the resolver reaches from the store `s`: what it has materialized is what
the entries stand for, and the store holds that and what it held before. -/
structure Sound (printable : Char → Bool) (sha1 : Sha1) (zlib : Zlib) (store : ObjectStore σ)
    (repoId : RepoId) (pack : Pack) (order : List ParsedEntry) (s : σ) (u : Resolution σ) : Prop where
  wf : WellFormed sha1 zlib store repoId u.store
  resolved : ∀ i x, u.resolved i = some x → ∃ e ∈ pack.entries, order[i]? = some e ∧
    Resolves sha1 pack (objectAt printable zlib store repoId s) e x
  holds : ∀ oid x, objectAt printable zlib store repoId u.store oid = some x ↔
    objectAt printable zlib store repoId s oid = some x ∨
      ∃ i, u.resolved i = some x ∧ looseOidHex sha1 x = oid
  others : ∀ repo oid, repo ≠ repoId → store.readLoose u.store repo oid = store.readLoose s repo oid

/-- What the store holds in such a state is known. -/
theorem Sound.known {u : Resolution σ} (hu : Sound printable sha1 zlib store repoId pack order s u)
    {oid : Oid} {x : Object} (h : objectAt printable zlib store repoId u.store oid = some x) :
    Known sha1 pack (objectAt printable zlib store repoId s) x := by
  rcases (hu.holds oid x).mp h with hstored | ⟨i, hi, -⟩
  · exact Or.inl ⟨oid, hstored⟩
  · obtain ⟨e, he, -, hresolves⟩ := hu.resolved i x hi
    exact hresolves.known he

/-- **Storing the object of an entry** keeps the state sound. -/
theorem storeObject_spec (hstore : store.Lawful) (hwf : WellFormed sha1 zlib store repoId s)
    (hhash : NoCollision sha1 pack (objectAt printable zlib store repoId s)) {u : Resolution σ}
    (hu : Sound printable sha1 zlib store repoId pack order s u) {i : Nat} {e : ParsedEntry}
    {x : Object} (he : e ∈ pack.entries) (hi : order[i]? = some e)
    (hx : Resolves sha1 pack (objectAt printable zlib store repoId s) e x) :
    ∃ t, storeObject sha1 zlib store repoId u i x = (.ok (), t) ∧
      Sound printable sha1 zlib store repoId pack order s t ∧ t.count = u.count + 1 ∧
      t.resolved = fun j => if j = i then some x else u.resolved j := by
  have hwrites := hstore.writes u.store repoId (looseOidHex sha1 x) (zlib.deflate (looseBytes x))
  -- under this hash there is no other object, so nothing is overwritten
  have hfree : ∀ y, objectAt printable zlib store repoId u.store (looseOidHex sha1 x) = some y →
      y = x := fun y hy =>
    hhash y x (hu.known hy) (hx.known he) (hash_of_objectAt hu.wf hy)
  obtain ⟨hwf', hholds⟩ := objectAt_write hstore hu.wf hfree
  refine ⟨⟨(store.writeLoose u.store repoId (looseOidHex sha1 x) (zlib.deflate (looseBytes x))).2,
    fun j => if j = i then some x else u.resolved j, u.count + 1⟩, ?_, ⟨hwf', ?_, ?_, ?_⟩, rfl, rfl⟩
  · unfold storeObject looseFormatBytes
    simp only []
    generalize store.writeLoose u.store repoId (looseOidHex sha1 x) (zlib.deflate (looseBytes x)) =
      result at hwrites
    obtain ⟨outcome, t⟩ := result
    obtain rfl : outcome = .ok () := hwrites
    rfl
  · intro j y hj
    simp only [] at hj
    split_ifs at hj with hji
    · cases hj
      subst hji
      exact ⟨e, he, hi, hx⟩
    · exact hu.resolved j y hj
  · intro oid y
    rw [hholds oid y, hu.holds oid y]
    constructor
    · rintro ((hstored | ⟨j, hj, hoid⟩) | ⟨rfl, hoid⟩)
      · exact Or.inl hstored
      · by_cases hji : j = i
        · -- an entry resolved before stands for the same object
          subst hji
          obtain ⟨e', _, he', hy⟩ := hu.resolved j y hj
          rw [hi] at he'
          cases he'
          obtain rfl := hy.unique (fun _ _ h => hash_of_objectAt hwf h) hhash hx
          exact Or.inr ⟨j, if_pos rfl, hoid⟩
        · exact Or.inr ⟨j, (if_neg hji).trans hj, hoid⟩
      · exact Or.inr ⟨i, if_pos rfl, hoid⟩
    · rintro (hstored | ⟨j, hj, hoid⟩)
      · exact Or.inl (Or.inl hstored)
      · simp only [] at hj
        split_ifs at hj with hji
        · cases hj
          exact Or.inr ⟨rfl, hoid⟩
        · exact Or.inl (Or.inr ⟨j, hj, hoid⟩)
  · intro repo oid hne
    rw [← hu.others repo oid hne]
    exact hstore.others _ _ _ _ repo oid fun heq => hne heq.1

/-! ### Phase 1 -/

/-- The entry is direct. -/
def isDirect (e : ParsedEntry) : Bool :=
  match e.kind with
  | .direct _ => true
  | _ => false

theorem isDirect_iff {e : ParsedEntry} : isDirect e = true ↔ ∃ kind, e.kind = .direct kind := by
  unfold isDirect
  cases e.kind <;> simp

/-- **Phase 1** succeeds and materializes the direct entries it is given. -/
theorem storeDirects_spec (hstore : store.Lawful) (hwf : WellFormed sha1 zlib store repoId s)
    (hhash : NoCollision sha1 pack (objectAt printable zlib store repoId s))
    (l : List (ParsedEntry × Nat)) (hl : ∀ entry ∈ l, entry.1 ∈ pack.entries ∧
      order[entry.2]? = some entry.1) {u : Resolution σ}
    (hu : Sound printable sha1 zlib store repoId pack order s u) :
    ∃ t, storeDirects sha1 zlib store repoId l u = (.ok (), t) ∧
      Sound printable sha1 zlib store repoId pack order s t ∧
      t.count = u.count + l.countP (fun entry => isDirect entry.1) ∧
      ∀ i, (t.resolved i).isSome = true ↔
        (u.resolved i).isSome = true ∨ ∃ entry ∈ l, isDirect entry.1 = true ∧ entry.2 = i := by
  induction l generalizing u with
  | nil => exact ⟨u, rfl, hu, rfl, by simp⟩
  | cons entry l ih =>
      obtain ⟨e, j⟩ := entry
      have hrest : ∀ entry ∈ l, entry.1 ∈ pack.entries ∧ order[entry.2]? = some entry.1 :=
        fun entry hentry => hl entry (List.mem_cons_of_mem _ hentry)
      obtain ⟨he, hj⟩ := hl (e, j) List.mem_cons_self
      -- deltas are passed over, and stay for the passes
      by_cases hdirect : isDirect e = true
      · obtain ⟨kind, hkind⟩ := isDirect_iff.mp hdirect
        obtain ⟨v, hv, hsound, hcount, hresolved⟩ :=
          storeObject_spec hstore hwf hhash hu he hj (.direct hkind)
        obtain ⟨t, ht, htsound, htcount, htresolved⟩ := ih hrest hsound
        refine ⟨t, ?_, htsound, ?_, fun i => ?_⟩
        · simp only [storeDirects, hkind, hv]
          exact ht
        · rw [htcount, hcount, List.countP_cons, if_pos hdirect]
          omega
        · rw [htresolved i, hresolved]
          by_cases hij : i = j
          · subst hij
            simp [hdirect]
          · simp only [if_neg hij, List.mem_cons, exists_eq_or_imp]
            simp [Ne.symm hij]
      · obtain ⟨t, ht, htsound, htcount, htresolved⟩ := ih hrest hu
        refine ⟨t, ?_, htsound, ?_, fun i => ?_⟩
        · rw [← ht]
          unfold isDirect at hdirect
          cases hkind : e.kind with
          | direct kind =>
              rw [hkind] at hdirect
              exact absurd rfl hdirect
          | refDelta oid => simp only [storeDirects, hkind]
          | ofsDelta delta => simp only [storeDirects, hkind]
        · rw [htcount, List.countP_cons, if_neg hdirect]
          rfl
        · rw [htresolved i]
          simp [hdirect]

/-- The entries of a list that are no direct ones, by their numbers. -/
theorem pending_eq {t : Resolution σ} (ht : ∀ i, (t.resolved i).isSome = true ↔
      ∃ entry ∈ order.zipIdx, isDirect entry.1 = true ∧ entry.2 = i) :
    (List.range order.length).filter (fun i => (t.resolved i).isNone) =
      (order.zipIdx.filter fun entry => !isDirect entry.1).map Prod.snd := by
  have hrange : List.range order.length = order.zipIdx.map Prod.snd := by
    rw [List.zipIdx_map_snd, List.range_eq_range']
  rw [hrange, List.filter_map]
  congr 1
  refine List.filter_congr fun entry hentry => ?_
  -- an entry's number names it
  have hself : (t.resolved entry.2).isSome = true ↔ isDirect entry.1 = true := by
    rw [ht]
    constructor
    · rintro ⟨other, hother, hdirect, hnumber⟩
      have hfirst := List.mem_zipIdx_iff_getElem?.mp hentry
      have hsecond := List.mem_zipIdx_iff_getElem?.mp hother
      rw [hnumber, hfirst] at hsecond
      rwa [Option.some.inj hsecond]
    · exact fun hdirect => ⟨entry, hentry, hdirect, rfl⟩
  change (t.resolved entry.2).isNone = !isDirect entry.1
  rw [← Option.not_isSome]
  congr 1
  exact Bool.eq_iff_iff.mpr hself

/-! ### Phase 2 -/

theorem offsetToIdx_eq_some {offset j : Nat} (h : offsetToIdx order offset = some j) :
    ∃ e, order[j]? = some e ∧ e.offset = offset := by
  obtain ⟨entry, hlast, rfl⟩ := Option.map_eq_some_iff.mp h
  have hmem := List.mem_of_getLast? hlast
  obtain ⟨hentry, hoffset⟩ := List.mem_filter.mp hmem
  exact ⟨entry.1, List.mem_zipIdx_iff_getElem?.mp hentry, beq_iff_eq.mp hoffset⟩

theorem offsetToIdx_eq_none {offset : Nat} (h : offsetToIdx order offset = none) :
    ∀ e ∈ order, e.offset ≠ offset := by
  intro e he hoffset
  obtain ⟨j, hj⟩ := List.mem_iff_getElem?.mp he
  have hnil := List.getLast?_eq_none_iff.mp (Option.map_eq_none_iff.mp h)
  have hmem : (e, j) ∈ order.zipIdx.filter fun entry => entry.1.offset == offset :=
    List.mem_filter.mpr ⟨List.mem_zipIdx_iff_getElem?.mpr hj, beq_iff_eq.mpr hoffset⟩
  rw [hnil] at hmem
  cases hmem

/-- **Looking for the base of a delta**: what is found is its base, and an error means
that it has none. -/
theorem findBase_spec (hstore : store.Lawful) (horder : order.Perm pack.entries) {u : Resolution σ}
    (hu : Sound printable sha1 zlib store repoId pack order s u) {i : Nat} {e : ParsedEntry}
    (hdelta : IsDelta e) :
    match findBase printable zlib store repoId order u i e with
    | .ok (some base) => BaseOf sha1 pack (objectAt printable zlib store repoId s) e base
    | .ok none => True
    | .error _ => ∀ base, ¬ BaseOf sha1 pack (objectAt printable zlib store repoId s) e base := by
  unfold findBase BaseOf
  cases hkind : e.kind with
  | direct kind => exact absurd hkind (hdelta kind)
  | refDelta oid =>
      simp only []
      rw [readLooseInflated_eq hstore hu.wf]
      cases hfound : objectAt printable zlib store repoId u.store (hexOid oid) with
      | none => trivial
      | some base =>
          change objectAt printable zlib store repoId s (hexOid oid) = some base ∨ _
          rcases (hu.holds _ _).mp hfound with hstored | ⟨j, hj, hoid⟩
          · exact Or.inl hstored
          · obtain ⟨b, hb, -, hresolves⟩ := hu.resolved j base hj
            exact Or.inr ⟨b, hb, hresolves, hoid⟩
  | ofsDelta delta =>
      simp only []
      split_ifs with hunder
      · rintro base ⟨b, -, hoffset, -⟩
        omega
      · cases hidx : offsetToIdx order (e.offset - delta) with
        | none =>
            rintro base ⟨b, hb, hoffset, -⟩
            exact offsetToIdx_eq_none hidx b (horder.mem_iff.mpr hb) (by omega)
        | some j =>
            obtain ⟨b, hj, hoffset⟩ := offsetToIdx_eq_some hidx
            simp only []
            cases hfound : u.resolved j with
            | none => trivial
            | some base =>
                obtain ⟨b', hb', hj', hresolves⟩ := hu.resolved j base hfound
                rw [hj] at hj'
                cases hj'
                exact ⟨b, hb', by omega, hresolves⟩

/-- **One attempt at a delta**: it is done with the object the entry stands for; or the
base is not there yet; or it fails, and the entry stands for nothing. -/
theorem attemptDelta_spec (hstore : store.Lawful) (hwf : WellFormed sha1 zlib store repoId s)
    (hhash : NoCollision sha1 pack (objectAt printable zlib store repoId s))
    (horder : order.Perm pack.entries) {u : Resolution σ}
    (hu : Sound printable sha1 zlib store repoId pack order s u) {i : Nat} {e : ParsedEntry}
    (hi : order[i]? = some e) (hdelta : IsDelta e) :
    match attemptDelta printable sha1 zlib store repoId order u i with
    | .done t => Sound printable sha1 zlib store repoId pack order s t
    | .waits => True
    | .failed _ t => t = u ∧ ¬ ∃ x, Resolves sha1 pack (objectAt printable zlib store repoId s) e x := by
  have he : e ∈ pack.entries := horder.mem_iff.mp (List.mem_of_getElem? hi)
  have hfound := @findBase_spec printable sha1 zlib σ store repoId pack order s hstore horder u hu i e hdelta
  have hnone : (∀ base target, BaseOf sha1 pack (objectAt printable zlib store repoId s) e base →
      applyDelta base.payload e.data ≠ .ok target) →
      ¬ ∃ x, Resolves sha1 pack (objectAt printable zlib store repoId s) e x := by
    rintro h ⟨x, hx⟩
    rcases hx.cases_base with ⟨kind, hkind, -⟩ | ⟨-, base, target, hbase, happly, -⟩
    · exact hdelta kind hkind
    · exact h base target hbase happly
  unfold attemptDelta
  simp only [hi]
  cases hbase : findBase printable zlib store repoId order u i e with
  | error err =>
      rw [hbase] at hfound
      exact ⟨rfl, hnone fun base _ hof => absurd hof (hfound base)⟩
  | ok found =>
      rw [hbase] at hfound
      cases found with
      | none => trivial
      | some base =>
          simp only []
          cases happly : applyDelta base.payload e.data with
          | error err =>
              refine ⟨rfl, hnone fun base' target hof happly' => ?_⟩
              obtain rfl := hof.unique (fun _ _ h => hash_of_objectAt hwf h) hhash hfound
              rw [happly] at happly'
              cases happly'
          | ok target =>
              obtain ⟨t, ht, hsound, -⟩ :=
                storeObject_spec hstore hwf hhash hu he hi (resolves_of_base hfound happly)
              simp only [ht]
              exact hsound

/-- What a finished attempt did to the bookkeeping. -/
theorem attemptDelta_done {u t : Resolution σ} {i : Nat}
    (h : attemptDelta printable sha1 zlib store repoId order u i = .done t) :
    ∃ e x, order[i]? = some e ∧ IsDelta e ∧ t.count = u.count + 1 ∧
      t.resolved = fun j => if j = i then some x else u.resolved j := by
  unfold attemptDelta at h
  split at h
  · cases h
  rename_i e hi
  split at h
  · cases h
  · cases h
  rename_i base hbase
  split at h
  · cases h
  rename_i target _
  split at h
  · cases h
  rename_i v hstored
  cases h
  refine ⟨e, ⟨base.kind, target⟩, hi, fun kind hkind => ?_, ?_⟩
  · -- a direct entry is no case of `findBase`
    unfold findBase at hbase
    rw [hkind] at hbase
    cases hbase
  · unfold storeObject looseFormatBytes at hstored
    simp only [] at hstored
    split at hstored
    · cases hstored
    · cases hstored
      exact ⟨rfl, rfl⟩

/-- An attempt waits because the base is not there. -/
theorem attemptDelta_waits {u : Resolution σ} {i : Nat} {e : ParsedEntry} (hi : order[i]? = some e)
    (h : attemptDelta printable sha1 zlib store repoId order u i = .waits) :
    findBase printable zlib store repoId order u i e = .ok none := by
  unfold attemptDelta at h
  simp only [hi] at h
  split at h
  · cases h
  · rename_i hbase
    exact hbase
  · split at h
    · cases h
    · split at h <;> cases h

theorem attemptDelta_works (hstore : store.Lawful) (hwf : WellFormed sha1 zlib store repoId s)
    (hhash : NoCollision sha1 pack (objectAt printable zlib store repoId s))
    (horder : order.Perm pack.entries) :
    Works (attemptDelta printable sha1 zlib store repoId order)
      (Sound printable sha1 zlib store repoId pack order s)
      (fun u i => (u.resolved i).isSome = true) where
  keeps u i t hu h := by
    obtain ⟨e, x, hi, hdelta, -⟩ := attemptDelta_done h
    have hspec := attemptDelta_spec hstore hwf hhash horder hu hi hdelta
    rw [h] at hspec
    exact hspec
  finishes u i t h := by
    obtain ⟨e, x, -, -, -, hresolved⟩ := attemptDelta_done h
    rw [hresolved]
    simp
  stays u i t j h hj := by
    obtain ⟨e, x, -, -, -, hresolved⟩ := attemptDelta_done h
    rw [hresolved]
    by_cases hji : j = i
    · simp [hji]
    · simpa [hji] using hj

/-- **Nothing that has a meaning is left behind.** If every entry is materialized or
waits, then every entry that stands for an object is materialized and does not wait.  The
induction is on the derivation: the base is materialized, so it is found. -/
theorem done_of_stuck (hstore : store.Lawful) (hwf : WellFormed sha1 zlib store repoId s)
    (hhash : NoCollision sha1 pack (objectAt printable zlib store repoId s))
    (horder : order.Perm pack.entries) {u : Resolution σ}
    (hu : Sound printable sha1 zlib store repoId pack order s u)
    (hall : ∀ i e, order[i]? = some e → (u.resolved i).isSome = true ∨
      attemptDelta printable sha1 zlib store repoId order u i = .waits) {e : ParsedEntry} {x : Object}
    (hx : Resolves sha1 pack (objectAt printable zlib store repoId s) e x) {i : Nat}
    (hi : order[i]? = some e) :
    (u.resolved i).isSome = true ∧
      attemptDelta printable sha1 zlib store repoId order u i ≠ .waits := by
  suffices hfound : findBase printable zlib store repoId order u i e ≠ .ok none by
    have hgoes : attemptDelta printable sha1 zlib store repoId order u i ≠ .waits :=
      fun h => hfound (attemptDelta_waits hi h)
    exact ⟨(hall i e hi).resolve_right hgoes, hgoes⟩
  -- along the derivation: when all else waits, a base that has one is resolved by now
  induction hx generalizing i with
  | @direct e kind hkind =>
      unfold findBase
      rw [hkind]
      exact nofun
  | @ofs e b delta base target hkind hb hoffset hbase happly ih =>
      intro hnone
      unfold findBase at hnone
      rw [hkind] at hnone
      simp only [] at hnone
      split_ifs at hnone
      cases hidx : offsetToIdx order (e.offset - delta) with
      | none =>
          rw [hidx] at hnone
          cases hnone
      | some j =>
          obtain ⟨b', hj, hoffset'⟩ := offsetToIdx_eq_some hidx
          have hb' : b' ∈ pack.entries := horder.mem_iff.mp (List.mem_of_getElem? hj)
          obtain rfl : b' = b := pack.apart b' hb' b hb (by omega)
          have hready : (u.resolved j).isSome = true :=
            (hall j b' hj).resolve_right fun h => ih hj (attemptDelta_waits hj h)
          rw [hidx] at hnone
          simp only [Except.ok.injEq] at hnone
          rw [hnone] at hready
          cases hready
  | @stored e oid base target hkind hbase happly =>
      unfold findBase
      rw [hkind]
      simp only []
      rw [readLooseInflated_eq hstore hu.wf, (hu.holds _ _).mpr (Or.inl hbase)]
      exact nofun
  | @packed e b oid base target hkind hb hbase hoid happly ih =>
      obtain ⟨j, hj⟩ := List.mem_iff_getElem?.mp (horder.mem_iff.mpr hb)
      have hready : (u.resolved j).isSome = true :=
        (hall j b hj).resolve_right fun h => ih hj (attemptDelta_waits hj h)
      obtain ⟨y, hy⟩ := Option.isSome_iff_exists.mp hready
      obtain ⟨b', -, hj', hresolves⟩ := hu.resolved j y hy
      rw [hj] at hj'
      cases hj'
      -- the base may have been resolved from another entry, but it is the same object
      obtain rfl := hbase.unique (fun _ _ h => hash_of_objectAt hwf h) hhash hresolves
      unfold findBase
      rw [hkind]
      simp only []
      rw [readLooseInflated_eq hstore hu.wf, (hu.holds _ _).mpr (Or.inr ⟨j, hy, hoid⟩)]
      exact nofun

/-! ### The whole run -/

/-- What the store holds, by what the entries stand for, once all of them are done. -/
theorem holds_of_done (hwf : WellFormed sha1 zlib store repoId s)
    (hhash : NoCollision sha1 pack (objectAt printable zlib store repoId s))
    (horder : order.Perm pack.entries) {u : Resolution σ}
    (hu : Sound printable sha1 zlib store repoId pack order s u)
    (hall : ∀ i e, order[i]? = some e → (u.resolved i).isSome = true) (oid : Oid) (x : Object) :
    objectAt printable zlib store repoId u.store oid = some x ↔
      objectAt printable zlib store repoId s oid = some x ∨ ∃ e ∈ pack.entries,
        Resolves sha1 pack (objectAt printable zlib store repoId s) e x ∧
          looseOidHex sha1 x = oid := by
  rw [hu.holds oid x]
  constructor
  · rintro (hstored | ⟨i, hi, hoid⟩)
    · exact Or.inl hstored
    · obtain ⟨e, he, -, hresolves⟩ := hu.resolved i x hi
      exact Or.inr ⟨e, he, hresolves, hoid⟩
  · rintro (hstored | ⟨e, he, hresolves, hoid⟩)
    · exact Or.inl hstored
    · obtain ⟨i, hi⟩ := List.mem_iff_getElem?.mp (horder.mem_iff.mpr he)
      obtain ⟨y, hy⟩ := Option.isSome_iff_exists.mp (hall i e hi)
      obtain ⟨e', -, hi', hresolves'⟩ := hu.resolved i y hy
      rw [hi] at hi'
      cases hi'
      obtain rfl := hresolves.unique (fun _ _ h => hash_of_objectAt hwf h) hhash hresolves'
      exact Or.inr ⟨i, hy, hoid⟩

/-- Phase 1 stores and counts the entries that are no deltas, and leaves the deltas. -/
theorem storeDirects_leaves (hstore : store.Lawful) (hwf : WellFormed sha1 zlib store repoId s)
    (hhash : NoCollision sha1 pack (objectAt printable zlib store repoId s))
    (horder : order.Perm pack.entries) :
    ∃ t, storeDirects sha1 zlib store repoId order.zipIdx ⟨s, fun _ => none, 0⟩ = (.ok (), t) ∧
      Sound printable sha1 zlib store repoId pack order s t ∧
      t.count + ((List.range order.length).filter fun i => (t.resolved i).isNone).length =
        order.length ∧
      (∀ i ∈ (List.range order.length).filter fun i => (t.resolved i).isNone,
        ∃ e ∈ pack.entries, order[i]? = some e ∧ IsDelta e) ∧
      ∀ i e, order[i]? = some e → (t.resolved i).isSome = true ∨
        i ∈ (List.range order.length).filter fun i => (t.resolved i).isNone := by
  have hstart : Sound printable sha1 zlib store repoId pack order s ⟨s, fun _ => none, 0⟩ := by
    refine ⟨hwf, fun i x h => ?_, fun oid x => ⟨Or.inl, ?_⟩, fun _ _ _ => rfl⟩
    · cases h
    · rintro (h | ⟨i, hi, -⟩)
      · exact h
      · cases hi
  have hentries : ∀ entry ∈ order.zipIdx, entry.1 ∈ pack.entries ∧
      order[entry.2]? = some entry.1 := by
    intro entry hentry
    have hi := List.mem_zipIdx_iff_getElem?.mp hentry
    exact ⟨horder.mem_iff.mp (List.mem_of_getElem? hi), hi⟩
  obtain ⟨t, hdirects, ht, hcount, hresolved⟩ :=
    storeDirects_spec hstore hwf hhash order.zipIdx hentries hstart
  have hdone : ∀ i, (t.resolved i).isSome = true ↔
      ∃ entry ∈ order.zipIdx, isDirect entry.1 = true ∧ entry.2 = i := by
    intro i
    rw [hresolved i]
    simp
  -- the entries left to phase 2 are the deltas
  have hpending := pending_eq hdone
  refine ⟨t, hdirects, ht, ?_, ?_, ?_⟩
  · rw [hpending, List.length_map, ← List.countP_eq_length_filter, hcount]
    have hsplit := @List.length_eq_countP_add_countP _ (fun entry : ParsedEntry × Nat =>
      isDirect entry.1) order.zipIdx
    rw [List.length_zipIdx] at hsplit
    simp only [Nat.zero_add, decide_not, Bool.decide_eq_true] at hsplit ⊢
    omega
  · intro i hi
    rw [hpending] at hi
    obtain ⟨entry, hentry, rfl⟩ := List.mem_map.mp hi
    obtain ⟨hmem, hnot⟩ := List.mem_filter.mp hentry
    obtain ⟨he, hnumber⟩ := hentries entry hmem
    refine ⟨entry.1, he, hnumber, fun kind hkind => ?_⟩
    rw [isDirect_iff.mpr ⟨kind, hkind⟩] at hnot
    cases hnot
  · intro i e hi
    cases hisome : (t.resolved i).isSome with
    | true => exact Or.inl rfl
    | false =>
        refine Or.inr (List.mem_filter.mpr ⟨List.mem_range.mpr ?_, ?_⟩)
        · exact (List.getElem?_eq_some_iff.mp hi).1
        · rw [← Option.not_isSome, hisome]
          rfl

/-- **How the resolver ends.** With a pass for each entry it ends.  It succeeds with all
entries done and counted, or it fails and some entry stands for nothing. -/
theorem storeEntries_ends (hstore : store.Lawful) (hwf : WellFormed sha1 zlib store repoId s)
    (hhash : NoCollision sha1 pack (objectAt printable zlib store repoId s))
    (horder : order.Perm pack.entries) :
    ∃ result u, (∀ fuel, order.length ≤ fuel →
        storeEntries printable sha1 zlib store repoId fuel order s = some (result, u.store)) ∧
      Sound printable sha1 zlib store repoId pack order s u ∧
      match result with
      | .ok n => n = order.length ∧ ∀ i e, order[i]? = some e → (u.resolved i).isSome = true
      | .error _ => ¬ ∀ e ∈ pack.entries, ∃ x,
          Resolves sha1 pack (objectAt printable zlib store repoId s) e x := by
  obtain ⟨t, hdirects, ht, hlength, hdelta, hcover⟩ := storeDirects_leaves hstore hwf hhash horder
  have hshort : ((List.range order.length).filter fun i => (t.resolved i).isNone).length ≤
      order.length := by omega
  -- each pass but the last resolves something, so as many passes as entries are enough
  obtain ⟨⟨outcome, u⟩, hpasses⟩ := @passes_isSome _ _ _
    (attemptDelta printable sha1 zlib store repoId order) stuckError _ _ t hshort
  have hrule := passes_rule (attemptDelta_works hstore hwf hhash horder) ht hpasses
  have hmore : ∀ fuel, order.length ≤ fuel → passes (attemptDelta printable sha1 zlib store repoId
      order) stuckError fuel _ t = some (outcome, u) := fun fuel hfuel =>
    passes_of_le hfuel hpasses
  cases outcome with
  | ok _ =>
      obtain ⟨hu, hstays, hfinished⟩ := hrule
      refine ⟨.ok u.count, u, fun fuel hfuel => ?_, hu, ?_, fun i e hi => ?_⟩
      · unfold storeEntries
        rw [hdirects]
        simp only []
        rw [hmore fuel hfuel]
      · -- the count goes up by one for each entry, here and among the direct ones
        have hone : ∀ v i w, attemptDelta printable sha1 zlib store repoId order v i = .done w →
            w.count = v.count + 1 := by
          intro v i w hvw
          obtain ⟨_, _, _, _, hcount, _⟩ := attemptDelta_done hvw
          exact hcount
        have htotal := passes_count hone hpasses
        omega
      · rcases hcover i e hi with hearly | hlate
        · exact hstays i hearly
        · exact hfinished i hlate
  | error err =>
      have hrun : ∀ fuel, order.length ≤ fuel →
          storeEntries printable sha1 zlib store repoId fuel order s =
            some (.error err, u.store) := by
        intro fuel hfuel
        unfold storeEntries
        rw [hdirects]
        simp only []
        rw [hmore fuel hfuel]
      -- a delta has failed on its base, or a pass has left all its deltas waiting
      rcases hrule with ⟨v, i, hi, hv, hfailed⟩ | ⟨hu, hstays, left, hne, hleft, hwaits, hfinished⟩
      · obtain ⟨e, he, hnumber, hisdelta⟩ := hdelta i hi
        have hspec := attemptDelta_spec hstore hwf hhash horder hv hnumber hisdelta
        rw [hfailed] at hspec
        obtain ⟨rfl, hnone⟩ := hspec
        exact ⟨.error err, u, hrun, hv, fun hmeaning => hnone (hmeaning e he)⟩
      · refine ⟨.error err, u, hrun, hu, fun hmeaning => ?_⟩
        have hstuck : ∀ i e, order[i]? = some e → (u.resolved i).isSome = true ∨
            attemptDelta printable sha1 zlib store repoId order u i = .waits := by
          intro i e hi
          rcases hcover i e hi with hearly | hlate
          · exact Or.inl (hstays i hearly)
          · rcases hfinished i hlate with hin | hready
            · exact Or.inr (hwaits i hin)
            · exact Or.inl hready
        obtain ⟨i, hi⟩ := List.exists_mem_of_ne_nil left hne
        obtain ⟨e, he, hnumber, -⟩ := hdelta i (hleft.subset hi)
        obtain ⟨x, hx⟩ := hmeaning e he
        exact (done_of_stuck hstore hwf hhash horder hu hstuck hx hnumber).2 (hwaits i hi)

/-- **Delta resolution.** Over a well-formed store and without a collision of SHA-1, the resolver
ends whatever the order of the entries. It succeeds exactly when every delta has a base that it
applies to; then it counts the entries, and the store holds what it held and the objects that the
entries stand for. When it fails, the store holds what it held and some of these objects. The
entries are any, with circles of deltas and objects that repeat; other repositories are left alone
in either case. -/
theorem store_with_full_resolution (printable : Char → Bool) (sha1 : Sha1) (zlib : Zlib) {σ : Type}
    (store : ObjectStore σ) (hstore : store.Lawful) (repoId : RepoId) (pack : Pack)
    (order : List ParsedEntry) (horder : order.Perm pack.entries) (s : σ)
    (hwf : WellFormed sha1 zlib store repoId s)
    (hhash : NoCollision sha1 pack (objectAt printable zlib store repoId s)) :
    ∃ result s', (∀ fuel, order.length ≤ fuel →
        storeEntries printable sha1 zlib store repoId fuel order s = some (result, s')) ∧
      ((∃ n, result = .ok n) ↔ ∀ e ∈ pack.entries, IsDelta e → ∃ base target,
        BaseOf sha1 pack (objectAt printable zlib store repoId s) e base ∧
          applyDelta base.payload e.data = .ok target) ∧
      (∀ n, result = .ok n → n = pack.entries.length ∧
        ∀ oid x, objectAt printable zlib store repoId s' oid = some x ↔
          objectAt printable zlib store repoId s oid = some x ∨ ∃ e ∈ pack.entries,
            Resolves sha1 pack (objectAt printable zlib store repoId s) e x ∧
              looseOidHex sha1 x = oid) ∧
      (∀ e, result = .error e → ∀ oid x,
        (objectAt printable zlib store repoId s oid = some x →
          objectAt printable zlib store repoId s' oid = some x) ∧
        (objectAt printable zlib store repoId s' oid = some x →
          objectAt printable zlib store repoId s oid = some x ∨ ∃ e ∈ pack.entries,
            Resolves sha1 pack (objectAt printable zlib store repoId s) e x ∧
              looseOidHex sha1 x = oid)) ∧
      WellFormed sha1 zlib store repoId s' ∧
      ∀ repo oid, repo ≠ repoId → store.readLoose s' repo oid = store.readLoose s repo oid := by
  obtain ⟨result, u, hruns, hu, hends⟩ := storeEntries_ends hstore hwf hhash horder
  refine ⟨result, u.store, hruns, ?_, ?_, ?_, hu.wf, hu.others⟩
  · -- every delta applies to its base just when every entry stands for an object
    rw [← forall_resolves_iff]
    cases result with
    | ok n =>
        obtain ⟨-, hall⟩ := hends
        refine iff_of_true ⟨n, rfl⟩ fun e he => ?_
        obtain ⟨i, hi⟩ := List.mem_iff_getElem?.mp (horder.mem_iff.mpr he)
        obtain ⟨x, hx⟩ := Option.isSome_iff_exists.mp (hall i e hi)
        obtain ⟨e', -, hi', hresolves⟩ := hu.resolved i x hx
        rw [hi] at hi'
        cases hi'
        exact ⟨x, hresolves⟩
    | error err =>
        refine iff_of_false ?_ hends
        rintro ⟨n, hn⟩
        cases hn
  · rintro n rfl
    obtain ⟨hn, hall⟩ := hends
    exact ⟨hn.trans horder.length_eq, holds_of_done hwf hhash horder hu hall⟩
  · rintro e rfl oid x
    constructor
    · exact fun h => (hu.holds oid x).mpr (Or.inl h)
    · intro h
      rcases (hu.holds oid x).mp h with hstored | ⟨i, hi, hoid⟩
      · exact Or.inl hstored
      · obtain ⟨e, he, -, hresolves⟩ := hu.resolved i x hi
        exact Or.inr ⟨e, he, hresolves, hoid⟩

/-- On the bytes of a pack the resolver runs on the entries of a pack. -/
theorem storeWithFullResolution_of_parse {decompressZlib : DecompressZlib} {bytes : List UInt8}
    {entries : List ParsedEntry} (h : parsePack decompressZlib bytes = .ok entries) (s : σ) :
    (∃ pack : Pack, pack.entries = entries) ∧ ∀ fuel,
      storeWithFullResolution printable sha1 zlib store repoId decompressZlib fuel bytes s =
        storeEntries printable sha1 zlib store repoId fuel entries s := by
  refine ⟨parsePack_apart h, fun fuel => ?_⟩
  unfold storeWithFullResolution
  rw [h]

end Resolver

/-! ### A blob and a delta -/

/-- Streams as they are. -/
def plainZlib : Zlib where
  deflate bytes := bytes
  inflate := .ok
  inflate_deflate _ := rfl

/-- A hash that tells lengths apart. -/
def lengthHash : Sha1 := fun bytes => Vector.replicate 20 (UInt8.ofNat bytes.length)

def sampleBlob : ParsedEntry := ⟨12, .direct .blob, [1, 2, 3]⟩

/-- The blob and one byte more. -/
def sampleDelta : ParsedEntry := ⟨20, .ofsDelta 8, [3, 4, 0x90, 3, 1, 9]⟩

def samplePack : Pack where
  entries := [sampleBlob, sampleDelta]
  apart e he e' he' h := by
    rcases List.mem_pair.mp he with rfl | rfl <;> rcases List.mem_pair.mp he' with rfl | rfl
    · rfl
    · cases h
    · cases h
    · rfl

def sampleRepo : RepoId := ⟨"demo-pack", rfl⟩

theorem samplePack_resolves {stored : Oid → Option Object} {e : ParsedEntry} {x : Object}
    (he : e ∈ samplePack.entries) (h : Resolves lengthHash samplePack stored e x) :
    x = ⟨.blob, if e.offset = 12 then [1, 2, 3] else [1, 2, 3, 9]⟩ := by
  induction h with
  | @direct e kind hkind =>
      rcases List.mem_pair.mp he with rfl | rfl
      · cases hkind
        rfl
      · cases hkind
  | @ofs e b delta base target hkind hb hoffset _ happly ih =>
      rcases List.mem_pair.mp he with rfl | rfl
      · cases hkind
      · cases hkind
        have hblob : b.offset = 12 := by
          change b.offset + 8 = 20 at hoffset
          omega
        obtain rfl := ih hb
        rw [if_pos hblob] at happly ⊢
        have htarget : applyDelta [1, 2, 3] sampleDelta.data = .ok [1, 2, 3, 9] := by decide
        rw [htarget] at happly
        cases happly
        rfl
  | stored hkind =>
      rcases List.mem_pair.mp he with rfl | rfl <;> cases hkind
  | packed hkind =>
      rcases List.mem_pair.mp he with rfl | rfl <;> cases hkind

/-- The delta stands before its base and is resolved in the second phase. -/
theorem store_with_full_resolution_pair :
    ∃ rows, storeEntries (fun _ => true) lengthHash plainZlib sqliteObjectStore sampleRepo 2
      [sampleDelta, sampleBlob] (fun _ => none) = some (.ok 2, rows) := by
  have hempty : ∀ oid, objectAt (fun _ => true) plainZlib sqliteObjectStore sampleRepo
      (fun _ => none) oid = none := fun _ => rfl
  obtain ⟨result, rows, hruns, hiff, hok, -⟩ := store_with_full_resolution (fun _ => true) lengthHash
    plainZlib sqliteObjectStore sqliteObjectStore_lawful sampleRepo samplePack
    [sampleDelta, sampleBlob] (List.Perm.swap _ _ _) (fun _ => none)
    (fun oid bytes h => by cases h)
    (by
      have hknown : ∀ x, Known lengthHash samplePack (objectAt (fun _ => true) plainZlib
          sqliteObjectStore sampleRepo (fun _ => none)) x →
          x = ⟨.blob, [1, 2, 3]⟩ ∨ x = ⟨.blob, [1, 2, 3, 9]⟩ := by
        rintro x (⟨oid, hoid⟩ | ⟨e, he, hx⟩)
        · rw [hempty] at hoid
          cases hoid
        · rw [samplePack_resolves he hx]
          split_ifs
          · exact Or.inl rfl
          · exact Or.inr rfl
      have hapart : looseOidHex lengthHash ⟨.blob, [1, 2, 3]⟩ ≠
          looseOidHex lengthHash ⟨.blob, [1, 2, 3, 9]⟩ := by
        decide +kernel
      intro x y hx hy hsame
      rcases hknown x hx with rfl | rfl <;> rcases hknown y hy with rfl | rfl
      · rfl
      · exact absurd hsame hapart
      · exact absurd hsame.symm hapart
      · rfl)
  obtain ⟨n, rfl⟩ := hiff.mpr (by
    intro e he hdelta
    rcases List.mem_pair.mp he with rfl | rfl
    · exact absurd rfl (hdelta .blob)
    · exact ⟨⟨.blob, [1, 2, 3]⟩, [1, 2, 3, 9],
        ⟨sampleBlob, List.mem_cons_self, rfl, .direct rfl⟩, by decide⟩)
  obtain ⟨rfl, -⟩ := hok n rfl
  exact ⟨rows, hruns 2 (Nat.le_refl 2)⟩

end NativePack
end Artifacts
