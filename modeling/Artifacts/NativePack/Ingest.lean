import Artifacts.NativePack.DeltaFormat
import Artifacts.NativePack.PackFormat
import Artifacts.NativePack.Resolve

/-!
# Ingesting packs

A sender writes objects into a pack, whole or as deltas, against objects of the same pack or
against objects it does not send.  `ingestPack` of the SQLite store takes the bytes apart,
resolves the deltas and writes the objects as rows.  A receiver that has every base takes all
that was sent, in whatever way each object was packed.  A receiver that lacks one cannot
resolve the delta: `ingestPack` then fails, and some of the objects are stored.

* `Plan` says of every entry what it stands for, and `Plan.unique` that there is no second way.
* `Shipment` is a pack together with its plan and its streams.
* `LacksBase` is the one way in which a receiver can fail.

The trailer may be anything, and objects may be sent that are held already.
-/

namespace Artifacts
namespace NativePack

open Foundation Varint Rust

/-- `SqliteObjectStore::ingest_pack`.  A pack of 32 bytes or less has no entries. -/
def ingestPack (printable : Char → Bool) (sha1 : Sha1) (zlib : Zlib) (decompressZlib : DecompressZlib)
    (repoId : RepoId) (fuel : Nat) (packBytes : List UInt8) (rows : LooseRows) :
    Option (Result Nat × LooseRows) :=
  if packBytes.length ≤ 32 then
    some (.ok 0, rows)
  else
    storeWithFullResolution printable sha1 zlib sqliteObjectStore repoId decompressZlib fuel
      packBytes rows

/-! ### The sender's plan -/

/-- The delta `data` makes `x` of the base: it is a well-formed delta for the base, and its
instructions yield the bytes of `x`. -/
def Patches (base : Object) (data : List UInt8) (x : Object) : Prop :=
  x.kind = base.kind ∧ ∃ target instrs, WellFormedDelta base.payload data target instrs ∧
    x.payload = instrs.flatMap (Instr.output base.payload)

theorem patches_iff {base x : Object} {data : List UInt8} :
    Patches base data x ↔ x.kind = base.kind ∧ applyDelta base.payload data = .ok x.payload :=
  and_congr_right fun _ => applyDelta_eq_ok_iff.symm

/-- Which object each entry of a pack is sent for, and how many deltas away it is from objects that
need no other of the pack. The depth is what rules out circles; the order of the entries does not
matter, but for a base that is named by its distance. -/
structure Plan (sha1 : Sha1) (stored : Oid → Option Object) (entries : List ParsedEntry) where
  object : ParsedEntry → Object
  depth : ParsedEntry → Nat
  direct : ∀ e ∈ entries, ∀ kind, e.kind = .direct kind → object e = ⟨kind, e.data⟩
  ofs : ∀ e ∈ entries, ∀ delta, e.kind = .ofsDelta delta →
    ∃ b ∈ entries, b.offset + delta = e.offset ∧ depth b < depth e ∧
      Patches (object b) e.data (object e)
  ref : ∀ e ∈ entries, ∀ oid, e.kind = .refDelta oid →
    ∃ base, Patches base e.data (object e) ∧
      (stored (hexOid oid) = some base ∨
        ∃ b ∈ entries, depth b < depth e ∧ object b = base ∧ looseOidHex sha1 base = hexOid oid)

/-- A pack on its way to a store, with the trailer that git puts behind the entries. `stored` is
what the sender counts on: a delta may be against any object of it. -/
structure Shipment (z : Decompress) (sha1 : Sha1) (stored : Oid → Option Object) where
  sent : List SentEntry
  trailer : Vector UInt8 20
  few : sent.length < 2 ^ 32
  streams : ∀ e ∈ sent, Inflates z e.stream e.data
  plan : Plan sha1 stored (placeFrom 12 sent)

section Shipment

variable {z : Decompress} {sha1 : Sha1} {stored : Oid → Option Object}

def Shipment.bytes (d : Shipment z sha1 stored) : List UInt8 := encodePack d.sent d.trailer.toList

/-- The objects that are sent. -/
def Shipment.objects (d : Shipment z sha1 stored) : List Object :=
  (placeFrom 12 d.sent).map d.plan.object

end Shipment

/-- No two objects that are stored or in the list have the same SHA-1. -/
def HashesApart (sha1 : Sha1) (stored : Oid → Option Object) (objects : List Object) : Prop :=
  ∀ x y, ((∃ oid, stored oid = some x) ∨ x ∈ objects) → ((∃ oid, stored oid = some y) ∨ y ∈ objects) →
    looseOidHex sha1 x = looseOidHex sha1 y → x = y

/-! ### What the entries stand for -/

section Plan

variable {sha1 : Sha1} {stored : Oid → Option Object} {pack : Pack}

/-- An entry stands for the object it is sent for: the deltas below it come first. -/
theorem Plan.resolves (plan : Plan sha1 stored pack.entries) {e : ParsedEntry}
    (he : e ∈ pack.entries) : Resolves sha1 pack stored e (plan.object e) := by
  induction hdepth : plan.depth e using Nat.strongRecOn generalizing e with
  | ind depth ih =>
      subst hdepth
      cases hkind : e.kind with
      | direct kind =>
          rw [plan.direct e he kind hkind]
          exact .direct hkind
      | ofsDelta delta =>
          obtain ⟨b, hb, hoffset, hbelow, hpatches⟩ := plan.ofs e he delta hkind
          obtain ⟨hsame, happly⟩ := patches_iff.mp hpatches
          have hresult := Resolves.ofs hkind hb hoffset (ih _ hbelow hb rfl) happly
          rw [← hsame] at hresult
          exact hresult
      | refDelta oid =>
          obtain ⟨base, hpatches, hbase⟩ := plan.ref e he oid hkind
          obtain ⟨hsame, happly⟩ := patches_iff.mp hpatches
          rcases hbase with hstored | ⟨b, hb, hbelow, rfl, hoid⟩
          · have hresult : Resolves sha1 pack stored e _ := .stored hkind hstored happly
            rw [← hsame] at hresult
            exact hresult
          · have hresult := Resolves.packed hkind hb (ih _ hbelow hb rfl) hoid happly
            rw [← hsame] at hresult
            exact hresult

/-- The base that the plan has for a delta that names it by its hash. -/
theorem Plan.ref_known (plan : Plan sha1 stored pack.entries)
    (hstored : ∀ oid x, stored oid = some x → looseOidHex sha1 x = oid) {e : ParsedEntry}
    (he : e ∈ pack.entries) {oid : Vector UInt8 20} (hkind : e.kind = .refDelta oid) :
    ∃ base, Patches base e.data (plan.object e) ∧ looseOidHex sha1 base = hexOid oid ∧
      ((∃ oid, stored oid = some base) ∨ base ∈ pack.entries.map plan.object) := by
  obtain ⟨base, hpatches, hfound | ⟨b, hb, -, rfl, hoid⟩⟩ := plan.ref e he oid hkind
  · exact ⟨base, hpatches, hstored _ _ hfound, Or.inl ⟨_, hfound⟩⟩
  · exact ⟨_, hpatches, hoid, Or.inr (List.mem_map_of_mem hb)⟩

/-- A delta makes one object of its base. -/
theorem Patches.target {base x : Object} {data target : List UInt8} (h : Patches base data x)
    (happly : applyDelta base.payload data = .ok target) : (⟨base.kind, target⟩ : Object) = x := by
  obtain ⟨hkind, hx⟩ := patches_iff.mp h
  rw [happly] at hx
  obtain rfl := Except.ok.inj hx
  rw [← hkind]

/-- **An entry stands for no other object**, as long as the hashes are apart.  That they
are apart is only asked of what is stored and sent, not of what the entries might stand
for: the induction on the derivation shows that this is the same. -/
theorem Plan.unique (plan : Plan sha1 stored pack.entries)
    (hstored : ∀ oid x, stored oid = some x → looseOidHex sha1 x = oid)
    (hapart : HashesApart sha1 stored (pack.entries.map plan.object)) {e : ParsedEntry} {x : Object}
    (he : e ∈ pack.entries) (h : Resolves sha1 pack stored e x) : x = plan.object e := by
  induction h with
  | @direct e kind hkind => exact (plan.direct e he kind hkind).symm
  | @ofs e b delta base target hkind hb hoffset _ happly ih =>
      obtain ⟨b', hb', hoffset', -, hpatches⟩ := plan.ofs e he delta hkind
      obtain rfl : b = b' := pack.apart b hb b' hb' (by omega)
      rw [← ih hb] at hpatches
      exact hpatches.target happly
  | @stored e oid base target hkind hfound happly =>
      obtain ⟨base', hpatches, hoid, hknown⟩ := plan.ref_known hstored he hkind
      have hsame := (hstored _ _ hfound).trans hoid.symm
      obtain rfl := hapart base base' (Or.inl ⟨_, hfound⟩) hknown hsame
      exact hpatches.target happly
  | @packed e b oid base target hkind hb _ hoid happly ih =>
      obtain ⟨base', hpatches, hoid', hknown⟩ := plan.ref_known hstored he hkind
      have hbase : base ∈ pack.entries.map plan.object := by
        rw [ih hb]
        exact List.mem_map_of_mem hb
      obtain rfl := hapart base base' (Or.inr hbase) hknown (hoid.trans hoid'.symm)
      exact hpatches.target happly

/-- So the entries of the pack collide with nothing. -/
theorem Plan.noCollision (plan : Plan sha1 stored pack.entries)
    (hstored : ∀ oid x, stored oid = some x → looseOidHex sha1 x = oid)
    (hapart : HashesApart sha1 stored (pack.entries.map plan.object)) :
    NoCollision sha1 pack stored := by
  have hknown : ∀ x, Known sha1 pack stored x →
      (∃ oid, stored oid = some x) ∨ x ∈ pack.entries.map plan.object := by
    rintro x (hfound | ⟨e, he, hx⟩)
    · exact Or.inl hfound
    · rw [plan.unique hstored hapart he hx]
      exact Or.inr (List.mem_map_of_mem he)
  exact fun x y hx hy hsame => hapart x y (hknown x hx) (hknown y hy) hsame

end Plan

/-! ### A store that holds more -/

section More

variable {sha1 : Sha1} {pack : Pack} {stored all : Oid → Option Object}

theorem Resolves.mono (hmore : ∀ oid x, stored oid = some x → all oid = some x) {e : ParsedEntry}
    {x : Object} (h : Resolves sha1 pack stored e x) : Resolves sha1 pack all e x := by
  induction h with
  | direct hkind => exact .direct hkind
  | ofs hkind hb hoffset _ happly ih => exact .ofs hkind hb hoffset ih happly
  | stored hkind hfound happly => exact .stored hkind (hmore _ _ hfound) happly
  | packed hkind hb _ hoid happly ih => exact .packed hkind hb ih hoid happly

theorem NoCollision.anti (hmore : ∀ oid x, stored oid = some x → all oid = some x)
    (h : NoCollision sha1 pack all) : NoCollision sha1 pack stored := by
  have hknown : ∀ x, Known sha1 pack stored x → Known sha1 pack all x := by
    rintro x (⟨oid, hfound⟩ | ⟨e, he, hx⟩)
    · exact Or.inl ⟨oid, hmore oid x hfound⟩
    · exact Or.inr ⟨e, he, hx.mono hmore⟩
  exact fun x y hx hy => h x y (hknown x hx) (hknown y hy)

/-- A plan for a receiver that has less is one for a receiver that has more. -/
def Plan.forMore {entries : List ParsedEntry} (plan : Plan sha1 stored entries)
    (hmore : ∀ oid x, stored oid = some x → all oid = some x) : Plan sha1 all entries where
  object := plan.object
  depth := plan.depth
  direct := plan.direct
  ofs := plan.ofs
  ref e he oid hkind := by
    obtain ⟨base, hpatches, hbase⟩ := plan.ref e he oid hkind
    exact ⟨base, hpatches, hbase.imp_left (hmore _ _)⟩

def Shipment.forMore {z : Decompress} (d : Shipment z sha1 stored)
    (hmore : ∀ oid x, stored oid = some x → all oid = some x) : Shipment z sha1 all where
  sent := d.sent
  trailer := d.trailer
  few := d.few
  streams := d.streams
  plan := d.plan.forMore hmore

end More

/-! ### A base that is lacking -/

/-- Some delta names a base by its hash that is neither stored nor to be had from the pack. -/
def LacksBase (sha1 : Sha1) (pack : Pack) (stored : Oid → Option Object) : Prop :=
  ∃ e ∈ pack.entries, ∃ oid, e.kind = .refDelta oid ∧ ∀ base, ¬ BaseOf sha1 pack stored e base

section Lacks

variable {sha1 : Sha1} {pack : Pack} {stored all : Oid → Option Object}

/-- If no base is lacking, every entry stands for the object it is sent for.  The base that
is there is the one of the plan, because both have the hash that the delta names. -/
theorem Plan.resolves_unless (plan : Plan sha1 all pack.entries)
    (hmore : ∀ oid x, stored oid = some x → all oid = some x)
    (hall : ∀ oid x, all oid = some x → looseOidHex sha1 x = oid)
    (hapart : HashesApart sha1 all (pack.entries.map plan.object))
    (hbases : ¬ LacksBase sha1 pack stored) {e : ParsedEntry} (he : e ∈ pack.entries) :
    Resolves sha1 pack stored e (plan.object e) := by
  induction hdepth : plan.depth e using Nat.strongRecOn generalizing e with
  | ind depth ih =>
      subst hdepth
      cases hkind : e.kind with
      | direct kind =>
          rw [plan.direct e he kind hkind]
          exact .direct hkind
      | ofsDelta delta =>
          obtain ⟨b, hb, hoffset, hbelow, hpatches⟩ := plan.ofs e he delta hkind
          obtain ⟨hsame, happly⟩ := patches_iff.mp hpatches
          have hresult := Resolves.ofs hkind hb hoffset (ih _ hbelow hb rfl) happly
          rw [← hsame] at hresult
          exact hresult
      | refDelta oid =>
          obtain ⟨base, hbase⟩ : ∃ base, BaseOf sha1 pack stored e base := by
            by_contra hnone
            exact hbases ⟨e, he, oid, hkind, not_exists.mp hnone⟩
          have hfound := hbase
          unfold BaseOf at hfound
          rw [hkind] at hfound
          obtain ⟨hknown, hoid⟩ := known_of_ref hall (hfound.imp (hmore _ _)
            fun ⟨b, hb, hresolves, hoid⟩ => ⟨b, hb, hresolves.mono hmore, hoid⟩)
          obtain ⟨base', hpatches, hoid', hknown'⟩ := plan.ref_known hall he hkind
          have hplanned : Known sha1 pack all base' := hknown'.imp_right fun hmem => by
            obtain ⟨b, hb, rfl⟩ := List.mem_map.mp hmem
            exact ⟨b, hb, plan.resolves hb⟩
          obtain rfl := plan.noCollision hall hapart base base' hknown hplanned
            (hoid.trans hoid'.symm)
          obtain ⟨hsame, happly⟩ := patches_iff.mp hpatches
          have hresult := resolves_of_base hbase happly
          rw [← hsame] at hresult
          exact hresult

/-- Against what it is a plan for, no base is lacking. -/
theorem Plan.lacks_nothing {entries : List ParsedEntry} (plan : Plan sha1 stored entries)
    (hpack : pack.entries = entries) : ¬ LacksBase sha1 pack stored := by
  subst hpack
  rintro ⟨e, he, oid, hkind, hnone⟩
  rcases (plan.resolves he).cases_base with ⟨kind, hdirect, -⟩ | ⟨-, base, _, hbase, -⟩
  · rw [hkind] at hdirect
    cases hdirect
  · exact hnone base hbase

end Lacks

/-! ### One pack -/

section Ingest

variable {printable : Char → Bool} {sha1 : Sha1} {zlib : Zlib} {z : Decompress} {repoId : RepoId}
  {rows : LooseRows} {all : Oid → Option Object}

/-- A row store that holds `objects` beside what `rows` holds, in one repository. -/
structure Gains (printable : Char → Bool) (sha1 : Sha1) (zlib : Zlib) (repoId : RepoId)
    (rows : LooseRows) (objects : List Object) (rows' : LooseRows) : Prop where
  wf : WellFormed sha1 zlib sqliteObjectStore repoId rows'
  holds : ∀ oid x, objectAt printable zlib sqliteObjectStore repoId rows' oid = some x ↔
    objectAt printable zlib sqliteObjectStore repoId rows oid = some x ∨
      x ∈ objects ∧ looseOidHex sha1 x = oid
  others : ∀ repo oid, repo ≠ repoId →
    sqliteObjectStore.readLoose rows' repo oid = sqliteObjectStore.readLoose rows repo oid

theorem Gains.none {rows : LooseRows} (hwf : WellFormed sha1 zlib sqliteObjectStore repoId rows) :
    Gains printable sha1 zlib repoId rows [] rows where
  wf := hwf
  holds oid x := by simp
  others _ _ _ := rfl

theorem Gains.trans {rows rows' rows'' : LooseRows} {xs ys : List Object}
    (h : Gains printable sha1 zlib repoId rows xs rows')
    (h' : Gains printable sha1 zlib repoId rows' ys rows'') :
    Gains printable sha1 zlib repoId rows (xs ++ ys) rows'' where
  wf := h'.wf
  holds oid x := by
    rw [h'.holds, h.holds, List.mem_append]
    tauto
  others repo oid hne := (h'.others repo oid hne).trans (h.others repo oid hne)

/-- The resolver on the entries of a plan: all objects are gained, or a base is lacking and
some of them are. -/
theorem storeEntries_of_thin {pack : Pack}
    (hwf : WellFormed sha1 zlib sqliteObjectStore repoId rows)
    (hmore : ∀ oid x, objectAt printable zlib sqliteObjectStore repoId rows oid = some x →
      all oid = some x)
    (hall : ∀ oid x, all oid = some x → looseOidHex sha1 x = oid)
    (plan : Plan sha1 all pack.entries)
    (hapart : HashesApart sha1 all (pack.entries.map plan.object)) :
    ∃ result rows', (∀ fuel, pack.entries.length ≤ fuel →
        storeEntries printable sha1 zlib sqliteObjectStore repoId fuel pack.entries rows =
          some (result, rows')) ∧
      ∃ xs, (∀ x ∈ xs, x ∈ pack.entries.map plan.object) ∧
        Gains printable sha1 zlib repoId rows xs rows' ∧
        match result with
        | .ok n => n = pack.entries.length ∧ xs = pack.entries.map plan.object
        | .error _ => LacksBase sha1 pack (objectAt printable zlib sqliteObjectStore repoId rows) := by
  have hhash := plan.noCollision hall hapart
  have hobject : ∀ e ∈ pack.entries, ∀ x,
      Resolves sha1 pack (objectAt printable zlib sqliteObjectStore repoId rows) e x →
      x = plan.object e := fun e he x hx => plan.unique hall hapart he (hx.mono hmore)
  obtain ⟨result, u, hruns, hsound, hends⟩ := storeEntries_ends sqliteObjectStore_lawful hwf
    (hhash.anti hmore) (List.Perm.refl pack.entries)
  refine ⟨result, u.store, hruns, ?_⟩
  cases result with
  | ok n =>
      obtain ⟨hcount, hdone⟩ := hends
      have hholds := holds_of_done hwf (hhash.anti hmore) (List.Perm.refl _) hsound hdone
      refine ⟨pack.entries.map plan.object, fun _ => id, ⟨hsound.wf, fun oid x => ?_, hsound.others⟩,
        hcount, rfl⟩
      rw [hholds]
      refine or_congr_right ⟨?_, ?_⟩
      · rintro ⟨e, he, hresolves, hoid⟩
        rw [hobject e he x hresolves] at hoid ⊢
        exact ⟨List.mem_map_of_mem he, hoid⟩
      · rintro ⟨hx, hoid⟩
        obtain ⟨e, he, rfl⟩ := List.mem_map.mp hx
        obtain ⟨i, hi⟩ := List.mem_iff_getElem?.mp he
        obtain ⟨y, hy⟩ := Option.isSome_iff_exists.mp (hdone i e hi)
        obtain ⟨e', -, hi', hresolves⟩ := hsound.resolved i y hy
        rw [hi] at hi'
        cases hi'
        exact ⟨e, he, hobject e he y hresolves ▸ hresolves, hoid⟩
  | error err =>
      -- what was stored of the pack are objects that some entries stand for
      refine ⟨(pack.entries.map plan.object).filter fun x =>
        objectAt printable zlib sqliteObjectStore repoId u.store (looseOidHex sha1 x) = some x,
        fun x hx => (List.mem_filter.mp hx).1, ⟨hsound.wf, fun oid x => ?_, hsound.others⟩, ?_⟩
      · rw [List.mem_filter, decide_eq_true_eq]
        constructor
        · intro hx
          rcases (hsound.holds oid x).mp hx with hold | ⟨i, hi, rfl⟩
          · exact Or.inl hold
          · obtain ⟨e, he, -, hresolves⟩ := hsound.resolved i x hi
            have hobjects : x ∈ pack.entries.map plan.object := by
              rw [hobject e he x hresolves]
              exact List.mem_map_of_mem he
            exact Or.inr ⟨⟨hobjects, hx⟩, rfl⟩
        · rintro (hold | ⟨⟨-, hx⟩, rfl⟩)
          · exact (hsound.holds oid x).mpr (Or.inl hold)
          · exact hx
      · by_contra hbases
        exact hends fun e he => ⟨_, plan.resolves_unless hmore hall hapart hbases he⟩

theorem encode_ne_nil (e : SentEntry) : 0 < e.encode.length := by
  have hheader : 0 < (headerEncode e.kind.code e.data.length).length :=
    List.length_pos_of_ne_nil (front_ne_nil (front_headerEncode (code_lt e.kind) _ []))
  rw [SentEntry.encode, List.length_append, List.length_append]
  omega

/-- Only a pack without entries is as short as `ingest_pack` looks for. -/
theorem length_encodePack_le_iff (sent : List SentEntry) (trailer : Vector UInt8 20) :
    (encodePack sent trailer.toList).length ≤ 32 ↔ sent = [] := by
  have hlength : (encodePack sent trailer.toList).length = 32 + (encodeEntries sent).length := by
    have htrailer : trailer.toList.length = 20 := by simp
    rw [encodePack, magic_bytes]
    simp only [List.length_append, htrailer, toBeBytes, List.length_cons, List.length_nil]
    omega
  cases sent with
  | nil => exact iff_of_true (by rw [hlength]; exact Nat.le_refl _) rfl
  | cons e sent =>
      refine iff_of_false ?_ (List.cons_ne_nil e sent)
      have hpos := encode_ne_nil e
      rw [hlength, encodeEntries, List.flatMap_cons, List.length_append]
      omega

/-- **A thin pack.** It is taken with all its objects, or some delta has a base that is
lacking: then `ingest_pack` fails, and some of the objects are gained. -/
theorem ingestPack_of_thin (hwf : WellFormed sha1 zlib sqliteObjectStore repoId rows)
    (hmore : ∀ oid x, objectAt printable zlib sqliteObjectStore repoId rows oid = some x →
      all oid = some x)
    (hall : ∀ oid x, all oid = some x → looseOidHex sha1 x = oid) (d : Shipment z sha1 all)
    (hapart : HashesApart sha1 all d.objects) :
    ∃ result rows', (∀ fuel, d.sent.length ≤ fuel →
        ingestPack printable sha1 zlib (decompressZlib z) repoId fuel d.bytes rows =
          some (result, rows')) ∧
      ∃ xs, (∀ x ∈ xs, x ∈ d.objects) ∧ Gains printable sha1 zlib repoId rows xs rows' ∧
        match result with
        | .ok n => n = d.sent.length ∧ xs = d.objects
        | .error _ => ∃ pack : Pack, pack.entries = placeFrom 12 d.sent ∧
            LacksBase sha1 pack (objectAt printable zlib sqliteObjectStore repoId rows) := by
  have hread := parsePack_encodePack z d.sent d.few d.streams d.trailer.toList
  obtain ⟨⟨pack, hpack⟩, hrun⟩ := @storeWithFullResolution_of_parse printable sha1 zlib _
    sqliteObjectStore repoId _ _ _ hread rows
  obtain ⟨sent, trailer, few, streams, plan⟩ := d
  simp only [Shipment.objects, Shipment.bytes] at hapart hread hrun hpack ⊢
  by_cases hnil : sent = []
  · subst hnil
    have hshort := (length_encodePack_le_iff [] trailer).mpr rfl
    refine ⟨.ok 0, rows, fun fuel _ => ?_, [], by simp, Gains.none hwf, rfl, rfl⟩
    rw [ingestPack, if_pos hshort]
  · have hlong := mt (length_encodePack_le_iff sent trailer).mp hnil
    have hcount : (placeFrom 12 sent).length = sent.length := length_placeFrom 12 sent
    generalize placeFrom 12 sent = entries at *
    subst hpack
    obtain ⟨result, rows', hruns, xs, hsent, hgains, hends⟩ :=
      storeEntries_of_thin hwf hmore hall plan hapart
    refine ⟨result, rows', fun fuel hfuel => ?_, xs, hsent, hgains, ?_⟩
    · rw [ingestPack, if_neg hlong, hrun, hruns fuel (by omega)]
    · cases result with
      | ok n => exact ⟨hends.1.trans hcount, hends.2⟩
      | error err => exact ⟨pack, rfl, hends⟩

/-- **One pack.** It is taken, its entries are counted, and the store gains its objects. -/
theorem ingestPack_of_shipment {rows : LooseRows}
    (hwf : WellFormed sha1 zlib sqliteObjectStore repoId rows)
    (d : Shipment z sha1 (objectAt printable zlib sqliteObjectStore repoId rows))
    (hapart : HashesApart sha1 (objectAt printable zlib sqliteObjectStore repoId rows) d.objects) :
    ∃ rows', (∀ fuel, d.sent.length ≤ fuel →
        ingestPack printable sha1 zlib (decompressZlib z) repoId fuel d.bytes rows =
          some (.ok d.sent.length, rows')) ∧
      Gains printable sha1 zlib repoId rows d.objects rows' := by
  obtain ⟨result, rows', hruns, xs, -, hgains, hends⟩ :=
    ingestPack_of_thin hwf (fun _ _ h => h) (fun _ _ h => hash_of_objectAt hwf h) d hapart
  cases result with
  | ok n =>
      obtain ⟨rfl, rfl⟩ := hends
      exact ⟨rows', hruns, hgains⟩
  | error err =>
      obtain ⟨pack, hpack, hlacks⟩ := hends
      exact absurd hlacks (d.plan.lacks_nothing hpack)

end Ingest

end NativePack
end Artifacts
