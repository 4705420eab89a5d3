import Artifacts.Foundation.Runs
import Artifacts.ObjectStores.Contents

/-!
# Do the object stores agree?

The same calls at the same times, made to the three stores.  They agree exactly in the
runs in which an object is only written again with the bytes and in the second of its
first write, as `MemObjectStore` puts the new object in the place of the old one, and
`exists` is not asked for an object that gix finds in an alternate.

`Contents` is the abstract store that each of the three represents.  Listings are compared up to
their order.  The calls are one after another, and no call fails for want of space or rights.
-/

namespace Artifacts
namespace ObjectStores

open Foundation Rust

/-- A call and the clock at it. -/
abbrev TimedCall := Int64 × Call

/-! ### The contract of the trait -/

/-- A second write is a no-op. -/
def Contents.step (contents : Contents) (c : TimedCall) : Contents :=
  match c.2 with
  | .writeLoose id oid bytes => contents.keep id oid ⟨bytes, nowSecs c.1⟩
  | .deleteLoose id oid => contents.set id oid none
  | _ => contents

/-- Two answers that are the same, up to the order of a listing. -/
def Same (a b : Result Answer) : Prop :=
  a = b ∨ ∃ infos infos', a = .ok (.listed infos) ∧ b = .ok (.listed infos') ∧ infos.Perm infos'

/-- A write of an object that is there leaves everything as it is. -/
def NoOp {σ : Type} (store : ObjectStore σ) (view : σ → Contents) (s : σ) (c : TimedCall) : Prop :=
  ∀ id oid bytes, c.2 = .writeLoose id oid bytes → view s id oid ≠ none →
    view (store.call c.1 s c.2).2 = view s

/-! ### The three stores side by side -/

structure Stores where
  fs : LooseFiles
  mem : MemEntries
  sqlite : LooseRows

def Stores.new : Stores := ⟨.empty, .empty, .empty⟩

def Stores.step (gix : Gix) (s : Stores) (c : TimedCall) : Stores where
  fs := ((fsObjectStore gix).call c.1 s.fs c.2).2
  mem := (memObjectStore.call c.1 s.mem c.2).2
  sqlite := (sqliteObjectStore.call c.1 s.sqlite c.2).2

/-- A call that the stores answer alike, and that is a no-op when it should be. -/
structure Agrees (gix : Gix) (s : Stores) (c : TimedCall) : Prop where
  mem : Same ((fsObjectStore gix).call c.1 s.fs c.2).1 (memObjectStore.call c.1 s.mem c.2).1
  sqlite : Same ((fsObjectStore gix).call c.1 s.fs c.2).1 (sqliteObjectStore.call c.1 s.sqlite c.2).1
  fsNoOp : NoOp (fsObjectStore gix) LooseFiles.view s.fs c
  memNoOp : NoOp memObjectStore MemEntries.view s.mem c
  sqliteNoOp : NoOp sqliteObjectStore LooseRows.view s.sqlite c

/-- A write of an object that is there comes with its bytes and in its second, and what is not there
is not in an alternate either when `exists` is asked for it. Git objects are named by their content,
so only the second can differ in practice. -/
def Repeats (gix : Gix) (contents : Contents) (c : TimedCall) : Prop :=
  match c.2 with
  | .writeLoose id oid bytes => ∀ row, contents id oid = some row → row = ⟨bytes, nowSecs c.1⟩
  | .existsOid id oid => contents id oid = none → gix.elsewhere contents id oid = false
  | _ => True

/-! ### One store -/

section Serving

variable {σ τ : Type} {store : ObjectStore σ} {view : σ → Contents}
  {write : Contents → RepoId → Oid → Row → Contents} {also : Contents → RepoId → Oid → Bool}
  {store' : ObjectStore τ} {view' : τ → Contents}
  {write' : Contents → RepoId → Oid → Row → Contents} {also' : Contents → RepoId → Oid → Bool}

/-- What a call does to the contents. -/
theorem Serves.view_call (h : Serves store view write also) (s : σ) (c : TimedCall) :
    view (store.call c.1 s c.2).2 =
      match c.2 with
      | .writeLoose id oid bytes => write (view s) id oid ⟨bytes, nowSecs c.1⟩
      | .deleteLoose id oid => (view s).set id oid none
      | _ => view s := by
  obtain ⟨now, call⟩ := c
  cases call with
  | writeLoose id oid bytes => exact (h.writeLoose now s id oid bytes).2
  | readLoose id oid => rfl
  | listLoose id => rfl
  | deleteLoose id oid => exact (h.deleteLoose s id oid).2
  | existsOid id oid => rfl

/-- Two listings of the same contents are the same but for the order. -/
theorem Lists.perm {contents : Contents} {id : RepoId} {infos infos' : List Storage.LooseInfo}
    (h : Lists contents id infos) (h' : Lists contents id infos') : infos.Perm infos' := by
  rw [List.perm_ext_iff_of_nodup h.nodup h'.nodup]
  intro info
  rw [h.mem_iff, h'.mem_iff]

/-- Two stores of the same contents answer alike, up to what `exists` finds besides. -/
theorem Serves.same_iff (h : Serves store view write also) (h' : Serves store' view' write' also')
    {s : σ} {t : τ} (hview : view s = view' t) (c : TimedCall) :
    Same (store.call c.1 s c.2).1 (store'.call c.1 t c.2).1 ↔
      match c.2 with
      | .existsOid id oid => view s id oid = none → also (view s) id oid = also' (view s) id oid
      | _ => True := by
  obtain ⟨now, call⟩ := c
  cases call with
  | writeLoose id oid bytes =>
      have hsame : (store.call now s (.writeLoose id oid bytes)).1 =
          (store'.call now t (.writeLoose id oid bytes)).1 := by
        simp only [ObjectStore.call, (h.writeLoose now s id oid bytes).1,
          (h'.writeLoose now t id oid bytes).1]
      exact iff_of_true (Or.inl hsame) trivial
  | readLoose id oid =>
      have hsame : (store.call now s (.readLoose id oid)).1 =
          (store'.call now t (.readLoose id oid)).1 := by
        simp only [ObjectStore.call, h.readLoose, h'.readLoose, hview]
      exact iff_of_true (Or.inl hsame) trivial
  | listLoose id =>
      obtain ⟨infos, hlist, hlists⟩ := h.listLoose s id
      obtain ⟨infos', hlist', hlists'⟩ := h'.listLoose t id
      rw [← hview] at hlists'
      refine iff_of_true (Or.inr ⟨infos, infos', ?_, ?_, hlists.perm hlists'⟩) trivial
      · simp only [ObjectStore.call, hlist]
        rfl
      · simp only [ObjectStore.call, hlist']
        rfl
  | deleteLoose id oid =>
      have hsame : (store.call now s (.deleteLoose id oid)).1 =
          (store'.call now t (.deleteLoose id oid)).1 := by
        simp only [ObjectStore.call, (h.deleteLoose s id oid).1, (h'.deleteLoose t id oid).1, hview]
      exact iff_of_true (Or.inl hsame) trivial
  | existsOid id oid =>
      have hfound : (store.call now s (.existsOid id oid)).1 =
          .ok (.found ((view s id oid).isSome || also (view s) id oid)) := by
        simp only [ObjectStore.call, h.existsOid]
        rfl
      have hfound' : (store'.call now t (.existsOid id oid)).1 =
          .ok (.found ((view s id oid).isSome || also' (view s) id oid)) := by
        simp only [ObjectStore.call, h'.existsOid, ← hview]
        rfl
      dsimp only
      rw [hfound, hfound', Same]
      -- an object that is there is found by all; else it hangs on the alternates
      cases view s id oid with
      | none => simp
      | some row => simp

/-- A store has no-op writes when its way of writing does nothing to an object that is
there. -/
theorem Serves.noOp_iff (h : Serves store view write also) (s : σ) (c : TimedCall) :
    NoOp store view s c ↔
      match c.2 with
      | .writeLoose id oid bytes =>
          view s id oid ≠ none → write (view s) id oid ⟨bytes, nowSecs c.1⟩ = view s
      | _ => True := by
  unfold NoOp
  rw [h.view_call s c]
  obtain ⟨now, call⟩ := c
  cases call with
  | writeLoose id oid bytes =>
      constructor
      · intro hnoop
        exact hnoop id oid bytes rfl
      · intro hsame id' oid' bytes' heq
        obtain ⟨rfl, rfl, rfl⟩ := Call.writeLoose.inj heq
        exact hsame
  | readLoose id oid => exact iff_of_true (fun _ _ _ heq => nomatch heq) trivial
  | listLoose id => exact iff_of_true (fun _ _ _ heq => nomatch heq) trivial
  | deleteLoose id oid => exact iff_of_true (fun _ _ _ heq => nomatch heq) trivial
  | existsOid id oid => exact iff_of_true (fun _ _ _ heq => nomatch heq) trivial

end Serving

theorem Contents.keep_of_ne_none {contents : Contents} {id : RepoId} {oid : Oid} (row : Row)
    (h : contents id oid ≠ none) : contents.keep id oid row = contents :=
  if_neg h

theorem Contents.put_eq_self_iff {contents : Contents} {id : RepoId} {oid : Oid} {row : Row} :
    contents.put id oid row = contents ↔ contents id oid = some row := by
  constructor
  · intro h
    have hhere := congrFun (congrFun h id) oid
    rw [← hhere]
    exact if_pos ⟨rfl, rfl⟩
  · exact Contents.set_eq_self

/-! ### A call -/

/-- The three stores hold the same: each of them, seen as a map from repositories and ids to bytes
and seconds, is `contents`. -/
structure Represents (s : Stores) (contents : Contents) : Prop where
  fs : LooseFiles.view s.fs = contents
  mem : MemEntries.view s.mem = contents
  sqlite : LooseRows.view s.sqlite = contents

theorem represents_new : Represents .new fun _ _ => none := ⟨rfl, rfl, rfl⟩

section Step

variable {gix : Gix} {s : Stores} {contents : Contents}

/-- `keep` is the no-op that a second write should be. -/
theorem noOp_of_keep {σ : Type} {store : ObjectStore σ} {view : σ → Contents}
    {also : Contents → RepoId → Oid → Bool} (h : Serves store view Contents.keep also) (t : σ)
    (c : TimedCall) : NoOp store view t c := by
  rw [h.noOp_iff]
  obtain ⟨now, call⟩ := c
  cases call with
  | writeLoose id oid bytes => exact Contents.keep_of_ne_none _
  | readLoose id oid => trivial
  | listLoose id => trivial
  | deleteLoose id oid => trivial
  | existsOid id oid => trivial

/-- **One call.** -/
theorem Represents.agrees_iff (h : Represents s contents) (c : TimedCall) :
    Agrees gix s c ↔ Repeats gix contents c := by
  have hmem := (fs_serves gix).same_iff mem_serves (h.fs.trans h.mem.symm) c
  have hsqlite := (fs_serves gix).same_iff sqlite_serves (h.fs.trans h.sqlite.symm) c
  have hnoop := mem_serves.noOp_iff s.mem c
  rw [h.fs] at hmem hsqlite
  rw [h.mem] at hnoop
  have hparts : Agrees gix s c ↔
      Same ((fsObjectStore gix).call c.1 s.fs c.2).1 (memObjectStore.call c.1 s.mem c.2).1 ∧
        Same ((fsObjectStore gix).call c.1 s.fs c.2).1
          (sqliteObjectStore.call c.1 s.sqlite c.2).1 ∧
        NoOp memObjectStore MemEntries.view s.mem c := by
    constructor
    · intro ha
      exact ⟨ha.mem, ha.sqlite, ha.memNoOp⟩
    · intro ha
      exact ⟨ha.1, ha.2.1, noOp_of_keep (fs_serves gix) s.fs c, ha.2.2,
        noOp_of_keep sqlite_serves s.sqlite c⟩
  rw [hparts, hmem, hsqlite, hnoop]
  obtain ⟨now, call⟩ := c
  cases call with
  | writeLoose id oid bytes =>
      dsimp only [Repeats]
      rw [true_and, true_and, Contents.put_eq_self_iff]
      cases contents id oid with
      | none => simp
      | some row => simp
  | readLoose id oid => simp [Repeats]
  | listLoose id => simp [Repeats]
  | deleteLoose id oid => simp [Repeats]
  | existsOid id oid => simp [Repeats]

/-- The stores go on holding the same. -/
theorem Represents.step (h : Represents s contents) {c : TimedCall}
    (hc : Repeats gix contents c) : Represents (s.step gix c) (contents.step c) := by
  have hfs := (fs_serves gix).view_call s.fs c
  have hmem := mem_serves.view_call s.mem c
  have hsqlite := sqlite_serves.view_call s.sqlite c
  rw [h.fs] at hfs
  rw [h.mem] at hmem
  rw [h.sqlite] at hsqlite
  refine ⟨hfs, hmem.trans ?_, hsqlite⟩
  obtain ⟨now, call⟩ := c
  cases call with
  | writeLoose id oid bytes =>
      -- an object that is there is put in its own place
      dsimp only [Contents.step, Contents.keep]
      split_ifs with hfree
      · rfl
      · obtain ⟨row, hrow⟩ := Option.ne_none_iff_exists'.mp hfree
        rw [Contents.put_eq_self_iff, hrow, hc row hrow]
  | readLoose id oid => rfl
  | listLoose id => rfl
  | deleteLoose id oid => rfl
  | existsOid id oid => rfl

end Step

/-- **When the stores agree.** Every call of a run is answered alike by the three stores exactly in
the runs in which an object is written again only with its bytes and in its second, and `exists` is
asked for nothing that only an alternate has. The runs are any lists of calls with any times, from
stores that are empty. What gix finds in the alternates of a repository is a parameter. -/
theorem stores_agree_iff (gix : Gix) (calls : List TimedCall) :
    EveryStep (Stores.step gix) (Agrees gix) .new calls ↔
      EveryStep Contents.step (Repeats gix) (fun _ _ => none) calls :=
  everyStep_iff_of_simulation (fun _ _ c h => h.agrees_iff c) (fun _ _ _ h hc => h.step hc)
    represents_new calls

/-! ### A blob written again -/

/-- gix finds nothing besides. -/
def plainGix : Gix := ⟨fun _ => true, fun _ => [], fun _ => true⟩

def blobRepo : RepoId := ⟨"blob", rfl⟩

def blobOid : Oid := ⟨"2222222222222222222222222222222222222222", rfl⟩

/-- The same write twice, ten seconds apart, and a listing. -/
def rewriteAndList : List TimedCall :=
  [(10, .writeLoose blobRepo blobOid [120, 1]), (20, .writeLoose blobRepo blobOid [120, 1]),
    (30, .listLoose blobRepo)]

/-- `MemObjectStore` lists the object as created by the second write. -/
theorem rewrite_moves_created :
    ¬ EveryStep (Stores.step plainGix) (Agrees plainGix) .new rewriteAndList := by
  let s : Stores := (rewriteAndList.take 2).foldl (Stores.step plainGix) .new
  have hfs : ((fsObjectStore plainGix).call 30 s.fs (.listLoose blobRepo)).1 =
      .ok (.listed [⟨blobOid, 2, 10⟩]) := rfl
  have hmem : (memObjectStore.call 30 s.mem (.listLoose blobRepo)).1 =
      .ok (.listed [⟨blobOid, 2, 20⟩]) := rfl
  intro h
  have hlist : Agrees plainGix s (30, .listLoose blobRepo) := h.2.2.1
  have hsame := hlist.mem
  rw [hfs, hmem] at hsame
  cases hsame with
  | inl heq => cases heq
  | inr hlisted =>
      obtain ⟨infos, infos', hinfos, hinfos', hperm⟩ := hlisted
      cases hinfos
      cases hinfos'
      have heq := List.singleton_perm_singleton.mp hperm
      cases heq

end ObjectStores
end Artifacts
