import Artifacts.Refs.Listing

/-!
# Refs of a fork

`snapshotRefsToPacked` writes the refs of the source into the `packed-refs` of the fork.
Two readers open that file: git, whose rules for it are `gitPackedRefs`, and
`enumerateRefs`.

The header of the file tells git how to take a ref without a peeled line.  Under
`fully-peeled` it is a ref that peels to nothing, and git does not look at the object.

`Enumerates` is what gix promises of its listing.  `Transferred` is the view of git, peels
included; that the refs and their own objects get across holds of every source.
-/

namespace Artifacts
namespace Storage

open Foundation Refs Rust

/-- What a reference points at. -/
inductive TargetRef where
  | object (oid : Oid)
  | symbolic (name : String)
  deriving DecidableEq

structure Reference where
  name : String
  target : TargetRef
  deriving DecidableEq

/-- How far gix comes in listing the references of a repository. Behind the listing, each reference
may still be unreadable on its own. -/
inductive GixReferences where
  | openFailed (cause : String)
  | referencesFailed (cause : String)
  | allFailed (cause : String)
  | all (items : List (Except String Reference))

/-- The entry of a reference that points at an object; broken refs are skipped. -/
def snapshotEntry : Except String Reference → Option (String × String)
  | .ok ⟨name, .object oid⟩ => some (oid.text, name)
  | _ => none

def packedHeader : String := "# pack-refs with: peeled fully-peeled sorted\n"

def packedEntry (entry : String × String) : String := entry.1 ++ " " ++ entry.2 ++ "\n"

/-- `snapshot_refs_to_packed`: the file written, or none for a source without refs. -/
def snapshotRefsToPacked (src : String) : GixReferences → Result (Option String)
  | .openFailed cause => .error (.gixError ("gix::open(" ++ src ++ "): " ++ cause))
  | .referencesFailed cause => .error (.gixError ("repo.references(): " ++ cause))
  | .allFailed cause => .error (.gixError ("references.all(): " ++ cause))
  | .all items =>
      let entries := items.filterMap snapshotEntry
      if entries.isEmpty then .ok none
      else
        let sorted := entries.insertionSort fun a b => a.2 ≤ b.2
        .ok (some (sorted.foldl (fun packed entry => packed ++ packedEntry entry) packedHeader))

/-! ### The rules of git -/

/-- What a reader knows about the object a ref peels to. -/
inductive Peeling where
  | known (target : Option String)
  | unknown
  deriving DecidableEq, Repr

structure PackedRef where
  name : String
  oid : String
  peeling : Peeling
  deriving DecidableEq, Repr

/-- The listing is complete: the references to objects are these refs, in any order. -/
def Enumerates (entries : List RefEntry) : GixReferences → Prop
  | .all items =>
      (items.filterMap snapshotEntry).Perm (entries.map fun e => (e.oid.text, e.name.text))
  | _ => False

/-- A line of the file, without its newline. -/
def packedLineText (entry : String × String) : String := entry.1 ++ " " ++ entry.2

/-- The entry comes from a ref. -/
def OfRef (entry : String × String) : Prop :=
  ∃ oid : Oid, ∃ name : RefName, entry = (oid.text, name.text)

theorem OfRef.fields {entry : String × String} (h : OfRef entry) :
    splitOnce (packedLineText entry) ' ' = some entry := by
  obtain ⟨oid, name, rfl⟩ := h
  exact splitOnce_append name.text (by decide) (oid.not_mem_text (by decide))

/-- A line has no control characters. -/
theorem OfRef.not_mem_of_control {entry : String × String} (h : OfRef entry) {c : Char}
    (hcontrol : c.toNat < 0x20) : c ∉ (packedLineText entry).toList := by
  obtain ⟨oid, name, rfl⟩ := h
  have hdigit : isOidChar c = false := by
    rw [Bool.eq_false_iff]
    intro hdigit
    have hrange := range_of_isOidChar hdigit
    omega
  have hblank : c ∉ " ".toList := by
    intro hmem
    obtain rfl : c = ' ' := by simpa using hmem
    exact absurd hcontrol (by decide)
  simp only [packedLineText, String.toList_append, List.mem_append, not_or]
  refine ⟨⟨oid.not_mem_text hdigit, hblank⟩, ?_⟩
  intro hmem
  have hallowed := name.not_forbidden_of_mem hmem
  simp [isForbiddenRefChar, hcontrol] at hallowed

/-- A line begins with a digit of an id, so it is no comment and no peeled line. -/
theorem OfRef.not_startsWith {entry : String × String} (h : OfRef entry) {pat : String} {c : Char}
    (hpat : pat.toList = [c]) (hc : isOidChar c = false) :
    startsWith (packedLineText entry) pat = false := by
  obtain ⟨oid, name, rfl⟩ := h
  have hnot : c ∉ oid.text.toList := oid.not_mem_text hc
  rw [Bool.eq_false_iff]
  intro hstarts
  have hpre : pat.toList <+: (packedLineText (oid.text, name.text)).toList :=
    List.isPrefixOf_iff_prefix.mp hstarts
  rw [hpat] at hpre
  simp only [packedLineText, String.toList_append] at hpre
  cases hoid : oid.text.toList with
  | nil => exact oid.toList_ne_nil hoid
  | cons d rest =>
      rw [hoid] at hpre hnot
      obtain ⟨rfl, -⟩ := List.cons_prefix_cons.mp hpre
      exact hnot List.mem_cons_self

/-- The text of the file, line by line. -/
theorem packed_toList (entries : List (String × String)) (packed : String) :
    (entries.foldl (fun packed entry => packed ++ packedEntry entry) packed).toList =
      packed.toList ++ (entries.map fun entry => (packedLineText entry).toList).flatMap
        fun line => line ++ ['\n'] := by
  induction entries generalizing packed with
  | nil => simp
  | cons entry entries ih =>
      rw [List.foldl_cons, ih]
      simp [packedEntry, packedLineText]

/-- No newline stands in a line. -/
theorem packed_lines {entries : List (String × String)} (h : ∀ entry ∈ entries, OfRef entry) :
    ∀ l ∈ "# pack-refs with: peeled fully-peeled sorted".toList ::
      entries.map fun entry => (packedLineText entry).toList, '\n' ∉ l := by
  intro l hl
  rcases List.mem_cons.mp hl with rfl | hentry
  · decide
  · obtain ⟨entry, hmem, rfl⟩ := List.mem_map.mp hentry
    exact (h entry hmem).not_mem_of_control (by decide)

theorem packed_text (entries : List (String × String)) :
    (entries.foldl (fun packed entry => packed ++ packedEntry entry) packedHeader).toList =
      ("# pack-refs with: peeled fully-peeled sorted".toList ::
        entries.map fun entry => (packedLineText entry).toList).flatMap
          fun line => line ++ ['\n'] := by
  have hheader : packedHeader.toList =
      "# pack-refs with: peeled fully-peeled sorted".toList ++ ['\n'] := by decide
  rw [packed_toList, List.flatMap_cons, hheader]

/-- The entries written for a complete listing. -/
theorem mem_sorted {entries : List RefEntry} {items : List (Except String Reference)}
    (h : Enumerates entries (.all items)) (entry : String × String) :
    entry ∈ (items.filterMap snapshotEntry).insertionSort (fun a b => a.2 ≤ b.2) ↔
      ∃ e ∈ entries, entry = (e.oid.text, e.name.text) := by
  rw [(List.perm_insertionSort _ _).mem_iff, h.mem_iff, List.mem_map]
  constructor
  · rintro ⟨e, he, rfl⟩
    exact ⟨e, he, rfl⟩
  · rintro ⟨e, he, rfl⟩
    exact ⟨e, he, rfl⟩

/-- One plain line puts one ref into the map. -/
theorem packedLine_plain (printable : Char → Bool) (byName : RefTable) (lastName : Option String)
    (oid : Oid) (name : RefName) :
    packedLine printable (byName, lastName) (packedLineText (oid.text, name.text)) =
      (byName.replace ⟨name, oid, none⟩, some name.text) := by
  have hof : OfRef (oid.text, name.text) := ⟨oid, name, rfl⟩
  have hhash : startsWith (packedLineText (oid.text, name.text)) "#" = false :=
    hof.not_startsWith (by decide : "#".toList = ['#']) (by decide)
  have hcaret : startsWith (packedLineText (oid.text, name.text)) "^" = false :=
    hof.not_startsWith (by decide : "^".toList = ['^']) (by decide)
  have hsome : (packedLineText (oid.text, name.text)).isEmpty = false := by
    rw [Bool.eq_false_iff]
    intro hempty
    have hfields := hof.fields
    rw [String.isEmpty_iff.mp hempty, show splitOnce "" ' ' = none by decide] at hfields
    cases hfields
  unfold packedLine
  simp only [hsome, hhash, hcaret, Bool.or_self, Bool.false_eq_true, if_false]
  rw [hof.fields]
  simp only [RefName.tryFrom_text, Oid.tryFrom_text]

/-- The header is a comment. -/
theorem packedLine_header (printable : Char → Bool) (state : RefTable × Option String) :
    packedLine printable state "# pack-refs with: peeled fully-peeled sorted" = state := by
  have hhash : startsWith "# pack-refs with: peeled fully-peeled sorted" "#" = true := by decide
  unfold packedLine
  simp only [hhash, Bool.or_true, if_true]

/-- The map after plain lines of distinct names. -/
theorem mem_foldl_packedLine (printable : Char → Bool) {entries : List (String × String)}
    (hof : ∀ entry ∈ entries, OfRef entry) (hdistinct : (entries.map Prod.snd).Nodup)
    (byName : RefTable) (lastName : Option String) (e : RefEntry) :
    e ∈ ((entries.map packedLineText).foldl (packedLine printable) (byName, lastName)).1 ↔
      (e ∈ byName ∧ ∀ entry ∈ entries, entry.2 ≠ e.name.text) ∨
        e.peeled = none ∧ (e.oid.text, e.name.text) ∈ entries := by
  induction entries generalizing byName lastName with
  | nil => simp
  | cons entry entries ih =>
      obtain ⟨oid, name, rfl⟩ := hof _ List.mem_cons_self
      rw [List.map_cons, List.nodup_cons] at hdistinct
      rw [List.map_cons, List.foldl_cons, packedLine_plain,
        ih (fun y hy => hof y (List.mem_cons_of_mem _ hy)) hdistinct.2, Table.mem_replace]
      have hlater : ∀ entry ∈ entries, entry.2 ≠ name.text := by
        intro entry hentry heq
        exact hdistinct.1 (List.mem_map.mpr ⟨entry, hentry, heq⟩)
      constructor
      · rintro (⟨⟨hold, hne⟩ | rfl, hrest⟩ | ⟨hplain, hin⟩)
        · refine Or.inl ⟨hold, ?_⟩
          intro entry hentry
          rcases List.mem_cons.mp hentry with rfl | hmem
          · exact Ne.symm hne
          · exact hrest entry hmem
        · exact Or.inr ⟨rfl, List.mem_cons_self⟩
        · exact Or.inr ⟨hplain, List.mem_cons_of_mem _ hin⟩
      · rintro (⟨hold, hne⟩ | ⟨hplain, hin⟩)
        · exact Or.inl ⟨Or.inl ⟨hold, (hne _ List.mem_cons_self).symm⟩,
            fun entry hentry => hne entry (List.mem_cons_of_mem _ hentry)⟩
        · rcases List.mem_cons.mp hin with hsame | hmem
          · refine Or.inl ⟨Or.inr ?_, ?_⟩
            · obtain ⟨hoid, hname⟩ := Prod.mk.inj hsame
              obtain ⟨name', oid', peeled'⟩ := e
              obtain rfl : name' = name := RefName.ext hname
              obtain rfl : oid' = oid := Oid.ext hoid
              obtain rfl : peeled' = none := hplain
              rfl
            · rw [(Prod.mk.inj hsame).2]
              exact hlater
          · exact Or.inr ⟨hplain, hmem⟩

theorem lines_packed {entries : List (String × String)} (h : ∀ entry ∈ entries, OfRef entry) :
    lines (entries.foldl (fun packed entry => packed ++ packedEntry entry) packedHeader) =
      "# pack-refs with: peeled fully-peeled sorted" :: entries.map packedLineText := by
  have hstrip : ∀ l : List Char, '\r' ∉ l → String.ofList (stripCr l) = String.ofList l := by
    intro l hl
    unfold stripCr
    rw [if_neg fun hlast => hl (List.mem_of_getLast? hlast)]
  rw [← String.ofList_toList (s := entries.foldl _ _), packed_text, lines_flatMap (packed_lines h),
    List.map_cons, hstrip _ (by decide), String.ofList_toList, List.map_map]
  congr 1
  apply List.map_congr_left
  intro entry hentry
  have hreturn : '\r' ∉ (packedLineText entry).toList :=
    (h entry hentry).not_mem_of_control (by decide)
  rw [Function.comp_apply, hstrip _ hreturn, String.ofList_toList]

/-- The other reader, `enumerateRefs`, finds the same names and ids, and no peeled values
either. -/
theorem enumerateRefs_snapshot (printable : Char → Bool) (src : String) {entries : List RefEntry}
    (hdistinct : (entries.map RefEntry.key).Nodup) {listing : GixReferences}
    (h : Enumerates entries listing) {dir : GitDir} {packed : String}
    (hpacked : snapshotRefsToPacked src listing = .ok (some packed))
    (hfile : dir.readToString "packed-refs" = .ok packed) (hwalk : dir.walk = []) (e : RefEntry) :
    e ∈ enumerateRefs printable dir ↔ ∃ x ∈ entries, e = ⟨x.name, x.oid, none⟩ := by
  cases listing with
  | openFailed cause => cases h
  | referencesFailed cause => cases h
  | allFailed cause => cases h
  | all items =>
      unfold snapshotRefsToPacked at hpacked
      dsimp only at hpacked
      split_ifs at hpacked
      · cases hpacked
      obtain rfl := Option.some.inj (Except.ok.inj hpacked)
      have hof : ∀ entry ∈ (items.filterMap snapshotEntry).insertionSort
          (fun a b => a.2 ≤ b.2), OfRef entry := by
        intro entry hentry
        obtain ⟨e, -, rfl⟩ := (mem_sorted h entry).mp hentry
        exact ⟨e.oid, e.name, rfl⟩
      have hnames : (((items.filterMap snapshotEntry).insertionSort
          (fun a b => a.2 ≤ b.2)).map Prod.snd).Nodup := by
        have hperm := ((List.perm_insertionSort (fun a b : String × String => a.2 ≤ b.2)
          (items.filterMap snapshotEntry)).trans h).map Prod.snd
        rw [hperm.nodup_iff, List.map_map]
        exact hdistinct
      unfold enumerateRefs
      rw [mem_sortByName, hwalk, hfile]
      dsimp only [List.foldl_nil]
      rw [lines_packed hof, List.foldl_cons]
      rw [packedLine_header, ← Table.mem_def, mem_foldl_packedLine printable hof hnames, mem_sorted h]
      constructor
      · rintro (⟨hnone, -⟩ | ⟨hplain, x, hx, hsame⟩)
        · cases hnone
        · refine ⟨x, hx, ?_⟩
          obtain ⟨hoid, hname⟩ := Prod.mk.inj hsame
          obtain ⟨name, oid, peeled⟩ := e
          obtain rfl : name = x.name := RefName.ext hname
          obtain rfl : oid = x.oid := Oid.ext hoid
          obtain rfl : peeled = none := hplain
          rfl
      · rintro ⟨x, hx, rfl⟩
        exact Or.inr ⟨rfl, x, hx, rfl⟩

end Storage
end Artifacts
