import Artifacts.Refs.HeadAgrees
import Artifacts.Refs.Store

/-!
# The point read of `FsRefStore`

`FsRefStore::read` asks `git rev-parse`, which looks a name up along a search path:
a ref that is absent is still found under one of five other names.  `FsRefStore::list`
reads the files.  `RefState` is a repository as git writes it, and `value` is what git
finds under one name.

`RevParses` is that search path as a contract of the command; `RefState` keeps it apart from
what the files say.  `MemRefStore` has one table for both, and so no such difference.
-/

namespace Artifacts
namespace Refs

open Foundation Rust

/-! ### Ref states -/

/-- A ref in `packed-refs`.  Its name has no blank and no control character. -/
structure PackedRef where
  name : String
  oid : Oid
  peeled : Option Oid
  valid : ∀ c ∈ name.toList, 32 < c.toNat

/-- The lines of a packed ref. -/
def PackedRef.lines (r : PackedRef) : List String :=
  (r.oid.text ++ " " ++ r.name) :: (r.peeled.map fun p => "^" ++ p.text).toList

/-- The first line of `packed-refs`. -/
def packedHeader : String := "# pack-refs with: peeled fully-peeled sorted "

def packedText (refs : List PackedRef) : String :=
  String.ofList ((packedHeader :: refs.flatMap PackedRef.lines).flatMap fun l => l.toList ++ ['\n'])

/-- The refs of a repository as git writes them: names are UTF-8, every loose file holds an
object id, no name is packed twice. -/
structure RefState where
  head : Option (List UInt8)
  tree : Dir
  packed : Option (List PackedRef)
  distinct : tree.distinct = true
  utf8 : ∀ f ∈ tree.files, IsUtf8 f.1
  loose : ∀ f ∈ tree.files, ∃ oid : Oid, f.2 = some (asBytes (oid.text ++ "\n"))
  once : ((packed.getD []).map PackedRef.name).Nodup

def RefState.files (st : RefState) : RefFiles where
  head := st.head
  packed := st.packed.map packedText
  tree := st.tree
  distinct := st.distinct

/-- The object of a ref: the loose file counts first. -/
def RefState.value (st : RefState) (n : String) : Option Oid :=
  (looseOid (st.files.fileAt n)).or
    (((st.packed.getD []).find? fun r => r.name == n).map PackedRef.oid)

/-- The names that git tries after the name itself. -/
def nestedNames (n : String) : List String :=
  ["refs/" ++ n, "refs/tags/" ++ n, "refs/heads/" ++ n, "refs/remotes/" ++ n,
    "refs/remotes/" ++ n ++ "/HEAD"]

/-- What a name resolves to. -/
def RefState.resolve (st : RefState) (n : String) : Option Oid :=
  (n :: nestedNames n).findSome? st.value

/-- `git rev-parse --verify` of a name under `refs/`: it prints what the first name of the search
path has, and fails if none has anything. -/
structure RevParses {σ : Type} (runGit : GitRunner σ) (stateOf : σ → RepoId → RefState) : Prop where
  found : ∀ s repoId (n : RefName) (oid : Oid), startsWith n.text "refs/" = true →
    (stateOf s repoId).resolve n.text = some oid →
    ∃ err, runGit s repoId ["rev-parse", "--verify", "--end-of-options", n.text] =
      (.ok (0, asBytes (oid.text ++ "\n"), err), s)
  missing : ∀ s repoId (n : RefName), startsWith n.text "refs/" = true →
    (stateOf s repoId).resolve n.text = none →
    ∃ rc out err, rc ≠ 0 ∧
      runGit s repoId ["rev-parse", "--verify", "--end-of-options", n.text] =
        (.ok (rc, out, err), s)

/-- Do these prefixes let the name through? -/
def Admits (prefixes : List String) (n : RefName) : Prop :=
  prefixes = [] ∨ ∃ p ∈ prefixes, startsWith n.text p = true

/-- `read` finds an object for the name exactly when `list` lists the name with it. -/
def ReadsAsListed (read : Result (Option Oid)) (list : List String → Result (List RefEntry))
    (n : RefName) : Prop :=
  ∀ oid prefixes, Admits prefixes n →
    (read = .ok (some oid) ↔
      ∃ entries, list prefixes = .ok entries ∧ ∃ e ∈ entries, e.name = n ∧ e.oid = oid)

/-! ### `MemRefStore` -/

/-- The entries of `MemState::refs`. -/
abbrev MemTable := Table (Prod.fst : (String × String) × Oid → String × String)

def MemTable.refs (table : MemTable) : MemRefs := fun k => (table.find? k).map Prod.snd

/-- `MemRefStore::read`: what is stored under the whole name, and nothing else. -/
def memRead (refs : MemRefs) (repoId : RepoId) (refName : RefName) : Result (Option Oid) :=
  .ok (refs (repoId.text, refName.text))

/-- `MemRefStore::list`: the rows of the repository under some prefix, or all if there is none, in
the order of their names. A row whose name is invalid is left out. -/
def memList (printable : Char → Bool) (table : MemTable) (repoId : RepoId)
    (prefixes : List String) : Result (List RefEntry) :=
  .ok (sortByName
    (((table.rows.filter fun row => row.1.1 == repoId.text).filter fun row =>
        prefixes.isEmpty || prefixes.any fun p => startsWith row.1.2 p).filterMap fun row =>
      (RefName.tryFrom printable row.1.2).toOption.map fun n => ⟨n, row.2, none⟩))

theorem admits_iff {prefixes : List String} {n : RefName} :
    (prefixes.isEmpty || prefixes.any fun p => startsWith n.text p) = true ↔
      Admits prefixes n := by
  unfold Admits
  rw [Bool.or_eq_true, List.isEmpty_iff, List.any_eq_true]

/-- The in-process store reads what it lists. -/
theorem memRead_listed (printable : Char → Bool) (table : MemTable) (repoId : RepoId)
    (n : RefName) :
    ReadsAsListed (memRead table.refs repoId n) (memList printable table repoId) n := by
  intro oid prefixes hadmits
  have hread : memRead table.refs repoId n = .ok (some oid) ↔
      ((repoId.text, n.text), oid) ∈ table := by
    unfold memRead MemTable.refs
    rw [Except.ok.injEq, Option.map_eq_some_iff]
    constructor
    · rintro ⟨⟨key, o⟩, hfind, rfl⟩
      obtain ⟨hrow, rfl⟩ := Table.find?_eq_some_iff.mp hfind
      exact hrow
    · exact fun hrow => ⟨_, Table.find?_eq_some_iff.mpr ⟨hrow, rfl⟩, rfl⟩
  rw [hread]
  constructor
  · intro hrow
    refine ⟨_, rfl, ⟨n, oid, none⟩, mem_sortByName.mpr (List.mem_filterMap.mpr
      ⟨_, List.mem_filter.mpr ⟨List.mem_filter.mpr ⟨hrow, beq_self_eq_true _⟩,
        admits_iff.mpr hadmits⟩, ?_⟩), rfl, rfl⟩
    rw [RefName.tryFrom_text]
    rfl
  · rintro ⟨entries, hlist, e, he, rfl, rfl⟩
    cases hlist
    obtain ⟨⟨⟨repo, name⟩, o⟩, hrow, hentry⟩ := List.mem_filterMap.mp (mem_sortByName.mp he)
    obtain ⟨hrow, -⟩ := List.mem_filter.mp hrow
    obtain ⟨hrow, hrepo⟩ := List.mem_filter.mp hrow
    obtain rfl : repo = repoId.text := beq_iff_eq.mp hrepo
    obtain ⟨typed, hname, rfl⟩ := Option.map_eq_some_iff.mp hentry
    rw [toOption_name, nameOf_eq_some] at hname
    obtain rfl : name = typed.text := hname
    exact hrow

/-! ### The lines of `packed-refs` -/

theorem PackedRef.newline_free (r : PackedRef) : ∀ l ∈ r.lines, ∀ c ∈ l.toList, 32 ≤ c.toNat := by
  have hoid : ∀ o : Oid, ∀ c ∈ o.text.toList, 32 ≤ c.toNat := by
    intro o c hc
    have hrange := range_of_isOidChar (o.isOidChar_of_mem hc)
    omega
  intro l hl c hc
  rcases List.mem_cons.mp hl with rfl | hl
  · rw [String.toList_append, String.toList_append, List.mem_append, List.mem_append] at hc
    rcases hc with (hc | hc) | hc
    · exact hoid r.oid c hc
    · obtain rfl := List.mem_singleton.mp hc
      decide
    · exact (r.valid c hc).le
  · obtain ⟨p, -, rfl⟩ := Option.map_eq_some_iff.mp (Option.mem_toList.mp hl)
    rw [String.toList_append, List.mem_append] at hc
    rcases hc with hc | hc
    · obtain rfl := List.mem_singleton.mp hc
      decide
    · exact hoid p c hc

/-- `packed-refs` is read line by line as it was written. -/
theorem lines_packedText (refs : List PackedRef) :
    lines (packedText refs) = packedHeader :: refs.flatMap PackedRef.lines := by
  have hprint : ∀ l ∈ packedHeader :: refs.flatMap PackedRef.lines, ∀ c ∈ l.toList,
      32 ≤ c.toNat := by
    intro l hl
    rcases List.mem_cons.mp hl with rfl | hl
    · exact forall_mem_of_all (by decide)
    · obtain ⟨r, -, hl⟩ := List.mem_flatMap.mp hl
      exact r.newline_free l hl
  have hcr : ∀ l ∈ packedHeader :: refs.flatMap PackedRef.lines,
      String.ofList (stripCr l.toList) = l := by
    intro l hl
    have hlast : l.toList.getLast? ≠ some '\r' := by
      intro hlast
      have hsize := hprint l hl '\r' (List.mem_of_getLast? hlast)
      revert hsize
      decide
    rw [stripCr, if_neg hlast, String.ofList_toList]
  have hread := @lines_flatMap ((packedHeader :: refs.flatMap PackedRef.lines).map String.toList)
    (by
      intro l hl hmem
      obtain ⟨s, hs, rfl⟩ := List.mem_map.mp hl
      have hsize := hprint s hs '\n' hmem
      revert hsize
      decide)
  rw [List.flatMap_map, List.map_map] at hread
  unfold packedText
  rw [hread]
  exact (List.map_congr_left hcr).trans (List.map_id _)

theorem refLine_ref (r : PackedRef) :
    refLine (r.oid.text ++ " " ++ r.name) = (nameOf r.name).map fun n => (n, r.oid) := by
  have hspace : ' ' ∉ r.oid.text.toList := r.oid.not_mem_text (by decide)
  unfold refLine
  rw [splitOnce_append r.name rfl hspace, Option.bind_some, oidOf_eq_some.mpr rfl]
  cases nameOf r.name with
  | none => rfl
  | some n => rfl

theorem refLine_eq_none {line pat : String} {c : Char} (hpat : pat.toList = [c])
    (hc : isOidChar c = false) (h : startsWith line pat = true) : refLine line = none := by
  cases hline : refLine line with
  | none => rfl
  | some r =>
      obtain ⟨name, oid⟩ := r
      exact Bool.noConfusion (h.symm.trans (startsWith_refLine hline hpat hc))

theorem packedWith_skip {peel : List String → Option Oid} {n line : String} {rest : List String}
    (h : refLine line = none) : packedWith peel n (line :: rest) = packedWith peel n rest := by
  rw [packedWith, h, Option.bind_none, Option.or_none]

/-- The lines of the packed refs say of a valid name what the refs are. -/
theorem packedWith_refs (peel : List String → Option Oid) (n : RefName) {refs : List PackedRef}
    (once : (refs.map PackedRef.name).Nodup) :
    (packedWith peel n.text (refs.flatMap PackedRef.lines)).map Prod.fst =
      (refs.find? fun r => r.name == n.text).map PackedRef.oid := by
  induction refs with
  | nil => rfl
  | cons r refs ih =>
      rw [List.map_cons, List.nodup_cons] at once
      have hrest := ih once.2
      have hpeel : packedWith peel n.text
          ((r.peeled.map fun p => "^" ++ p.text).toList ++ refs.flatMap PackedRef.lines) =
          packedWith peel n.text (refs.flatMap PackedRef.lines) := by
        cases r.peeled with
        | none => rfl
        | some p =>
            have hcaret : startsWith ("^" ++ p.text) "^" = true := by
              unfold startsWith
              rw [String.toList_append]
              rfl
            exact packedWith_skip
              (refLine_eq_none (by decide : "^".toList = ['^']) (by decide) hcaret)
      rw [List.flatMap_cons, PackedRef.lines, List.cons_append, packedWith, hpeel, refLine_ref]
      by_cases hname : r.name = n.text
      · have hnone : refs.find? (fun r => r.name == n.text) = none := by
          rw [List.find?_eq_none]
          intro r' hr' hsame
          have hsame : r'.name = r.name := (beq_iff_eq.mp hsame).trans hname.symm
          exact once.1 (hsame ▸ List.mem_map_of_mem hr')
        rw [hnone, Option.map_none, Option.map_eq_none_iff] at hrest
        simp [hrest, hname, nameOf_eq_some.mpr rfl]
      · have hskip : ((nameOf r.name).map fun n => (n, r.oid)).bind
            (fun row => if row.1.text = n.text then some (row.2, peel ((r.peeled.map fun p =>
              "^" ++ p.text).toList ++ refs.flatMap PackedRef.lines)) else none) = none := by
          cases htyped : nameOf r.name with
          | none => rfl
          | some typed =>
              have htext : r.name = typed.text := nameOf_eq_some.mp htyped
              exact if_neg (htext ▸ hname)
        rw [hskip, Option.or_none, hrest, List.find?_cons_of_neg (by simpa using hname)]

/-! ### Both readers against the value -/

theorem RefState.value_eq_some (st : RefState) (n : RefName) {oid : Oid} :
    st.value n.text = some oid ↔ ∃ peeled, Present st.files n.text oid peeled := by
  have hpacked : (packedWith directPeel n.text st.files.packedLines).map Prod.fst =
      ((st.packed.getD []).find? fun r => r.name == n.text).map PackedRef.oid := by
    rw [← packedWith_refs directPeel n st.once]
    unfold RefFiles.packedLines RefState.files
    cases st.packed with
    | none => rfl
    | some refs =>
        have hheader : refLine packedHeader = none :=
          refLine_eq_none (by decide : "#".toList = ['#']) (by decide) (by decide)
        show (packedWith directPeel n.text (lines (packedText refs))).map Prod.fst = _
        rw [lines_packedText, packedWith_skip hheader]
        rfl
  unfold RefState.value
  rw [← hpacked, Refs.value_eq_some]

/-- `enumerate_refs` lists the value. -/
theorem RefState.listed_iff (printable : Char → Bool) (st : RefState) (n : RefName) (oid : Oid) :
    (∃ e ∈ enumerateRefs printable st.files.gitDir, e.name = n ∧ e.oid = oid) ↔
      st.value n.text = some oid := by
  have hstray : StrayAgrees st.files n := by
    intro before f behind o hwalk hno
    refine absurd (st.utf8 f (st.tree.walk_perm.mem_iff.mp ?_)) hno
    show f ∈ st.files.tree.walk
    rw [hwalk]
    simp
  rw [listed_iff_present printable hstray, st.value_eq_some]

theorem mem_listed {entries : List RefEntry} {prefixes : List String} {n : RefName}
    (h : Admits prefixes n) {e : RefEntry} (hname : e.name = n) :
    e ∈ listed entries prefixes ↔ e ∈ entries := by
  unfold listed
  split_ifs with hempty
  · rfl
  · have hsome := admits_iff.mpr h
    rw [Bool.eq_false_iff.mpr hempty, Bool.false_or] at hsome
    rw [List.mem_filter, hname]
    exact and_iff_left hsome

/-- `list` lists the value. -/
theorem list_iff {σ : Type} (printable : Char → Bool) (stateOf : σ → RepoId → RefState) (s : σ)
    (repoId : RepoId) (n : RefName) (oid : Oid) (prefixes : List String)
    (hadmits : Admits prefixes n) :
    (∃ entries, (fsRefLister printable fun r => (stateOf s r).files.gitDir).list repoId prefixes =
        .ok entries ∧ ∃ e ∈ entries, e.name = n ∧ e.oid = oid) ↔
      (stateOf s repoId).value n.text = some oid := by
  rw [← (stateOf s repoId).listed_iff printable n oid]
  constructor
  · rintro ⟨entries, hentries, e, he, hname, hoid⟩
    cases hentries
    exact ⟨e, (mem_listed hadmits hname).mp he, hname, hoid⟩
  · rintro ⟨e, he, hname, hoid⟩
    exact ⟨_, rfl, e, (mem_listed hadmits hname).mpr he, hname, hoid⟩

/-- `read` answers with what the search path resolves to. -/
theorem fsRead_eq {σ : Type} (printable : Char → Bool) {runGit : GitRunner σ}
    {stateOf : σ → RepoId → RefState} (h : RevParses runGit stateOf) (s : σ) (repoId : RepoId)
    {n : RefName} (hn : startsWith n.text "refs/" = true) :
    (fsRead printable runGit s repoId n).1 = .ok ((stateOf s repoId).resolve n.text) := by
  unfold fsRead
  cases hresolve : (stateOf s repoId).resolve n.text with
  | none =>
      obtain ⟨rc, out, err, hrc, hrun⟩ := h.missing s repoId n hn hresolve
      rw [hrun]
      dsimp only
      rw [if_pos hrc]
  | some oid =>
      obtain ⟨err, hrun⟩ := h.found s repoId n oid hn hresolve
      have htrim : trim (oid.text ++ "\n") = oid.text :=
        trim_line fun c hc => oid.isWhitespace_of_mem hc
      have hsome : oid.text.isEmpty = false := by
        rw [Bool.eq_false_iff]
        intro hempty
        exact oid.toList_ne_nil (String.toList_eq_nil_iff.mpr (String.isEmpty_iff.mp hempty))
      rw [hrun]
      dsimp only
      rw [if_neg (by simp), fromUtf8_asBytes]
      dsimp only
      rw [htrim, hsome, Oid.tryFrom_text]
      rfl

/-- The first name of a search path decides it when it has a value, or when no name behind it
has one. -/
theorem findSome_agrees_iff {α β : Type} (f : α → Option β) (a : α) (others : List α) :
    (∀ b, (a :: others).findSome? f = some b ↔ f a = some b) ↔
      (∃ b, f a = some b) ∨ ∀ a' ∈ others, f a' = none := by
  rw [List.findSome?_cons]
  cases hfirst : f a with
  | some b => simp
  | none =>
      rw [← List.findSome?_eq_none_iff, Option.eq_none_iff_forall_ne_some]
      simp

/-- The answers of `git rev-parse --verify` on one repository, to its last argument. -/
def revParse (st : RefState) : GitRunner Unit := fun s _ args =>
  match args.getLast?.bind st.resolve with
  | some oid => (.ok (0, asBytes (oid.text ++ "\n"), []), s)
  | none => (.ok (128, [], asBytes "fatal: Needed a single revision\n"), s)

theorem revParse_parses (st : RefState) : RevParses (revParse st) fun _ _ => st where
  found := by
    intro s repoId n oid _ hresolve
    refine ⟨[], ?_⟩
    simp [revParse, hresolve]
  missing := by
    intro s repoId n _ hresolve
    refine ⟨128, [], asBytes "fatal: Needed a single revision\n", by decide, ?_⟩
    simp [revParse, hresolve]

/-- **The point read and the listing.** `FsRefStore::read` finds what `list` lists exactly when the
name is there, or no name that git tries after it is; `MemRefStore` always does. The name is any
under `refs/`. What `git rev-parse` answers is taken from its search order (`RevParses`), on
repositories as git writes them. -/
theorem readsAsListed_iff {σ : Type} (printable : Char → Bool) {runGit : GitRunner σ}
    {stateOf : σ → RepoId → RefState} (h : RevParses runGit stateOf) (s : σ) (repoId : RepoId)
    {n : RefName} (hn : startsWith n.text "refs/" = true) :
    (ReadsAsListed (fsRead printable runGit s repoId n).1
        ((fsRefLister printable fun r => (stateOf s r).files.gitDir).list repoId) n ↔
      (∃ oid, (stateOf s repoId).value n.text = some oid) ∨
        ∀ other ∈ nestedNames n.text, (stateOf s repoId).value other = none) ∧
    ∀ table : MemTable,
      ReadsAsListed (memRead table.refs repoId n) (memList printable table repoId) n := by
  refine ⟨?_, fun table => memRead_listed printable table repoId n⟩
  rw [← findSome_agrees_iff]
  have hlist := fun oid prefixes hadmits =>
    list_iff printable stateOf s repoId n oid prefixes hadmits
  unfold ReadsAsListed
  rw [fsRead_eq printable h s repoId hn]
  constructor
  · intro hagree oid
    have hread := hagree oid [] (Or.inl rfl)
    rw [hlist oid [] (Or.inl rfl), Except.ok.injEq] at hread
    exact hread
  · intro hagree oid prefixes hadmits
    rw [hlist oid prefixes hadmits, Except.ok.injEq]
    exact hagree oid

/-- Two branches; the name of one holds the full name of the other. -/
def bothBranches : RefState where
  head := none
  tree := .empty
  packed := some [
    ⟨"refs/heads/refs/heads/topic",
      ⟨"9999999999999999999999999999999999999999", by decide⟩, none, forall_mem_of_all (by decide)⟩,
    ⟨"refs/heads/topic",
      ⟨"8888888888888888888888888888888888888888", by decide⟩, none, forall_mem_of_all (by decide)⟩]
  distinct := Dir.distinct_empty
  utf8 := fun _ => nofun
  loose := fun _ => nofun
  once := by decide

/-- One branch, whose name holds the full name of another. -/
def nestedBranch : RefState where
  head := none
  tree := .empty
  packed := some [⟨"refs/heads/refs/heads/topic",
    ⟨"9999999999999999999999999999999999999999", by decide⟩, none, forall_mem_of_all (by decide)⟩]
  distinct := Dir.distinct_empty
  utf8 := fun _ => nofun
  loose := fun _ => nofun
  once := by decide

/-- The full name inside it. -/
def topicBranch : RefName := ⟨"refs/heads/topic", by decide +kernel⟩

/-- Where both are there, git stops at the name it was given. -/
theorem readsAsListed_bothBranches :
    ReadsAsListed
      (fsRead (fun _ => false) (revParse bothBranches) () ⟨"topics", by decide⟩ topicBranch).1
      ((fsRefLister (fun _ => false) fun _ => bothBranches.files.gitDir).list
        ⟨"topics", by decide⟩) topicBranch := by
  have hvalue : bothBranches.value topicBranch.text =
      some ⟨"8888888888888888888888888888888888888888", by decide⟩ := by
    decide +kernel
  exact (readsAsListed_iff (fun _ => false) (revParse_parses bothBranches) ()
    ⟨"topics", by decide⟩ (by decide)).1.mpr (Or.inl ⟨_, hvalue⟩)

/-- The branch that is not there is read, and is not listed. -/
theorem nestedBranch_read :
    ¬ ReadsAsListed
        (fsRead (fun _ => false) (revParse nestedBranch) () ⟨"topics", by decide⟩ topicBranch).1
        ((fsRefLister (fun _ => false) fun _ => nestedBranch.files.gitDir).list
          ⟨"topics", by decide⟩) topicBranch := by
  intro hagree
  have hresolve : nestedBranch.resolve topicBranch.text =
      some ⟨"9999999999999999999999999999999999999999", by decide⟩ := by
    decide +kernel
  have hnone : nestedBranch.value topicBranch.text = none := by decide +kernel
  have hread := fsRead_eq (fun _ => false) (revParse_parses nestedBranch) ()
    ⟨"topics", by decide⟩ (n := topicBranch) (by decide)
  rw [hresolve] at hread
  have hvalue := (list_iff (fun _ => false) (fun _ _ => nestedBranch) () ⟨"topics", by decide⟩
    topicBranch _ [] (Or.inl rfl)).mp ((hagree _ [] (Or.inl rfl)).mp hread)
  rw [hnone] at hvalue
  cases hvalue

end Refs
end Artifacts
