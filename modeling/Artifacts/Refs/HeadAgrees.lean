import Artifacts.Refs.Enumerate
import Mathlib.Data.List.DropRight

/-!
# HEAD and the listing

`head_state` looks one ref up, `enumerate_refs` lists them all.  Both are measured by
`Present`: the lookup finds exactly the object that is present under the target's name,
the listing does so unless a stray takes the name.

`SymbolicHead` is a repository whose `HEAD` is a symbolic ref, with blanks around the target
as git allows them.  A detached `HEAD` names an object and has nothing to agree with.
-/

namespace Artifacts
namespace Refs

open Foundation Rust

/-- A blank between `ref:` and the name, or behind the name. -/
def isBlank (c : Char) : Bool := [' ', '\t', '\n', '\r'].contains c

/-- A repository whose `HEAD` is symbolic to a valid name under `refs/`, and whose
`packed-refs` names no ref twice. -/
structure SymbolicHead where
  files : RefFiles
  gap : List Char
  target : RefName
  ends : List Char
  blank : ∀ c ∈ gap ++ ends, isBlank c = true
  under : startsWith target.text "refs/" = true
  head : files.head = some (asBytes
    (String.ofList ("ref: ".toList ++ (gap ++ (target.text.toList ++ ends)))))
  once : ((files.packedLines.filterMap refLine).map Prod.fst).Nodup

/-- `head_state` and `enumerate_refs` say the same of the target. -/
def HeadAgrees (printable : Char → Bool) (repo : SymbolicHead) : Prop :=
  (∀ oid, headState printable repo.files.gitDir = .ok (.symbolic repo.target oid) ↔
    ∃ e ∈ enumerateRefs printable repo.files.gitDir, e.name = repo.target ∧ e.oid = oid) ∧
  (headState printable repo.files.gitDir = .ok (.unborn repo.target) ↔
    ∀ e ∈ enumerateRefs printable repo.files.gitDir, e.name ≠ repo.target)

/-- Trimming leaves the name alone. -/
def KeptByTrim (name : RefName) : Prop :=
  ∀ c, name.text.toList.getLast? = some c → isWhitespace c = false

/-- A file whose path is not UTF-8, and which is the last to take the name, holds the object
that the ref has anyway. -/
def StrayAgrees (files : RefFiles) (name : RefName) : Prop :=
  ∀ before f behind oid, files.tree.walk = before ++ f :: behind → ¬ IsUtf8 f.1 →
    refName f.1 = name.text → looseOid f.2 = some oid →
    (∀ g ∈ behind, refName g.1 = name.text → looseOid g.2 = none) →
    ∃ peeled, Present files name.text oid peeled

/-! ### Trimming -/

theorem trim_ofList (l : List Char) :
    trim (String.ofList l) =
      String.ofList ((l.dropWhile isWhitespace).rdropWhile isWhitespace) := by
  unfold trim List.rdropWhile
  rw [String.toList_ofList]

theorem isWhitespace_of_isBlank {c : Char} (h : isBlank c = true) : isWhitespace c = true := by
  have hall : ∀ c ∈ [' ', '\t', '\n', '\r'], isWhitespace c = true := by decide
  exact hall c (List.contains_iff_mem.mp h)

theorem rdropWhile_append {p : Char → Bool} {a b : List Char} (h : b.rdropWhile p ≠ []) :
    (a ++ b).rdropWhile p = a ++ b.rdropWhile p := by
  have hkept : b.reverse.dropWhile p ≠ [] := fun hnil => h (by simp [List.rdropWhile, hnil])
  unfold List.rdropWhile
  rw [List.reverse_append, List.dropWhile_append, if_neg (by simpa using hkept),
    List.reverse_append, List.reverse_reverse]

theorem rdropWhile_append_of_pos {p : Char → Bool} {a b : List Char} (h : ∀ c ∈ b, p c = true) :
    (a ++ b).rdropWhile p = a.rdropWhile p := by
  unfold List.rdropWhile
  rw [List.reverse_append, List.dropWhile_append_of_pos fun c hc => h c (List.mem_reverse.mp hc)]

/-- A name under `refs/` is not blank in front. -/
theorem SymbolicHead.target_cons (repo : SymbolicHead) :
    ∃ rest, repo.target.text.toList = 'r' :: rest := by
  have hpre : "refs/".toList <+: repo.target.text.toList :=
    List.isPrefixOf_iff_prefix.mp repo.under
  obtain ⟨rest, hrest⟩ := hpre
  exact ⟨_, hrest.symm⟩

/-- The target as `head_state` takes it. -/
def SymbolicHead.taken (repo : SymbolicHead) : List Char :=
  repo.target.text.toList.rdropWhile isWhitespace

theorem SymbolicHead.taken_cons (repo : SymbolicHead) : ∃ rest, repo.taken = 'r' :: rest := by
  obtain ⟨rest, hrest⟩ := repo.target_cons
  have hr : isWhitespace 'r' = false := by decide
  have hpre : repo.taken <+: 'r' :: rest := hrest ▸ List.rdropWhile_prefix isWhitespace _
  cases htaken : repo.taken with
  | nil =>
      have hall := List.rdropWhile_eq_nil_iff.mp htaken 'r' (by rw [hrest]; exact List.mem_cons_self)
      exact Bool.noConfusion (hr.symm.trans hall)
  | cons c l =>
      rw [htaken] at hpre
      obtain rfl := (List.cons_prefix_cons.mp hpre).1
      exact ⟨l, rfl⟩

theorem SymbolicHead.taken_eq_iff (repo : SymbolicHead) :
    repo.taken = repo.target.text.toList ↔ KeptByTrim repo.target := by
  unfold SymbolicHead.taken KeptByTrim
  rw [List.rdropWhile_eq_self_iff]
  constructor
  · intro h c hc
    cases hlist : repo.target.text.toList with
    | nil =>
        rw [hlist] at hc
        cases hc
    | cons d l =>
        have hne : repo.target.text.toList ≠ [] := hlist ▸ List.cons_ne_nil d l
        rw [List.getLast?_eq_some_getLast hne] at hc
        obtain rfl := Option.some.inj hc
        exact Bool.eq_false_iff.mpr (h hne)
  · intro h hne hlast
    have hkept := h _ (List.getLast?_eq_some_getLast hne)
    exact Bool.noConfusion (hkept.symm.trans hlast)

/-- The text of `HEAD`, trimmed. -/
theorem SymbolicHead.trim_head (repo : SymbolicHead) :
    trim (String.ofList ("ref: ".toList ++ (repo.gap ++ (repo.target.text.toList ++ repo.ends)))) =
      String.ofList ("ref: ".toList ++ (repo.gap ++ repo.taken)) := by
  obtain ⟨rest, htaken⟩ := repo.taken_cons
  have hends : ∀ c ∈ repo.ends, isWhitespace c = true := fun c hc =>
    isWhitespace_of_isBlank (repo.blank c (List.mem_append_right _ hc))
  have htarget : (repo.target.text.toList ++ repo.ends).rdropWhile isWhitespace = repo.taken :=
    rdropWhile_append_of_pos hends
  have hfront : ∀ l : List Char, ("ref: ".toList ++ l).dropWhile isWhitespace = "ref: ".toList ++ l :=
    fun l => List.dropWhile_cons_of_neg (by decide)
  have hne : repo.taken ≠ [] := by
    rw [htaken]
    exact List.cons_ne_nil _ _
  rw [trim_ofList, hfront, rdropWhile_append, rdropWhile_append, htarget]
  · rwa [htarget]
  · rw [rdropWhile_append (by rwa [htarget]), htarget]
    exact List.append_ne_nil_of_right_ne_nil _ hne

theorem SymbolicHead.trim_target (repo : SymbolicHead) :
    trim (String.ofList (repo.gap ++ repo.taken)) = String.ofList repo.taken := by
  obtain ⟨rest, htaken⟩ := repo.taken_cons
  have hgap : ∀ c ∈ repo.gap, isWhitespace c = true := fun c hc =>
    isWhitespace_of_isBlank (repo.blank c (List.mem_append_left _ hc))
  have hfront : repo.taken.dropWhile isWhitespace = repo.taken := by
    rw [htaken]
    exact List.dropWhile_cons_of_neg (by decide)
  rw [trim_ofList, List.dropWhile_append_of_pos hgap, hfront]
  exact congrArg String.ofList (List.rdropWhile_idempotent isWhitespace _)

/-! ### The lookup -/

/-- What a line gives a name. -/
theorem packedOid_eq (printable : Char → Bool) (target : RefName) (line : String) :
    packedOid printable target.text line =
      (refLine line).bind fun r => if r.1.text = target.text then some r.2 else none := by
  cases hline : refLine line with
  | some r =>
      obtain ⟨name, oid⟩ := r
      obtain ⟨hsome, hhash, hcaret, hsplit⟩ := reads_of_refLine hline
      unfold packedOid
      simp only [hsome, hhash, hcaret, Bool.or_self, Bool.false_eq_true, if_false, hsplit,
        Oid.tryFrom_text, Option.bind_some]
      rfl
  | none =>
      unfold packedOid
      split_ifs with hskip
      · rfl
      · split
        · rfl
        · rename_i sha name hsplit
          split_ifs with hname
          · unfold refLine at hline
            rw [hsplit, Option.bind_some, hname, nameOf_eq_some.mpr rfl, Option.bind_some,
              Option.map_eq_none_iff] at hline
            rw [toOption_oid, hline]
            rfl
          · rfl

/-- With every name on one line, the first line that has it is the last. -/
theorem findSome_packedOid (printable : Char → Bool) (target : RefName)
    (peel : List String → Option Oid) {ls : List String}
    (h : ((ls.filterMap refLine).map Prod.fst).Nodup) :
    ls.findSome? (packedOid printable target.text) =
      (packedWith peel target.text ls).map Prod.fst := by
  induction ls with
  | nil => rfl
  | cons line rest ih =>
      rw [List.findSome?_cons, packedOid_eq, packedWith]
      cases hline : refLine line with
      | none =>
          rw [List.filterMap_cons, hline] at h
          simpa using ih h
      | some r =>
          obtain ⟨name, oid⟩ := r
          rw [List.filterMap_cons, hline, List.map_cons, List.nodup_cons] at h
          have hrest := ih h.2
          by_cases hname : name.text = target.text
          · have hnone : packedWith peel target.text rest = none := by
              refine packedWith_eq_none.mpr fun l hl name' oid' hrow hsame => h.1 ?_
              obtain rfl : name' = name := RefName.ext (hsame.trans hname.symm)
              exact List.mem_map.mpr ⟨_, List.mem_filterMap.mpr ⟨l, hl, hrow⟩, rfl⟩
            simp [hname, hnone]
          · simpa [hname] using hrest

theorem looseOid_fileAt {files : RefFiles} {n : String} {oid : Oid} :
    looseOid (files.fileAt n) = some oid ↔ Loose files n oid := by
  have hnone : looseOid none = none := rfl
  unfold RefFiles.fileAt Loose
  cases hfind : files.tree.walk.find? fun f => fullPath f.1 == asBytes n with
  | none =>
      rw [Option.bind_none, hnone]
      constructor
      · exact nofun
      · rintro ⟨f, hf, hpath, -⟩
        have hno := List.find?_eq_none.mp hfind f (files.tree.walk_perm.mem_iff.mpr hf)
        exact absurd (beq_iff_eq.mpr hpath) hno
  | some f =>
      have hpath : fullPath f.1 = asBytes n := by
        have hbeq := List.find?_some hfind
        exact beq_iff_eq.mp hbeq
      have hf : f ∈ files.tree.files :=
        files.tree.walk_perm.mem_iff.mp (List.mem_of_find?_eq_some hfind)
      rw [Option.bind_some]
      constructor
      · exact fun hoid => ⟨f, hf, hpath, hoid⟩
      · rintro ⟨f', hf', hpath', hoid'⟩
        have hsame : f' = f := List.inj_on_of_nodup_map (Dir.files_distinct files.distinct) hf' hf
          (fullPath_inj (hpath'.trans hpath.symm))
        rwa [hsame] at hoid'

/-- The loose file, or else the last packed line, holds the object that is present. -/
theorem value_eq_some {files : RefFiles} {n : String} {oid : Oid} :
    (looseOid (files.fileAt n)).or ((packedWith directPeel n files.packedLines).map Prod.fst) =
        some oid ↔
      ∃ peeled, Present files n oid peeled := by
  unfold Present
  cases hloose : looseOid (files.fileAt n) with
  | some o =>
      have hat : Loose files n o := looseOid_fileAt.mp hloose
      rw [Option.some_or]
      constructor
      · intro h
        obtain rfl := Option.some.inj h
        exact ⟨none, Or.inl ⟨hat, rfl⟩⟩
      · rintro ⟨peeled, ⟨hother, -⟩ | ⟨hno, -⟩⟩
        · exact congrArg some (hat.unique hother)
        · exact absurd hat (hno o)
  | none =>
      have hno : ∀ o, ¬ Loose files n o := by
        intro o hat
        rw [looseOid_fileAt.mpr hat] at hloose
        cases hloose
      rw [Option.none_or, Option.map_eq_some_iff]
      constructor
      · rintro ⟨⟨o, peeled⟩, hpacked, rfl⟩
        exact ⟨peeled, Or.inr ⟨hno, hpacked⟩⟩
      · rintro ⟨peeled, ⟨hat, -⟩ | ⟨-, hpacked⟩⟩
        · exact absurd hat (hno oid)
        · exact ⟨(oid, peeled), hpacked, rfl⟩

/-- The object that the two readers of `head_state` find. -/
def lookup (printable : Char → Bool) (files : RefFiles) (n : String) : Option Oid :=
  (looseOid (files.fileAt n)).or (files.packedLines.findSome? (packedOid printable n))

theorem SymbolicHead.lookup_eq_some (printable : Char → Bool) (repo : SymbolicHead) {oid : Oid} :
    lookup printable repo.files repo.target.text = some oid ↔
      ∃ peeled, Present repo.files repo.target.text oid peeled := by
  unfold lookup
  rw [findSome_packedOid printable repo.target directPeel repo.once, value_eq_some]

/-! ### `head_state` -/

theorem SymbolicHead.readHead (repo : SymbolicHead) :
    repo.files.gitDir.readToString "HEAD" = .ok
      (String.ofList ("ref: ".toList ++ (repo.gap ++ (repo.target.text.toList ++ repo.ends)))) := by
  show readContents repo.files.head = _
  rw [repo.head, readContents_asBytes]

/-- `head_state`, down to the two readers. -/
theorem SymbolicHead.headState_eq (printable : Char → Bool) (repo : SymbolicHead) :
    headState printable repo.files.gitDir =
      (RefName.tryFrom printable (String.ofList repo.taken)).bind fun target =>
        .ok ((((repo.files.gitDir.readToString (String.ofList repo.taken)).toOption.bind fun s =>
            (Oid.tryFrom printable (trim s)).toOption).or
          ((repo.files.gitDir.readToString "packed-refs").toOption.bind fun text =>
            (lines text).findSome? (packedOid printable (String.ofList repo.taken)))).elim
          (.unborn target) (.symbolic target)) := by
  have href : startsWith (String.ofList ("ref: ".toList ++ (repo.gap ++ repo.taken))) "ref: " =
      true := by
    unfold startsWith
    rw [List.isPrefixOf_iff_prefix]
    exact ⟨repo.gap ++ repo.taken, String.toList_ofList.symm⟩
  have hdrop : (String.ofList ("ref: ".toList ++ (repo.gap ++ repo.taken))).toList.drop 5 =
      repo.gap ++ repo.taken := by
    rw [String.toList_ofList]
    rfl
  unfold headState
  rw [repo.readHead]
  dsimp only
  rw [repo.trim_head, if_pos href, hdrop, repo.trim_target]
  cases RefName.tryFrom printable (String.ofList repo.taken) with
  | error e => rfl
  | ok target =>
      dsimp only
      generalize ((repo.files.gitDir.readToString (String.ofList repo.taken)).toOption.bind
        fun s => (Oid.tryFrom printable (trim s)).toOption) = loose
      generalize ((repo.files.gitDir.readToString "packed-refs").toOption.bind fun text =>
        (lines text).findSome? (packedOid printable (String.ofList repo.taken))) = packed
      cases loose with
      | some oid => rfl
      | none =>
          cases packed with
          | some oid => rfl
          | none => rfl

theorem RefFiles.readLoose (printable : Char → Bool) (files : RefFiles) {n : String}
    (h : startsWith n "refs/" = true) :
    ((files.gitDir.readToString n).toOption.bind fun s =>
      (Oid.tryFrom printable (trim s)).toOption) = looseOid (files.fileAt n) := by
  have hhead : n ≠ "HEAD" := by
    rintro rfl
    revert h
    decide
  have hpacked : n ≠ "packed-refs" := by
    rintro rfl
    revert h
    decide
  have hread : files.gitDir.readToString n = readContents (files.fileAt n) := by
    show (if n = "HEAD" then _ else _) = _
    rw [if_neg hhead, if_neg hpacked]
  unfold looseOid
  rw [hread]
  simp only [toOption_oid]

theorem RefFiles.readPacked {α : Type} (files : RefFiles) (f : String → Option α) :
    ((files.gitDir.readToString "packed-refs").toOption.bind fun text =>
      (lines text).findSome? f) = files.packedLines.findSome? f := by
  have hread : files.gitDir.readToString "packed-refs" =
      readContents (files.packed.map asBytes) := rfl
  unfold RefFiles.packedLines
  rw [hread]
  cases files.packed with
  | none => rfl
  | some text =>
      rw [Option.map_some, readContents_asBytes]
      rfl

/-- A target that trimming leaves alone is looked up. -/
theorem SymbolicHead.headState_kept (printable : Char → Bool) {repo : SymbolicHead}
    (h : KeptByTrim repo.target) :
    headState printable repo.files.gitDir =
      .ok ((lookup printable repo.files repo.target.text).elim (.unborn repo.target)
        (.symbolic repo.target)) := by
  have htaken : String.ofList repo.taken = repo.target.text := by
    rw [repo.taken_eq_iff.mpr h, String.ofList_toList]
  rw [repo.headState_eq, htaken, RefName.tryFrom_text, repo.files.readLoose printable repo.under,
    repo.files.readPacked]
  rfl

/-- The target that a state of HEAD names. -/
def HeadState.target : HeadState → Option RefName
  | symbolic target _ => some target
  | unborn target => some target
  | detached _ => none

/-- Otherwise `head_state` speaks of another name. -/
theorem SymbolicHead.headState_cut (printable : Char → Bool) {repo : SymbolicHead}
    (h : ¬ KeptByTrim repo.target) {state : HeadState}
    (hstate : headState printable repo.files.gitDir = .ok state) :
    state.target ≠ some repo.target := by
  rw [repo.headState_eq] at hstate
  cases hname : RefName.tryFrom printable (String.ofList repo.taken) with
  | error e =>
      rw [hname] at hstate
      cases hstate
  | ok target =>
      rw [hname] at hstate
      have htext := RefName.tryFrom_eq_ok.mp hname
      have hother : target ≠ repo.target := by
        rintro rfl
        apply h
        rw [← repo.taken_eq_iff, ← htext, String.toList_ofList]
      have hok := Except.ok.inj hstate
      intro hsame
      rw [← hok] at hsame
      revert hsame
      generalize ((repo.files.gitDir.readToString (String.ofList repo.taken)).toOption.bind _).or _ =
        found
      cases found with
      | none => exact fun hsame => hother (Option.some.inj hsame)
      | some oid => exact fun hsame => hother (Option.some.inj hsame)

/-! ### The listing says the same -/

/-- The target is listed with the object that is present, unless a stray takes the name. -/
theorem listed_iff_present (printable : Char → Bool) {files : RefFiles} {name : RefName}
    (h : StrayAgrees files name) (oid : Oid) :
    (∃ e ∈ enumerateRefs printable files.gitDir, e.name = name ∧ e.oid = oid) ↔
      ∃ peeled, Present files name.text oid peeled := by
  cases hloose : lastLoose name.text files.tree.walk with
  | some o =>
      have hpresent : ∃ peeled, Present files name.text o peeled := by
        obtain ⟨before, f, behind, hwalk, hname, hoid, hlast⟩ := lastLoose_eq_some.mp hloose
        by_cases hutf8 : IsUtf8 f.1
        · have hf : f ∈ files.tree.walk := by
            rw [hwalk]
            simp
          exact ⟨none, Or.inl ⟨loose_iff.mpr ⟨f, hf, hutf8, hname, hoid⟩, rfl⟩⟩
        · exact h before f behind o hwalk hutf8 hname hoid (lastLoose_eq_none.mp hlast)
      obtain ⟨peeled, hpresent⟩ := hpresent
      constructor
      · rintro ⟨e, he, rfl, rfl⟩
        rcases (mem_enumerateRefs printable files e).mp he with ⟨hoid, -⟩ | ⟨hno, -⟩
        · obtain rfl : o = e.oid := Option.some.inj (hloose.symm.trans hoid)
          exact ⟨peeled, hpresent⟩
        · rw [RefEntry.key, hloose] at hno
          cases hno
      · rintro ⟨peeled', hpresent'⟩
        obtain ⟨rfl, -⟩ := hpresent.unique hpresent'
        exact ⟨⟨name, o, none⟩, (mem_enumerateRefs printable files _).mpr
          (Or.inl ⟨hloose, rfl⟩), rfl, rfl⟩
  | none =>
      constructor
      · rintro ⟨e, he, rfl, rfl⟩
        rcases (mem_enumerateRefs printable files e).mp he with ⟨hoid, -⟩ | ⟨-, hpacked⟩
        · rw [RefEntry.key, hloose] at hoid
          cases hoid
        · obtain ⟨peeled, hdirect⟩ := packedWith_oid hpacked
          exact ⟨peeled, (present_iff_packed hloose).mpr hdirect⟩
      · rintro ⟨peeled, hpresent⟩
        obtain ⟨peeled', hpacked⟩ := packedWith_oid ((present_iff_packed hloose).mp hpresent)
        exact ⟨⟨name, oid, peeled'⟩, (mem_enumerateRefs printable files _).mpr
          (Or.inr ⟨hloose, hpacked⟩), rfl, rfl⟩

theorem keptByTrim_of_headAgrees {printable : Char → Bool} {repo : SymbolicHead}
    (h : HeadAgrees printable repo) : KeptByTrim repo.target := by
  obtain ⟨hsymbolic, hunborn⟩ := h
  by_contra hcut
  -- a cut name is neither found nor unborn under its own name
  by_cases hlisted : ∃ e ∈ enumerateRefs printable repo.files.gitDir, e.name = repo.target
  · obtain ⟨e, he, hname⟩ := hlisted
    exact SymbolicHead.headState_cut printable hcut
      ((hsymbolic e.oid).mpr ⟨e, he, hname, rfl⟩) rfl
  · exact SymbolicHead.headState_cut printable hcut
      (hunborn.mpr fun e he hname => hlisted ⟨e, he, hname⟩) rfl

/-- HEAD of a name that is kept: the object looked up. -/
theorem headState_symbolic_iff {printable : Char → Bool} {repo : SymbolicHead}
    (hkept : KeptByTrim repo.target) (oid : Oid) :
    headState printable repo.files.gitDir = .ok (.symbolic repo.target oid) ↔
      lookup printable repo.files repo.target.text = some oid := by
  rw [SymbolicHead.headState_kept printable hkept]
  cases lookup printable repo.files repo.target.text with
  | none => exact ⟨nofun, nofun⟩
  | some o =>
      constructor
      · intro h
        cases h
        rfl
      · intro h
        cases h
        rfl

theorem headState_unborn_iff {printable : Char → Bool} {repo : SymbolicHead}
    (hkept : KeptByTrim repo.target) :
    headState printable repo.files.gitDir = .ok (.unborn repo.target) ↔
      lookup printable repo.files repo.target.text = none := by
  rw [SymbolicHead.headState_kept printable hkept]
  cases lookup printable repo.files repo.target.text with
  | none => exact ⟨fun _ => rfl, fun _ => rfl⟩
  | some o => exact ⟨nofun, nofun⟩

theorem strayAgrees_of_headAgrees {printable : Char → Bool} {repo : SymbolicHead}
    (h : HeadAgrees printable repo) : StrayAgrees repo.files repo.target := by
  have hkept := keptByTrim_of_headAgrees h
  intro before f behind oid hwalk _ hname hoid hlast
  have hloose : lastLoose repo.target.text repo.files.tree.walk = some oid :=
    lastLoose_eq_some.mpr ⟨before, f, behind, hwalk, hname, hoid, lastLoose_eq_none.mpr hlast⟩
  have hhead := (h.1 oid).mpr ⟨⟨repo.target, oid, none⟩,
    (mem_enumerateRefs printable repo.files _).mpr (Or.inl ⟨hloose, rfl⟩), rfl, rfl⟩
  exact (repo.lookup_eq_some printable).mp ((headState_symbolic_iff hkept oid).mp hhead)

/-- **HEAD and the listing** agree exactly when trimming leaves the target's name alone and no stray
takes it with another object. This is for every repository whose `HEAD` is symbolic, whether its
target is loose, packed, both or not born yet. -/
theorem headAgrees_iff (printable : Char → Bool) (repo : SymbolicHead) :
    HeadAgrees printable repo ↔
      KeptByTrim repo.target ∧ StrayAgrees repo.files repo.target := by
  constructor
  · exact fun h => ⟨keptByTrim_of_headAgrees h, strayAgrees_of_headAgrees h⟩
  · rintro ⟨hkept, hstray⟩
    have hlisted := listed_iff_present printable hstray
    constructor
    · intro oid
      rw [hlisted, ← repo.lookup_eq_some printable, headState_symbolic_iff hkept]
    · rw [headState_unborn_iff hkept, Option.eq_none_iff_forall_ne_some]
      constructor
      · intro h e he hname
        exact h e.oid ((repo.lookup_eq_some printable).mpr
          ((hlisted e.oid).mp ⟨e, he, hname, rfl⟩))
      · intro h oid hfound
        obtain ⟨e, he, hname, -⟩ := (hlisted oid).mpr ((repo.lookup_eq_some printable).mp hfound)
        exact h e he hname

/-- An unborn branch, and a file whose name is no text in the directory of that name. -/
def strayInBranch : SymbolicHead where
  files :=
    { head := some (asBytes "ref: refs/heads/stable\n")
      packed := none
      tree := .dir ⟨[104, 101, 97, 100, 115], by decide⟩
        (.dir ⟨[115, 116, 97, 98, 108, 101], by decide⟩
          (.file ⟨[255], by decide⟩
            (some (asBytes "8888888888888888888888888888888888888888\n")) .empty) .empty) .empty
      distinct := rfl }
  gap := []
  target := ⟨"refs/heads/stable", by decide +kernel⟩
  ends := ['\n']
  blank := by decide
  under := by decide
  head := by decide +kernel
  once := List.nodup_nil

/-- The branch is listed, and `HEAD` is unborn. -/
theorem strayInBranch_disagrees : ¬ HeadAgrees (fun _ => false) strayInBranch := by
  intro h
  have hloose : lastLoose "refs/heads/stable" strayInBranch.files.tree.walk =
      some ⟨"8888888888888888888888888888888888888888", by decide⟩ := by
    decide +kernel
  have hhead := (h.1 _).mpr ⟨⟨strayInBranch.target, _, none⟩,
    (mem_enumerateRefs _ strayInBranch.files _).mpr (Or.inl ⟨hloose, rfl⟩), rfl, rfl⟩
  have hfound := (headState_symbolic_iff (keptByTrim_of_headAgrees h) _).mp hhead
  have hnone : lookup (fun _ => false) strayInBranch.files strayInBranch.target.text = none := by
    decide +kernel
  rw [hnone] at hfound
  cases hfound

end Refs
end Artifacts
