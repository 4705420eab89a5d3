import Artifacts.Foundation.Separators
import Artifacts.Refs.RevParse
import Artifacts.SmartHttp.PushNames
import Artifacts.Writers.Landings

/-!
# One grammar of branch names

`valid_branch_name` checks a branch before objects are written, `RefName::try_from` checks
its ref afterwards, and also what a listing shows.  `WellFormed` is the grammar that both
have from git; `RefName` alone refuses a component that begins with a dash.

The grammar is compared on all texts, and then along the handlers: `NeverRejectsWritten` says
that no commit object is written for a branch that a later check refuses.
-/

namespace Artifacts
namespace Writers

open Foundation Refs Rust SmartHttp

/-! ### The grammar -/

/-- The rules of `git check-ref-format`, component by component. They are stated of the text, apart
from how the validator goes through it. -/
structure WellFormed (s : String) : Prop where
  parts : ∀ part ∈ split s '/',
    part ≠ "" ∧ startsWith part "." = false ∧ endsWith part ".lock" = false
  dot : endsWith s "." = false
  dots : contains s ".." = false
  brace : contains s "@\x7b" = false
  chars : ∀ c ∈ s.toList, isGitForbiddenChar c = false

/-- No component begins with a dash. -/
def NoDash (s : String) : Prop := ∀ part ∈ split s '/', startsWith part "-" = false

/-- When a component is empty. -/
theorem empty_mem_split_iff {s : String} :
    "" ∈ split s '/' ↔
      s.isEmpty = true ∨ startsWith s "/" = true ∨ endsWith s "/" = true ∨
        contains s "//" = true := by
  have hnil : "" ∈ split s '/' ↔ [] ∈ s.toList.splitOn '/' := by
    unfold split
    rw [List.mem_map]
    constructor
    · rintro ⟨part, hpart, hempty⟩
      have hsame : part = [] := by
        rw [← String.toList_ofList (l := part), hempty]
        rfl
      exact hsame ▸ hpart
    · exact fun h => ⟨[], h, rfl⟩
  rw [hnil, nil_mem_splitOn_iff, String.isEmpty_iff, startsWith, endsWith, contains,
    List.isPrefixOf_iff_prefix, List.isSuffixOf_iff_suffix, decide_eq_true_iff]
  have hempty : s = "" ↔ s.toList = [] := by
    rw [← String.toList_inj]
    rfl
  rw [hempty]
  rfl

theorem parts_ne_iff {s : String} :
    (∀ part ∈ split s '/', part ≠ "") ↔
      s.isEmpty = false ∧ startsWith s "/" = false ∧ endsWith s "/" = false ∧
        contains s "//" = false := by
  have hnot : (∀ part ∈ split s '/', part ≠ "") ↔ "" ∉ split s '/' := by
    constructor
    · exact fun h hmem => h "" hmem rfl
    · rintro h part hpart rfl
      exact h hpart
  rw [hnot, empty_mem_split_iff]
  simp only [not_or, Bool.not_eq_true]

/-- The forbidden characters of git are the backslash and those of the two validators. -/
theorem isGitForbiddenChar_iff {c : Char} :
    isGitForbiddenChar c = false ↔ isForbiddenRefChar c = false ∧ c ≠ '\\' := by
  simp only [isForbiddenRefChar, isGitForbiddenChar, Bool.or_eq_false_iff, List.contains_cons,
    List.contains_nil, Bool.or_false, beq_eq_false_iff_ne]
  tauto

theorem contains_backslash_iff {s : String} : contains s "\\" = false ↔ ∀ c ∈ s.toList, c ≠ '\\' := by
  constructor
  · rintro h c hc rfl
    rw [contains_of_mem (by decide : "\\".toList = ['\\']) hc] at h
    cases h
  · intro h
    rw [Bool.eq_false_iff]
    intro hcontains
    rw [contains, decide_eq_true_iff] at hcontains
    exact h '\\' (hcontains.subset (by decide)) rfl

theorem chars_iff {s : String} :
    (∀ c ∈ s.toList, isGitForbiddenChar c = false) ↔
      s.toList.any isForbiddenRefChar = false ∧ contains s "\\" = false := by
  rw [contains_backslash_iff, List.any_eq_false]
  simp only [isGitForbiddenChar_iff, Bool.not_eq_true]
  exact forall₂_and

/-- **What `valid_branch_name` accepts.** -/
theorem validBranchName_iff {s : String} :
    validBranchName s = true ↔ s ≠ "@" ∧ WellFormed s := by
  have hpart : ∀ part, (!(part.isEmpty || startsWith part "." || endsWith part ".lock")) = true ↔
      part ≠ "" ∧ startsWith part "." = false ∧ endsWith part ".lock" = false := by
    intro part
    simp [and_assoc]
  constructor
  · intro h
    unfold validBranchName at h
    split_ifs at h with hshape hchars
    simp only [Bool.or_eq_true, not_or, Bool.not_eq_true, beq_eq_false_iff_ne] at hshape
    obtain ⟨⟨⟨⟨⟨⟨⟨⟨-, hat⟩, -⟩, -⟩, hdot⟩, -⟩, hdots⟩, hbrace⟩, hback⟩ := hshape
    refine ⟨hat, ⟨fun part hmem => (hpart part).mp (List.all_eq_true.mp h part hmem), hdot, hdots,
      hbrace, chars_iff.mpr ⟨Bool.eq_false_iff.mpr hchars, hback⟩⟩⟩
  · rintro ⟨hat, hparts, hdot, hdots, hbrace, hchars⟩
    obtain ⟨hempty, hstart, hend, hslashes⟩ := parts_ne_iff.mp fun part hmem => (hparts part hmem).1
    obtain ⟨hany, hback⟩ := chars_iff.mp hchars
    have hany' : s.toList.any isReservedBranchChar = false := hany
    unfold validBranchName
    rw [hempty, hstart, hend, hslashes, hdot, hdots, hbrace, hback, hany',
      beq_eq_false_iff_ne.mpr hat]
    exact List.all_eq_true.mpr fun part hmem => (hpart part).mpr (hparts part hmem)

/-- **What `RefName::try_from` accepts**, apart from `HEAD`. -/
theorem validRefName_iff {s : String} (h : s ≠ "HEAD") :
    validRefName s = true ↔ WellFormed s ∧ NoDash s := by
  have hpart : ∀ part, validRefPart part = true ↔
      (part ≠ "" ∧ startsWith part "." = false ∧ endsWith part ".lock" = false) ∧
        startsWith part "-" = false := by
    intro part
    unfold validRefPart
    simp only [Bool.not_or, Bool.and_eq_true, Bool.not_eq_true']
    simp only [String.isEmpty_eq_false_iff]
    tauto
  constructor
  · intro hvalid
    obtain ⟨-, -, hdot, -, hdots, hbrace, hback, hchars, hparts⟩ := validRefName_spec hvalid h
    have hany : s.toList.any isForbiddenRefChar = false := by
      rw [List.any_eq_false]
      exact fun c hc => Bool.eq_false_iff.mp (hchars c hc)
    exact ⟨⟨fun part hmem => ((hpart part).mp (hparts part hmem)).1, hdot, hdots, hbrace,
      chars_iff.mpr ⟨hany, hback⟩⟩, fun part hmem => ((hpart part).mp (hparts part hmem)).2⟩
  · rintro ⟨⟨hparts, hdot, hdots, hbrace, hchars⟩, hdash⟩
    obtain ⟨hempty, hstart, hend, hslashes⟩ := parts_ne_iff.mp fun part hmem => (hparts part hmem).1
    obtain ⟨hany, hback⟩ := chars_iff.mp hchars
    unfold validRefName
    rw [if_neg h, hempty, hstart, hend, hslashes, hdot, hdots, hbrace, hback, hany]
    exact List.all_eq_true.mpr fun part hmem => (hpart part).mpr ⟨hparts part hmem, hdash part hmem⟩

/-- **What git accepts**, of names with a slash. -/
theorem checkRefFormat_iff {s : String} (h : '/' ∈ s.toList) :
    checkRefFormat s = true ↔ WellFormed s := by
  have hslash : contains s "/" = true := contains_of_mem (by decide : "/".toList = ['/']) h
  have hone : s ≠ "@" := by
    rintro rfl
    revert h
    decide
  have hsome : s.isEmpty = false := by
    rw [Bool.eq_false_iff]
    intro hempty
    rw [String.isEmpty_iff.mp hempty] at h
    revert h
    decide
  unfold checkRefFormat
  simp only [Bool.and_eq_true, Bool.not_eq_true', List.all_eq_true, bne_iff_ne]
  constructor
  · rintro ⟨⟨⟨⟨⟨⟨⟨⟨⟨hparts, -⟩, hdots⟩, hany⟩, hstart⟩, hend⟩, hslashes⟩, hdot⟩, hbrace⟩, -⟩
    refine ⟨fun part hmem => ⟨?_, (hparts part hmem).1, (hparts part hmem).2⟩, hdot, hdots, hbrace,
      fun c hc => Bool.eq_false_iff.mpr (List.any_eq_false.mp hany c hc)⟩
    exact parts_ne_iff.mpr ⟨hsome, hstart, hend, hslashes⟩ part hmem
  · rintro ⟨hparts, hdot, hdots, hbrace, hchars⟩
    obtain ⟨-, hstart, hend, hslashes⟩ := parts_ne_iff.mp fun part hmem => (hparts part hmem).1
    have hany : s.toList.any isGitForbiddenChar = false := by
      rw [List.any_eq_false]
      exact fun c hc => Bool.eq_false_iff.mp (hchars c hc)
    exact ⟨⟨⟨⟨⟨⟨⟨⟨⟨fun part hmem => (hparts part hmem).2, hslash⟩, hdots⟩, hany⟩, hstart⟩, hend⟩,
      hslashes⟩, hdot⟩, hbrace⟩, hone⟩

/-! ### Below `refs/heads/` -/

/-- A word whose first letter is not in front of a text is found behind it. -/
theorem infix_append_iff {a : Char} {word front rest : List Char} (h : a ∉ front) :
    (a :: word) <:+: front ++ rest ↔ (a :: word) <:+: rest := by
  constructor
  · rintro ⟨before, behind, heq⟩
    rw [List.append_assoc] at heq
    rcases List.append_eq_append_iff.mp heq with ⟨front', hfront, hword⟩ | ⟨before', -, hrest⟩
    · cases front' with
      | nil => exact ⟨[], behind, hword⟩
      | cons b front' =>
          obtain rfl : a = b := (List.cons.inj hword).1
          rw [hfront] at h
          exact absurd (List.mem_append_right before List.mem_cons_self) h
    · exact ⟨before', behind, by rw [hrest, List.append_assoc]⟩
  · exact fun hmem => hmem.trans (List.suffix_append _ _).isInfix

theorem contains_branchRef {s pat : String} {a : Char} {word : List Char}
    (hpat : pat.toList = a :: word) (h : a ∉ "refs/heads/".toList) :
    contains (branchRef s) pat = contains s pat := by
  unfold contains branchRef
  rw [hpat, String.toList_append]
  exact decide_eq_decide.mpr (infix_append_iff h)

theorem endsWith_branchRef (s : String) : endsWith (branchRef s) "." = endsWith s "." := by
  have hfront : ¬ ['.'] <:+ "refs/heads/".toList := by decide
  have hlist : (branchRef s).toList = "refs/heads/".toList ++ s.toList := String.toList_append
  rw [Bool.eq_iff_iff, endsWith, endsWith, List.isSuffixOf_iff_suffix, List.isSuffixOf_iff_suffix,
    hlist]
  constructor
  · intro hdot
    cases hs : s.toList with
    | nil =>
        rw [hs, List.append_nil] at hdot
        exact absurd hdot hfront
    | cons c rest =>
        rw [hs] at hdot
        exact List.suffix_of_suffix_length_le hdot (List.suffix_append _ _) (by simp)
  · exact fun hdot => hdot.trans (List.suffix_append _ _)

theorem split_branchRef (s : String) : split (branchRef s) '/' = "refs" :: "heads" :: split s '/' := by
  have hlist : (branchRef s).toList =
      ['r', 'e', 'f', 's'] ++ '/' :: (['h', 'e', 'a', 'd', 's'] ++ '/' :: s.toList) :=
    String.toList_append
  unfold split
  rw [hlist, List.splitOn_append_cons_self_of_not_mem (by decide),
    List.splitOn_append_cons_self_of_not_mem (by decide)]
  rfl

/-- The grammar does not see the prefix. -/
theorem wellFormed_branchRef {s : String} : WellFormed (branchRef s) ↔ WellFormed s := by
  have hparts : (∀ part ∈ split (branchRef s) '/',
      part ≠ "" ∧ startsWith part "." = false ∧ endsWith part ".lock" = false) ↔
      ∀ part ∈ split s '/',
        part ≠ "" ∧ startsWith part "." = false ∧ endsWith part ".lock" = false := by
    rw [split_branchRef, List.forall_mem_cons, List.forall_mem_cons]
    have hrefs : "refs" ≠ "" ∧ startsWith "refs" "." = false ∧ endsWith "refs" ".lock" = false := by
      decide
    have hheads : "heads" ≠ "" ∧ startsWith "heads" "." = false ∧
        endsWith "heads" ".lock" = false := by
      decide
    exact (and_iff_right hrefs).trans (and_iff_right hheads)
  have hchars : (∀ c ∈ (branchRef s).toList, isGitForbiddenChar c = false) ↔
      ∀ c ∈ s.toList, isGitForbiddenChar c = false := by
    have hfront : ∀ c ∈ "refs/heads/".toList, isGitForbiddenChar c = false :=
      forall_mem_of_all (by decide)
    have hlist : (branchRef s).toList = "refs/heads/".toList ++ s.toList := String.toList_append
    rw [hlist, List.forall_mem_append]
    exact and_iff_right hfront
  have hdots : contains (branchRef s) ".." = contains s ".." :=
    contains_branchRef (by decide : "..".toList = ['.', '.']) (by decide)
  have hbrace : contains (branchRef s) "@\x7b" = contains s "@\x7b" :=
    contains_branchRef (by decide : "@\x7b".toList = ['@', '\x7b']) (by decide)
  constructor
  · rintro ⟨h1, h2, h3, h4, h5⟩
    exact ⟨hparts.mp h1, endsWith_branchRef s ▸ h2, hdots ▸ h3, hbrace ▸ h4, hchars.mp h5⟩
  · rintro ⟨h1, h2, h3, h4, h5⟩
    exact ⟨hparts.mpr h1, (endsWith_branchRef s).trans h2, hdots.trans h3, hbrace.trans h4,
      hchars.mpr h5⟩

theorem noDash_branchRef {s : String} : NoDash (branchRef s) ↔ NoDash s := by
  unfold NoDash
  rw [split_branchRef, List.forall_mem_cons, List.forall_mem_cons]
  exact (and_iff_right (by decide)).trans (and_iff_right (by decide))

/-- **The three checks of a branch.** -/
theorem branch_checks {s : String} (h : s ≠ "@") :
    (validBranchName s = true ↔ WellFormed s) ∧
      (validRefName (branchRef s) = true ↔ WellFormed s ∧ NoDash s) ∧
      (checkRefFormat (branchRef s) = true ↔ WellFormed s) := by
  have hlist : (branchRef s).toList = "refs/heads/".toList ++ s.toList := String.toList_append
  have hslash : '/' ∈ (branchRef s).toList := by
    rw [hlist]
    exact List.mem_append_left _ (by decide)
  have hhead : branchRef s ≠ "HEAD" := by
    intro heq
    rw [heq] at hslash
    revert hslash
    decide
  refine ⟨validBranchName_iff.trans (and_iff_right h), ?_, ?_⟩
  · rw [validRefName_iff hhead, wellFormed_branchRef, noDash_branchRef]
  · rw [checkRefFormat_iff hslash, wellFormed_branchRef]

/-! ### `create_commit` -/

/-- A commit object was written. -/
def Written (past : Past) : Prop :=
  ∃ commit oid, (⟨.gix (.writeObject commit), .ok oid⟩ : Event Op Op.Answer) ∈ past

/-- The compare-and-swap of a ref was asked for. -/
def Swapped (past : Past) (name : String) : Prop :=
  ∃ refName expected newSha outcome, refName.text = name ∧
    (⟨.casUpdate refName expected newSha, outcome⟩ : Event Op Op.Answer) ∈ past

/-- Every operation may be asked for. -/
def AnyOp (_ : Past) (_ : Op) : Prop := True

/-- `create_commit` comes to the compare-and-swap whenever it has written a commit for the
branch. -/
def NeverRejectsWritten (s : String) : Prop :=
  ∀ cfg admitted body, body.branch = s →
    (createCommit cfg admitted body).Keeps AnyAnswer AnyOp
      (fun past _ => Written past → Swapped past (branchRef s)) []

/-- Operations that write no commit. -/
def NotWriting (op : Op) : Prop := ∀ commit, op ≠ .gix (.writeObject commit)

section Unwritten

variable {α β : Type} {Post : Past → Result β → Prop} {past : Past} {f : α → Writer β}

/-- A part that writes no commit. -/
theorem keeps_unwritten (herr : ∀ past' e, ¬ Written past' → Post past' (.error e)) {p : Writer α}
    (hp : p.Asks NotWriting) (hpast : ¬ Written past)
    (h : ∀ past' a, ¬ Written past' → (f a).Keeps AnyAnswer AnyOp Post past') :
    (p.andThen f).Keeps AnyAnswer AnyOp Post past := by
  have hkept : ∀ (p : Writer α) past, p.Asks NotWriting → ¬ Written past →
      p.Keeps AnyAnswer AnyOp (fun past' _ => ¬ Written past') past := by
    intro p
    induction p with
    | ret a => exact fun past _ hpast => hpast
    | ask op next ih =>
        intro past hp hpast
        refine ⟨trivial, fun answer _ => ih answer _ (hp.2 answer) ?_⟩
        rintro ⟨commit, oid, hmem⟩
        rcases List.mem_cons.mp hmem with heq | hmem
        · exact hp.1 commit (congrArg Sigma.fst heq).symm
        · exact hpast ⟨commit, oid, hmem⟩
  rw [Program.keeps_andThen]
  refine (hkept p past hp hpast).mono fun past' result hpast' => ?_
  cases result with
  | error e => exact herr past' e hpast'
  | ok a => exact h past' a hpast'

end Unwritten

theorem baseTree_notWriting (parent : Option Oid) : (baseTree parent).Asks NotWriting := by
  cases parent with
  | none => trivial
  | some oid => exact (askGix_asks _ _ _ nofun).andThen fun _ => askGix_asks _ _ _ nofun

theorem editChanges_notWriting (editor : TreeEditor) (changes : List PreparedChange) :
    (editChanges editor changes).Asks NotWriting := by
  induction changes generalizing editor with
  | nil => trivial
  | cons change changes ih =>
      cases change with
      | write path bytes kind =>
          refine (askGix_asks _ _ _ nofun).andThen fun blobId => ?_
          exact (askGix_asks _ _ _ nofun).andThen fun _ => ih _
      | delete path => exact (askGix_asks _ _ _ nofun).andThen fun _ => ih _

theorem checkParent_notWriting (parent : Option Oid) : (checkParent parent).Asks NotWriting := by
  cases parent with
  | none => trivial
  | some oid =>
      refine ⟨nofun, fun present => ?_⟩
      cases present with
      | error e => trivial
      | ok there => cases there <;> trivial

/-- The builder fails before the commit is written. -/
theorem buildAndWriteCommit_unwritten (cfg : Config) (input : BuildCommitInput) {past : Past}
    {Post : Past → Result (Oid × Oid) → Prop}
    (herr : ∀ past' e, ¬ Written past' → Post past' (.error e))
    (hok : ∀ past' built, Post past' (.ok built)) (hpast : ¬ Written past) :
    (buildAndWriteCommit cfg input).Keeps AnyAnswer AnyOp Post past := by
  unfold buildAndWriteCommit
  refine keeps_unwritten herr (askGix_asks _ _ _ nofun) hpast fun past₁ _ h₁ => ?_
  refine keeps_unwritten herr (baseTree_notWriting _) h₁ fun past₂ base h₂ => ?_
  refine keeps_unwritten herr (askGix_asks _ _ _ nofun) h₂ fun past₃ _ h₃ => ?_
  refine keeps_unwritten herr (editChanges_notWriting _ _) h₃ fun past₄ editor h₄ => ?_
  refine keeps_unwritten herr (askGix_asks _ _ _ nofun) h₄ fun past₅ tree h₅ => ?_
  refine ⟨trivial, fun now _ => ⟨trivial, fun output _ => ?_⟩⟩
  cases output with
  | ok commit => exact hok _ _
  | error e =>
      refine herr _ _ ?_
      rintro ⟨commit, oid, hmem⟩
      rcases List.mem_cons.mp hmem with heq | hmem
      · cases heq
      · rcases List.mem_cons.mp hmem with heq | hmem
        · cases heq
        · exact h₅ ⟨commit, oid, hmem⟩

/-- A branch whose ref is valid is not rejected once the commit is written. -/
theorem neverRejectsWritten_of_valid {s : String}
    (h : validBranchName s = true → validRefName (branchRef s) = true) :
    NeverRejectsWritten s := by
  rintro cfg admitted body rfl
  have hpost : ∀ (past' : Past) (e : Error), ¬ Written past' →
      (Written past' → Swapped past' (branchRef body.branch)) :=
    fun _ _ hno hwritten => absurd hwritten hno
  have hempty : ¬ Written [] := by
    rintro ⟨commit, oid, hmem⟩
    cases hmem
  unfold createCommit
  refine keeps_unwritten hpost (by trivial) hempty fun past₁ _ h₁ => ?_
  split_ifs with hname
  · exact hpost _ (.badRequest "") h₁
  refine keeps_unwritten hpost (by trivial) h₁ fun past₂ _ h₂ => ?_
  refine keeps_unwritten hpost (checkParent_notWriting _) h₂ fun past₃ _ h₃ => ?_
  refine keeps_unwritten hpost (by trivial) h₃ fun past₄ changes h₄ => ?_
  rw [Program.keeps_andThen]
  refine buildAndWriteCommit_unwritten cfg _ (fun past' e hno => hpost past' e hno) ?_ h₄
  intro past' built
  have hvalid : validRefName (branchRef body.branch) = true := h (by simpa using hname)
  have hname : RefName.tryFrom cfg.printable (branchRef body.branch) =
      .ok ⟨branchRef body.branch, hvalid⟩ := RefName.tryFrom_eq_ok.mpr rfl
  rw [hname]
  refine ⟨trivial, fun outcome _ => ?_⟩
  have hswapped : Swapped (⟨.casUpdate ⟨branchRef body.branch, hvalid⟩ body.parent built.1,
      outcome⟩ :: past') (branchRef body.branch) :=
    ⟨_, _, _, _, rfl, List.mem_cons_self⟩
  cases outcome with
  | error e => exact fun _ => hswapped
  | ok outcome =>
      cases outcome with
      | updated => exact fun _ => hswapped
      | conflict current => exact fun _ => hswapped

/-! ### The equivalence -/

/-- The three checks agree on a branch; a commit is never written for a branch that is then
rejected; and a ref of the branch that git accepts is listed. -/
structure ChecksAgree (s : String) : Prop where
  branch : validBranchName s = true ↔ validRefName (branchRef s) = true
  git : validRefName (branchRef s) = true ↔ checkRefFormat (branchRef s) = true
  commits : NeverRejectsWritten s
  listed : ∀ (printable : Char → Bool) (st : RefState) (oid : Oid),
    checkRefFormat (branchRef s) = true → st.value (branchRef s) = some oid →
    ∃ e ∈ enumerateRefs printable st.files.gitDir, e.name.text = branchRef s ∧ e.oid = oid

/-- **One grammar.** The checks agree exactly when no component of a branch that git accepts begins
with a dash. This is for every text but `@`, which `valid_branch_name` alone refuses. -/
theorem checksAgree_iff {s : String} (h : s ≠ "@") :
    ChecksAgree s ↔ (checkRefFormat (branchRef s) = true → NoDash s) := by
  obtain ⟨hbranch, href, hgit⟩ := branch_checks h
  constructor
  · intro hagree hformat
    exact (href.mp (hagree.git.mpr hformat)).2
  · intro hdash
    have hsame : validRefName (branchRef s) = true ↔ WellFormed s := by
      rw [href]
      exact and_iff_left_of_imp fun hwell => hdash (hgit.mpr hwell)
    refine ⟨hbranch.trans hsame.symm, hsame.trans hgit.symm, ?_, ?_⟩
    · exact neverRejectsWritten_of_valid fun hvalid => hsame.mpr (hbranch.mp hvalid)
    · intro printable st oid hformat hvalue
      have hvalid : validRefName (branchRef s) = true := hsame.mpr (hgit.mp hformat)
      obtain ⟨e, he, hname, hoid⟩ := (st.listed_iff printable ⟨branchRef s, hvalid⟩ oid).mpr hvalue
      exact ⟨e, he, congrArg RefName.text hname, hoid⟩

/-- A dash inside of a component is no matter. -/
theorem checksAgree_topic : ChecksAgree "feature/topic-1" := by
  have hdash : NoDash "feature/topic-1" := by
    unfold NoDash
    decide
  exact (checksAgree_iff (by decide)).mpr fun _ => hdash

/-- A branch that is accepted, written and rejected. -/
theorem dash_rejected : ¬ ChecksAgree "-topic" := by
  intro hagree
  have hvalid := hagree.branch.mp (by decide +kernel)
  revert hvalid
  decide +kernel

end Writers
end Artifacts
