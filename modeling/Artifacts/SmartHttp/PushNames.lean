import Artifacts.SmartHttp.PushReport

/-!
# The names a push can reach

`git receive-pack`, the fallback for the same requests, accepts only names under
`refs/` that pass `git check-ref-format`.  `apply_ref_update` relies on
`valid_ref_name` instead, which covers the format but not the prefix: `HEAD`,
one-level names and paths such as `objects/info/alternates` pass.

`PushNamesChecked` is about the names alone, whatever the values are.  A closed gate keeps all
names away from the store, so it makes every body harmless.
-/

namespace Artifacts
namespace SmartHttp

open GitWire Pkt Refs Rust

/-! ### The rules of git -/

/-- Characters that `git check-ref-format` refuses anywhere in a name. -/
def isGitForbiddenChar (c : Char) : Bool :=
  c.toNat < 32 || c.toNat == 127 || [' ', '~', '^', ':', '?', '*', '[', '\\'].contains c

/-- `git check-ref-format`, rule by rule. -/
def checkRefFormat (s : String) : Bool :=
  (split s '/').all (fun part => !startsWith part "." && !endsWith part ".lock") &&
    contains s "/" &&
    !contains s ".." &&
    !s.toList.any isGitForbiddenChar &&
    !startsWith s "/" && !endsWith s "/" && !contains s "//" &&
    !endsWith s "." &&
    !contains s "@\x7b" &&
    s != "@"

/-- A name `git receive-pack` may update: `refs/`, a further component, and a
well-formed name as a whole. -/
def isPushName (s : String) : Bool :=
  startsWith s "refs/" && s != "refs/" && checkRefFormat s

/-- What `validRefName` says of a name other than `HEAD`. -/
theorem validRefName_spec {s : String} (h : validRefName s = true) (hhead : s ≠ "HEAD") :
    startsWith s "/" = false ∧ endsWith s "/" = false ∧ endsWith s "." = false ∧
      contains s "//" = false ∧ contains s ".." = false ∧ contains s "@\x7b" = false ∧
      contains s "\\" = false ∧ (∀ c ∈ s.toList, isForbiddenRefChar c = false) ∧
      ∀ part ∈ split s '/', validRefPart part = true := by
  unfold validRefName at h
  rw [if_neg hhead] at h
  split_ifs at h with hshape hchars
  simp only [Bool.or_eq_true, not_or, Bool.not_eq_true] at hshape
  obtain ⟨⟨⟨⟨⟨⟨⟨-, h1⟩, h2⟩, h3⟩, h4⟩, h5⟩, h6⟩, h7⟩ := hshape
  refine ⟨h1, h2, h3, h4, h5, h6, h7, ?_, List.all_eq_true.mp h⟩
  simpa using hchars

/-- A string contains each of its characters, as a one-character pattern. -/
theorem contains_of_mem {s pat : String} {c : Char} (hpat : pat.toList = [c])
    (h : c ∈ s.toList) : contains s pat = true := by
  obtain ⟨before, after, heq⟩ := List.append_of_mem h
  rw [contains, decide_eq_true_iff, hpat, heq]
  exact ⟨before, after, by simp⟩

/-- Apart from the backslash, the forbidden characters are those of git. -/
theorem not_isGitForbiddenChar {c : Char} (h : isForbiddenRefChar c = false) (hback : c ≠ '\\') :
    isGitForbiddenChar c = false := by
  simp only [isForbiddenRefChar, Bool.or_eq_false_iff, List.contains_cons, List.contains_nil,
    Bool.or_false, beq_eq_false_iff_ne] at h
  simp only [isGitForbiddenChar, Bool.or_eq_false_iff, List.contains_cons, List.contains_nil,
    Bool.or_false, beq_eq_false_iff_ne]
  exact ⟨h.1, h.2.1, h.2.2.1, h.2.2.2.1, h.2.2.2.2.1, h.2.2.2.2.2.1, h.2.2.2.2.2.2.1,
    h.2.2.2.2.2.2.2, hback⟩

/-- **The prefix is all that is missing.** A name `valid_ref_name` accepts is a
push name exactly when it starts with `refs/`. -/
theorem isPushName_iff_startsWith {s : String} (h : validRefName s = true) :
    isPushName s = true ↔ startsWith s "refs/" = true := by
  constructor
  · intro hpush
    unfold isPushName at hpush
    simp only [Bool.and_eq_true] at hpush
    exact hpush.1.1
  · intro hunder
    have hhead : s ≠ "HEAD" := by
      rintro rfl
      revert hunder
      decide
    obtain ⟨hstart, hend, hdot, hslashes, hdots, hat, hback, hchars, hparts⟩ :=
      validRefName_spec h hhead
    have hrefs : s ≠ "refs/" := by
      rintro rfl
      revert hend
      decide
    have hone : s ≠ "@" := by
      rintro rfl
      revert hunder
      decide
    have hslash : contains s "/" = true := by
      have hpre : "refs/".toList <+: s.toList := List.isPrefixOf_iff_prefix.mp hunder
      exact contains_of_mem (by decide : "/".toList = ['/']) (hpre.subset (by decide))
    have hforbidden : s.toList.any isGitForbiddenChar = false := by
      rw [List.any_eq_false]
      intro c hc
      have hnot : c ≠ '\\' := by
        rintro rfl
        rw [contains_of_mem (by decide : "\\".toList = ['\\']) hc] at hback
        cases hback
      rw [not_isGitForbiddenChar (hchars c hc) hnot]
      exact Bool.false_ne_true
    have hall : (split s '/').all (fun part => !startsWith part "." && !endsWith part ".lock") =
        true := by
      refine List.all_eq_true.mpr fun part hpart => ?_
      have hvalid := hparts part hpart
      simp only [validRefPart, Bool.not_or, Bool.and_eq_true] at hvalid
      rw [hvalid.1.1.2, hvalid.2]
      rfl
    rw [isPushName, checkRefFormat, hunder, hall, hslash, hdots, hforbidden, hstart, hend,
      hslashes, hdot, hat, bne_iff_ne.mpr hrefs, bne_iff_ne.mpr hone]
    rfl

/-! ### The calls of the handler -/

section Calls

variable {σ : Type} {printable : Char → Bool} {store : RefStore σ} {repoId : RepoId}

/-- A valid update is one call, for its own name. -/
theorem traced_of_valid (s : σ) (log : List RefName) {u : RefUpdate} {name : RefName}
    {old new : Oid} (hname : u.name = name.text) (hold : u.old = old.text)
    (hnew : u.new = new.text) :
    (applyRefUpdate printable store.traced repoId.text (s, log) u).2.2 = log ++ [name] := by
  rw [applyRefUpdate_of_valid repoId (s, log) hname hold hnew]
  have hlog : (if u.isDelete then store.traced.casDelete (s, log) repoId name (some old)
      else store.traced.casUpdate (s, log) repoId name (if u.isCreate then none else some old)
        new).2.2 = log ++ [name] := by
    split_ifs <;> rfl
  simp only []
  split <;> exact hlog

/-- The calls of the update loop are the names of the valid updates. -/
theorem mem_traced_applyLines (s : σ) (log : List RefName) (updates : List RefUpdate)
    (name : RefName) :
    name ∈ (applyLines printable store.traced repoId.text (s, log) updates).2.2 ↔
      name ∈ log ∨ ∃ u ∈ updates, Valid u ∧ u.name = name.text := by
  induction updates generalizing s log with
  | nil => simp [applyLines]
  | cons u updates ih =>
      obtain ⟨s', log', hstep⟩ : ∃ s' log',
          (applyRefUpdate printable store.traced repoId.text (s, log) u).2 = (s', log') :=
        ⟨_, _, rfl⟩
      have hloop : (applyLines printable store.traced repoId.text (s, log) (u :: updates)).2 =
          (applyLines printable store.traced repoId.text (s', log') updates).2 := by
        rw [← hstep]
        rfl
      rw [hloop, ih]
      by_cases hvalid : Valid u
      · obtain ⟨refName, old, new, hname, hold, hnew⟩ := hvalid.typed
        have hlog : (applyRefUpdate printable store.traced repoId.text (s, log) u).2.2 =
            log ++ [refName] := traced_of_valid s log hname hold hnew
        rw [hstep] at hlog
        change log' = log ++ [refName] at hlog
        have hsame : u.name = name.text ↔ name = refName := by
          rw [hname, RefName.ext_iff, eq_comm]
        simp only [hlog, List.mem_append, List.mem_cons, List.not_mem_nil, or_false,
          exists_eq_or_imp, hvalid, true_and, hsame, or_assoc]
      · obtain ⟨reason, hrefused⟩ : ∃ reason,
            applyRefUpdate printable store.traced repoId.text (s, log) u =
              (.error reason, (s, log)) := applyRefUpdate_of_invalid repoId (s, log) hvalid
        rw [hrefused] at hstep
        obtain ⟨rfl, rfl⟩ := Prod.mk.inj hstep
        simp [hvalid]

/-- **The calls of the handler**: none behind a closed gate, else the names of
the valid updates. -/
theorem mem_traced_response (env : PackEnv) (req : ReceivePackRequest) (s : σ)
    (name : RefName) :
    name ∈ (nativeReceivePackResponse printable env store.traced repoId.text req (s, [])).2.2 ↔
      GateOpen env repoId req ∧ ∃ u ∈ req.updates, Valid u ∧ u.name = name.text := by
  obtain ⟨unpack, hunpack⟩ := unpackOutcome_ok env repoId req
  have hrefs : (nativeReceivePackResponse printable env store.traced repoId.text req (s, [])).2 =
      (updateLines printable store.traced repoId.text env unpack req (s, [])).2 := by
    rw [nativeReceivePackResponse, hunpack]
  rw [hrefs]
  by_cases hgate : GateOpen env repoId req
  · rw [updateLines_of_gateOpen (s, []) hunpack hgate, mem_traced_applyLines]
    simp [hgate]
  · obtain ⟨reason, -, hclosed⟩ :=
      @updateLines_of_gateClosed _ printable store.traced repoId env req (s, []) unpack hunpack hgate
    rw [hclosed]
    simp [hgate]

end Calls

/-- Update `i` is answered `ng` and changes nothing. -/
def Refused {σ : Type} (printable : Char → Bool) (env : PackEnv) (store : RefStore σ)
    (repoId : RepoId) (req : ReceivePackRequest) (s : σ) (i : Nat) (u : RefUpdate) : Prop :=
  (∀ unpack, unpackOutcome env repoId.text req = .ok unpack → ∃ reason,
      (updateLines printable store repoId.text env unpack req s).1[i]? =
        some ("ng " ++ u.name ++ " " ++ reason ++ "\n")) ∧
    (GateOpen env repoId req → refsBefore printable store repoId s req.updates (i + 1) =
      refsBefore printable store repoId s req.updates i) ∧
    (¬ GateOpen env repoId req →
      (nativeReceivePackResponse printable env store repoId.text req s).2 = s)

/-- What `git receive-pack` guarantees of a push: the refs are only ever touched under push names,
and an update of any other name is refused. It is said of the calls that reach the store, so it does
not depend on what the store makes of them. -/
def PushNamesChecked {σ : Type} (printable : Char → Bool) (env : PackEnv) (store : RefStore σ)
    (repoId : RepoId) (body : List UInt8) (s : σ) : Prop :=
  ∀ req, nativeRequest body = some req →
    (∀ name ∈ (nativeReceivePackResponse printable env store.traced repoId.text req (s, [])).2.2,
      isPushName name.text = true) ∧
    ∀ i (hi : i < req.updates.length), ¬ isPushName req.updates[i].name = true →
      Refused printable env store repoId req s i req.updates[i]

section Names

variable {σ : Type} {printable : Char → Bool} {store : RefStore σ} {repoId : RepoId}

/-- An update that fails a validator is refused. -/
theorem refused_of_invalid (env : PackEnv) (req : ReceivePackRequest) (s : σ) (i : Nat)
    (hi : i < req.updates.length) (hinvalid : GateOpen env repoId req → ¬ Valid req.updates[i]) :
    Refused printable env store repoId req s i req.updates[i] := by
  obtain ⟨unpack, hunpack⟩ := unpackOutcome_ok env repoId req
  by_cases hgate : GateOpen env repoId req
  · obtain ⟨reason, hrefused⟩ : ∃ reason, applyRefUpdate printable store repoId.text
        (refsBefore printable store repoId s req.updates i) req.updates[i] =
          (.error reason, refsBefore printable store repoId s req.updates i) :=
      applyRefUpdate_of_invalid repoId _ (hinvalid hgate)
    refine ⟨fun unpack hunpack => ⟨reason, ?_⟩, fun _ => ?_, fun hclosed => absurd hgate hclosed⟩
    · rw [updateLines_of_gateOpen s hunpack hgate,
        applyLines_getElem? printable store repoId s req.updates i hi, hrefused]
      rfl
    · have htake : req.updates.take (i + 1) = req.updates.take i ++ [req.updates[i]] :=
        (List.take_append_getElem hi).symm
      have hafter : refsBefore printable store repoId s req.updates (i + 1) =
          (applyRefUpdate printable store repoId.text
            (refsBefore printable store repoId s req.updates i) req.updates[i]).2 := by
        rw [refsBefore, htake, List.foldl_append]
        rfl
      rw [hafter, hrefused]
  · obtain ⟨reason, -, hclosed⟩ :=
      @updateLines_of_gateClosed _ printable store repoId env req s unpack hunpack hgate
    refine ⟨fun unpack' hunpack' => ⟨reason, ?_⟩, fun hopen => absurd hopen hgate, fun _ => ?_⟩
    · obtain rfl : unpack = unpack' := Except.ok.inj (hunpack.symm.trans hunpack')
      rw [hclosed]
      simp [updateLine, hi]
    · rw [nativeReceivePackResponse, hunpack]
      simp only [hclosed]

end Names

/-- **Which pushes stay under `refs/`.** The native path guarantees what `git receive-pack` does
exactly when no update that passes the validators names something outside `refs/`, or the gate is
closed. This is for every body, every store and every state of it: the store may do anything, since
the question is only which names it is asked to change. Of git only its grammar of names is used. -/
theorem native_push_names_iff {σ : Type} (printable : Char → Bool) (env : PackEnv)
    (store : RefStore σ) (repoId : RepoId) (body : List UInt8) (s : σ) :
    PushNamesChecked printable env store repoId body s ↔
      ∀ req, nativeRequest body = some req → GateOpen env repoId req →
        ∀ u ∈ req.updates, Valid u → startsWith u.name "refs/" = true := by
  constructor
  · intro hchecked req hreq hgate u hu hvalid
    have hcall : (⟨u.name, hvalid.1⟩ : RefName) ∈
        (nativeReceivePackResponse printable env store.traced repoId.text req (s, [])).2.2 :=
      (mem_traced_response env req s _).mpr ⟨hgate, u, hu, hvalid, rfl⟩
    exact (isPushName_iff_startsWith hvalid.1).mp ((hchecked req hreq).1 _ hcall)
  · intro hunder req hreq
    constructor
    · intro name hname
      obtain ⟨hgate, u, hu, hvalid, heq⟩ := (mem_traced_response env req s name).mp hname
      rw [← heq]
      exact (isPushName_iff_startsWith hvalid.1).mpr (hunder req hreq hgate u hu hvalid)
    · intro i hi hbad
      refine refused_of_invalid env req s i hi fun hgate hvalid => hbad ?_
      exact (isPushName_iff_startsWith hvalid.1).mpr
        (hunder req hreq hgate _ (List.getElem_mem hi) hvalid)

/-- A push that creates `objects/info/alternates`. -/
def alternatesBody : List UInt8 :=
  writeFlush (writeData [] (asBytes (RefUpdate.zero ++ " " ++ demoOid ++
    " objects/info/alternates\x00report-status\n")))

/-- The native path serves it, and calls the ref store for the name. -/
theorem native_push_reaches_alternates :
    ¬ PushNamesChecked printableAscii connectedEnv memRefStore demoRepo alternatesBody
      (fun _ => none) := by
  intro hchecked
  have hreq : nativeRequest alternatesBody = some
      { updates := [⟨RefUpdate.zero, demoOid, "objects/info/alternates"⟩]
        hasReportStatus := true, hasSideband64k := false, hasUnsupported := false
        pack := [] } := by
    decide +kernel
  have hname := (hchecked _ hreq).1 ⟨"objects/info/alternates", by decide⟩ (by decide)
  revert hname
  decide

end SmartHttp
end Artifacts
