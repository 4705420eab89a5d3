import Artifacts.PktLine.Framing
import Artifacts.Refs.Listing
import Artifacts.SmartHttp.ReceivePack

/-!
# The native ls-refs handler

`parseLsRefsOnly` reads a v2 ls-refs request, `nativeLsRefsResponse` answers it from a
`RefLister`: a row for `HEAD`, a row for each ref that was asked for, and a flush.

`Lists` says which rows protocol v2 wants in the answer.  HEAD and the refs are two
independent selections by the same prefixes, and no prefix at all asks for everything.

`Served` lists where the handler keeps to that.  The proof goes by the two halves of the answer,
the row of `HEAD` (`readTop`) and the rows of the refs (`readRest`), each against its own half
of `Lists`.
-/

namespace Artifacts
namespace GitWire

open Pkt Refs Rust SmartHttp

structure LsRefsArgs where
  peel : Bool
  symrefs : Bool
  prefixes : List String
  deriving DecidableEq, Repr

/-! ### The request -/

/-- `is_known_capability`. -/
def isKnownCapability (line : String) : Bool :=
  startsWith line "agent=" || startsWith line "object-format=" || startsWith line "session-id="

/-- The text of a pkt-line, without the newlines behind it. -/
def lineText (d : List UInt8) : Option String := (fromUtf8 d).map fun s => trimEndMatches s '\n'

/-- What an argument line asks for; none if it is unknown. -/
def noteArgument (args : LsRefsArgs) (s : String) : Option LsRefsArgs :=
  if s = "peel" then some { args with peel := true }
  else if s = "symrefs" then some { args with symrefs := true }
  else if startsWith s "ref-prefix " then
    some { args with prefixes := args.prefixes ++ [String.ofList (s.toList.drop 11)] }
  else if s = "unborn" then some args
  else none

/-- The argument lines, up to the flush. -/
def readArguments (args : LsRefsArgs) : List (Except PktError PktLine) → Option LsRefsArgs
  | .ok .flush :: _ => some args
  | .ok (.data d) :: rest =>
      match (lineText d).bind (noteArgument args) with
      | none => none
      | some args' => readArguments args' rest
  | _ => none

/-- The capability lines, up to the delimiter. -/
def readCapabilities : List (Except PktError PktLine) → Option LsRefsArgs
  | .ok .delim :: rest => readArguments ⟨false, false, []⟩ rest
  -- no args section at all
  | .ok .flush :: _ => some ⟨false, false, []⟩
  | .ok (.data d) :: rest =>
      match lineText d with
      | none => none
      | some s => if isKnownCapability s then readCapabilities rest else none
  | _ => none

/-- `parse_ls_refs_only`. It gives nothing for a body it cannot read, and such a request goes to
git. -/
def parseLsRefsOnly (body : List UInt8) : Option LsRefsArgs :=
  match pktIter body with
  | .ok (.data d) :: rest =>
      match lineText d with
      | none => none
      | some s => if s = "command=ls-refs" then readCapabilities rest else none
  | _ => none

/-- The argument lines a client writes. -/
def argumentLines (args : LsRefsArgs) : List String :=
  (if args.peel then ["peel"] else []) ++ (if args.symrefs then ["symrefs"] else []) ++
    args.prefixes.map fun p => "ref-prefix " ++ p

/-- The request a client writes. -/
def lsRefsRequest (args : LsRefsArgs) : List PktLine :=
  [.data (asBytes "command=ls-refs\n"), .delim] ++
    (argumentLines args).map (fun s => .data (asBytes (s ++ "\n"))) ++ [.flush]

theorem lineText_newline {s : String} (hs : s.toList.getLast? ≠ some '\n') :
    lineText (asBytes (s ++ "\n")) = some s := by
  have hlist : (s ++ "\n").toList.reverse = '\n' :: s.toList.reverse := by simp
  have hstop : s.toList.reverse.dropWhile (· == '\n') = s.toList.reverse := by
    cases hrev : s.toList.reverse with
    | nil => rfl
    | cons c rest =>
        have hc : c ≠ '\n' := by
          rintro rfl
          apply hs
          rw [List.getLast?_eq_head?_reverse, hrev]
          rfl
        simp [hc]
  unfold lineText trimEndMatches
  rw [fromUtf8_asBytes, Option.map_some, hlist, List.dropWhile_cons_of_pos (by rfl), hstop,
    List.reverse_reverse, String.ofList_toList]

theorem noteArgument_prefix (args : LsRefsArgs) (p : String) :
    noteArgument args ("ref-prefix " ++ p) =
      some { args with prefixes := args.prefixes ++ [p] } := by
  have hne : ∀ s : String, s.toList.head? ≠ some 'r' → "ref-prefix " ++ p ≠ s := by
    rintro s hs rfl
    apply hs
    rw [String.toList_append]
    rfl
  have hstarts : startsWith ("ref-prefix " ++ p) "ref-prefix " = true := by
    unfold startsWith
    rw [String.toList_append, List.isPrefixOf_iff_prefix]
    exact List.prefix_append _ _
  have hdrop : String.ofList (("ref-prefix " ++ p).toList.drop 11) = p := by
    rw [String.toList_append, List.drop_left' (by decide), String.ofList_toList]
  unfold noteArgument
  rw [if_neg (hne "peel" (by decide)), if_neg (hne "symrefs" (by decide)), if_pos hstarts, hdrop]

theorem readArguments_prefixes (args : LsRefsArgs) {ps : List String}
    (hps : ∀ p ∈ ps, ("ref-prefix " ++ p).toList.getLast? ≠ some '\n') :
    readArguments args ((ps.map fun p =>
        Except.ok (PktLine.data (asBytes ("ref-prefix " ++ p ++ "\n")))) ++ [.ok .flush]) =
      some { args with prefixes := args.prefixes ++ ps } := by
  induction ps generalizing args with
  | nil =>
      rw [List.append_nil]
      rfl
  | cons p ps ih =>
      rw [List.map_cons, List.cons_append, readArguments,
        lineText_newline (hps p List.mem_cons_self), Option.bind_some, noteArgument_prefix]
      dsimp only
      rw [ih _ fun q hq => hps q (List.mem_cons_of_mem p hq)]
      simp

/-- Every argument list whose prefixes fit a line can be asked for. -/
theorem parseLsRefsOnly_request {args : LsRefsArgs}
    (hps : ∀ p ∈ args.prefixes, ("ref-prefix " ++ p).toList.getLast? ≠ some '\n')
    (hcap : ∀ p ∈ args.prefixes,
      (asBytes ("ref-prefix " ++ p ++ "\n")).length ≤ pktLineMaxPayload) :
    parseLsRefsOnly ((lsRefsRequest args).flatMap encode) = some args := by
  have hwithin : ∀ frame ∈ lsRefsRequest args, WithinCap frame := by
    intro frame hframe
    simp only [lsRefsRequest, argumentLines, List.mem_append, List.mem_cons, List.mem_map,
      List.not_mem_nil, or_false] at hframe
    rcases hframe with ((rfl | rfl) | ⟨s, hs, rfl⟩) | rfl
    · show (asBytes _).length ≤ _
      decide
    · trivial
    · show (asBytes (s ++ "\n")).length ≤ pktLineMaxPayload
      rcases hs with (hpeel | hsymrefs) | ⟨p, hp, rfl⟩
      · split_ifs at hpeel
        · obtain rfl := List.mem_singleton.mp hpeel
          decide
        · cases hpeel
      · split_ifs at hsymrefs
        · obtain rfl := List.mem_singleton.mp hsymrefs
          decide
        · cases hsymrefs
      · exact hcap p hp
    · trivial
  obtain ⟨peel, symrefs, prefixes⟩ := args
  have hrest : ∀ args' : LsRefsArgs, readArguments args'
      ((prefixes.map fun p => Except.ok (PktLine.data (asBytes ("ref-prefix " ++ p ++ "\n")))) ++
        [.ok .flush]) = some { args' with prefixes := args'.prefixes ++ prefixes } :=
    fun args' => readArguments_prefixes args' hps
  have hpeel : lineText (asBytes "peel\n") = some "peel" := by decide
  have hsymrefs : lineText (asBytes "symrefs\n") = some "symrefs" := by decide
  have hcommand : lineText (asBytes "command=ls-refs\n") = some "command=ls-refs" := by decide
  unfold parseLsRefsOnly
  rw [pktIter_encode hwithin]
  -- the command and the delimiter, then the arguments in their order
  show (match lineText (asBytes "command=ls-refs\n") with
    | none => none
    | some s => if s = "command=ls-refs" then readCapabilities _ else none) = _
  rw [hcommand]
  cases peel <;> cases symrefs <;>
    simp [argumentLines, readCapabilities, readArguments, hpeel, hsymrefs, noteArgument,
      Function.comp_def, hrest, -asBytes_append]

/-! ### The answer -/

@[ext] structure LsRefsRow where
  oid : String
  name : String
  extra : Option String
  deriving DecidableEq, Repr

/-- The rows pushed for `HEAD`. -/
def headRows (symrefs : Bool) : HeadState → List LsRefsRow
  | .symbolic target oid =>
      [⟨oid.text, "HEAD", if symrefs then some (" symref-target:" ++ target.text) else none⟩]
  | .detached oid => [⟨oid.text, "HEAD", none⟩]
  | .unborn target =>
      if symrefs then [⟨"unborn", "HEAD", some (" symref-target:" ++ target.text)⟩] else []

/-- The row of a ref. -/
def refRow (peel : Bool) (e : RefEntry) : LsRefsRow where
  oid := e.oid.text
  name := e.name.text
  extra := if peel then e.peeled.map fun p => " peeled:" ++ p.text else none

/-- The first half of the answer. -/
def readTop (refs : RefLister) (repoId : RepoId) (args : LsRefsArgs) : Result (List LsRefsRow) :=
  if args.prefixes.any (· == "HEAD") then (refs.readHead repoId).map (headRows args.symrefs)
  else .ok []

/-- The second half. -/
def readRest (refs : RefLister) (repoId : RepoId) (args : LsRefsArgs) : Result (List LsRefsRow) :=
  let otherPrefixes := args.prefixes.filter (· != "HEAD")
  if otherPrefixes.isEmpty then .ok []
  else (refs.list repoId otherPrefixes).map fun entries =>
    (sortByName entries).map (refRow args.peel)

/-- The rows of the answer. -/
def lsRefsRows (repoId : String) (refs : RefLister) (args : LsRefsArgs) :
    Result (List LsRefsRow) :=
  if args.prefixes.isEmpty then .ok []
  else do
    let repoIdTyped ← RepoId.tryFrom repoId
    let top ← readTop refs repoIdTyped args
    let rest ← readRest refs repoIdTyped args
    .ok (top ++ rest)

def LsRefsRow.line (row : LsRefsRow) : String :=
  match row.extra with
  | some extra => row.oid ++ " " ++ row.name ++ extra ++ "\n"
  | none => row.oid ++ " " ++ row.name ++ "\n"

def lsRefsResponse (rows : List LsRefsRow) : Response where
  status := 200
  contentType := "application/x-git-upload-pack-result"
  cacheControl := "no-cache"
  body := writeFlush ((rows.map fun row => asBytes row.line).foldl writeData [])

/-- `native_ls_refs_response`: the rows, and the frames they are sent in. The only errors are those
of the lister and of the repository's id. -/
def nativeLsRefsResponse (repoId : String) (refs : RefLister) (args : LsRefsArgs) :
    Result Response :=
  (lsRefsRows repoId refs args).map lsRefsResponse

/-! ### What protocol v2 wants -/

/-- Some prefix is a prefix of the name, or there is none. -/
def Wanted (prefixes : List String) (name : String) : Prop :=
  prefixes = [] ∨ ∃ p ∈ prefixes, p.toList <+: name.toList

instance (prefixes : List String) (name : String) : Decidable (Wanted prefixes name) :=
  inferInstanceAs (Decidable (_ ∨ _))

/-- An unborn `HEAD` is shown by its symref target only. -/
def Hidden (symrefs : Bool) : HeadState → Prop
  | .unborn _ => symrefs = false
  | _ => False

instance (symrefs : Bool) (head : HeadState) : Decidable (Hidden symrefs head) := by
  cases head <;> (unfold Hidden; infer_instance)

/-- What stands in the first column for `HEAD`. -/
def headColumn : HeadState → String
  | .symbolic _ oid => oid.text
  | .detached oid => oid.text
  | .unborn _ => "unborn"

/-- The attribute of `HEAD`: its target, if there is one and symrefs are asked for. -/
def headAttribute : HeadState → Bool → Option String
  | .symbolic target _, true => some (" symref-target:" ++ target.text)
  | .unborn target, true => some (" symref-target:" ++ target.text)
  | _, _ => none

/-- The row shows this state of `HEAD`: under its own name, with its object or as unborn, and with
the branch it points at if symrefs are asked for. -/
structure ShowsHead (symrefs : Bool) (head : HeadState) (row : LsRefsRow) : Prop where
  name : row.name = "HEAD"
  oid : row.oid = headColumn head
  extra : row.extra = headAttribute head symrefs

/-- The attribute of a ref: what it peels to, if it is a tag and peeling is asked for. -/
def refAttribute : Option Oid → Bool → Option String
  | some p, true => some (" peeled:" ++ p.text)
  | _, _ => none

/-- The row shows this ref: its name, its object, and what a tag peels to if that is asked for and
known. -/
structure ShowsRef (peel : Bool) (e : RefEntry) (row : LsRefsRow) : Prop where
  name : row.name = e.name.text
  oid : row.oid = e.oid.text
  extra : row.extra = refAttribute e.peeled peel

/-- One row for `HEAD` if it is asked for and can be shown, then one row for each ref
that is asked for, in the order of the names. -/
structure Lists (head : HeadState) (entries : List RefEntry) (args : LsRefsArgs)
    (top rest : List LsRefsRow) : Prop where
  head : if Wanted args.prefixes "HEAD" ∧ ¬ Hidden args.symrefs head then
      ∃ row, top = [row] ∧ ShowsHead args.symrefs head row
    else top = []
  sorted : rest.Pairwise fun a b => a.name < b.name
  refs : ∀ row, row ∈ rest ↔
    ∃ e ∈ entries, Wanted args.prefixes e.name.text ∧ ShowsRef args.peel e row

/-- A client reads these rows off the body, and the flush behind them. -/
def Emits (body : List UInt8) (rows : List LsRefsRow) : Prop :=
  pktIter body = rows.map (fun row => .ok (.data (asBytes row.line))) ++ [.ok .flush]

/-- The answer is a response with the rows of the listing: those of `HEAD` and those of the refs,
framed and ended as the protocol has it. -/
def Answers (head : HeadState) (entries : List RefEntry) (args : LsRefsArgs)
    (answer : Result Response) : Prop :=
  ∃ response top rest, answer = .ok response ∧ Lists head entries args top rest ∧
    Emits response.body (top ++ rest)

/-- What the handler can serve. The first three parts are where its filter departs from the meaning
of the prefixes; the last is the bound of a pkt-line. All are about the arguments and the refs. -/
structure Served (head : HeadState) (entries : List RefEntry) (args : LsRefsArgs) : Prop where
  /-- Something is asked for, or there is nothing to show. -/
  asked : args.prefixes = [] → Hidden args.symrefs head ∧ entries = []
  /-- `HEAD` is asked for by its whole name. -/
  headNamed : (∃ p ∈ args.prefixes, p.toList <+: "HEAD".toList) →
    "HEAD" ∈ args.prefixes ∨ Hidden args.symrefs head
  /-- No ref is asked for by the prefix `HEAD` alone. -/
  headOnly : ∀ e ∈ entries, "HEAD" ∈ args.prefixes → "HEAD".toList <+: e.name.text.toList →
    ∃ p ∈ args.prefixes, p ≠ "HEAD" ∧ p.toList <+: e.name.text.toList
  /-- A row is no longer than a pkt-line. -/
  fits : ∀ row, (Wanted args.prefixes "HEAD" ∧ ¬ Hidden args.symrefs head ∧
      ShowsHead args.symrefs head row) ∨
      (∃ e ∈ entries, Wanted args.prefixes e.name.text ∧ ShowsRef args.peel e row) →
    (asBytes row.line).length ≤ pktLineMaxPayload

/-! ### The rows that are wanted -/

/-- The row of `HEAD` in the listing, if there is one. -/
def wantedTop (head : HeadState) (args : LsRefsArgs) : List LsRefsRow :=
  if Wanted args.prefixes "HEAD" then headRows args.symrefs head else []

/-- The rows of the refs in the listing. -/
def wantedRest (entries : List RefEntry) (args : LsRefsArgs) : List LsRefsRow :=
  ((sortByName entries).filter fun e => decide (Wanted args.prefixes e.name.text)).map
    (refRow args.peel)

theorem headRows_hidden {symrefs : Bool} {head : HeadState} (h : Hidden symrefs head) :
    headRows symrefs head = [] := by
  cases head with
  | symbolic target oid => cases h
  | detached oid => cases h
  | unborn target =>
      obtain rfl : symrefs = false := h
      rfl

theorem headRows_shown {symrefs : Bool} {head : HeadState} (h : ¬ Hidden symrefs head) :
    ∃ row, headRows symrefs head = [row] := by
  cases head with
  | symbolic target oid => exact ⟨_, rfl⟩
  | detached oid => exact ⟨_, rfl⟩
  | unborn target =>
      cases symrefs with
      | false => exact absurd rfl h
      | true => exact ⟨_, rfl⟩

theorem showsHead_iff {symrefs : Bool} {head : HeadState} {row : LsRefsRow}
    (hshown : ¬ Hidden symrefs head) :
    ShowsHead symrefs head row ↔ headRows symrefs head = [row] := by
  have hone : ∀ shown : LsRefsRow, headRows symrefs head = [shown] →
      ShowsHead symrefs head shown := by
    intro shown h
    cases head with
    | symbolic target oid =>
        cases h
        cases symrefs <;> exact ⟨rfl, rfl, rfl⟩
    | detached oid =>
        cases h
        exact ⟨rfl, rfl, rfl⟩
    | unborn target =>
        cases symrefs with
        | false => exact absurd rfl hshown
        | true =>
            cases h
            exact ⟨rfl, rfl, rfl⟩
  constructor
  · intro h
    obtain ⟨shown, hshows⟩ := headRows_shown hshown
    have hsame : row = shown := by
      obtain ⟨hname, hoid, hextra⟩ := hone shown hshows
      exact LsRefsRow.ext (h.oid.trans hoid.symm) (h.name.trans hname.symm)
        (h.extra.trans hextra.symm)
    rw [hshows, hsame]
  · exact hone row

theorem showsRef_iff {peel : Bool} {e : RefEntry} {row : LsRefsRow} :
    ShowsRef peel e row ↔ row = refRow peel e := by
  have hextra : (refRow peel e).extra = refAttribute e.peeled peel := by
    unfold refRow
    cases e.peeled <;> cases peel <;> rfl
  constructor
  · intro h
    exact LsRefsRow.ext h.oid h.name (h.extra.trans hextra.symm)
  · rintro rfl
    exact ⟨rfl, rfl, hextra⟩

theorem mem_wantedRest {entries : List RefEntry} {args : LsRefsArgs} {row : LsRefsRow} :
    row ∈ wantedRest entries args ↔
      ∃ e ∈ entries, Wanted args.prefixes e.name.text ∧ ShowsRef args.peel e row := by
  unfold wantedRest
  simp only [List.mem_map, List.mem_filter, mem_sortByName, decide_eq_true_eq, showsRef_iff]
  constructor
  · rintro ⟨e, ⟨he, hwanted⟩, rfl⟩
    exact ⟨e, he, hwanted, rfl⟩
  · rintro ⟨e, he, hwanted, rfl⟩
    exact ⟨e, ⟨he, hwanted⟩, rfl⟩

theorem wantedRest_sorted {entries : List RefEntry} (h : (entries.map RefEntry.key).Nodup)
    (args : LsRefsArgs) : (wantedRest entries args).Pairwise fun a b => a.name < b.name := by
  unfold wantedRest
  rw [List.pairwise_map]
  exact (sortByName_pairwise h).filter _

/-- There is one listing. -/
theorem lists_iff {head : HeadState} {entries : List RefEntry}
    (h : (entries.map RefEntry.key).Nodup) {args : LsRefsArgs} {top rest : List LsRefsRow} :
    Lists head entries args top rest ↔ top = wantedTop head args ∧ rest = wantedRest entries args := by
  have htop : (if Wanted args.prefixes "HEAD" ∧ ¬ Hidden args.symrefs head then
      ∃ row, top = [row] ∧ ShowsHead args.symrefs head row else top = []) ↔
        top = wantedTop head args := by
    unfold wantedTop
    by_cases hhidden : Hidden args.symrefs head
    · rw [if_neg (fun hc => hc.2 hhidden), headRows_hidden hhidden, ite_self]
    · by_cases hwanted : Wanted args.prefixes "HEAD"
      · rw [if_pos ⟨hwanted, hhidden⟩, if_pos hwanted]
        obtain ⟨row, hrow⟩ := headRows_shown hhidden
        rw [hrow]
        constructor
        · rintro ⟨row', rfl, hshows⟩
          exact ((showsHead_iff hhidden).mp hshows).symm.trans hrow
        · rintro rfl
          exact ⟨row, rfl, (showsHead_iff hhidden).mpr hrow⟩
      · rw [if_neg (fun hc => hwanted hc.1), if_neg hwanted]
  constructor
  · rintro ⟨hhead, hsorted, hrefs⟩
    refine ⟨htop.mp hhead, ?_⟩
    -- two ascending lists of the same rows
    have hperm : rest.Perm (wantedRest entries args) := by
      rw [List.perm_ext_iff_of_nodup (hsorted.imp fun hlt heq => by simp [heq] at hlt)
        ((wantedRest_sorted h args).imp fun hlt heq => by simp [heq] at hlt)]
      intro row
      rw [hrefs row, mem_wantedRest]
    apply hperm.eq_of_pairwise _ hsorted (wantedRest_sorted h args)
    intro a b _ _ hab hba
    exact absurd hba (lt_asymm hab)
  · rintro ⟨rfl, rfl⟩
    exact ⟨htop.mpr rfl, wantedRest_sorted h args, fun row => mem_wantedRest⟩

/-! ### The rows that are served -/

/-- Some prefix other than the whole name `HEAD` is a prefix of the name. -/
def Matched (prefixes : List String) (name : String) : Prop :=
  ∃ p ∈ prefixes, p ≠ "HEAD" ∧ p.toList <+: name.toList

instance (prefixes : List String) (name : String) : Decidable (Matched prefixes name) :=
  inferInstanceAs (Decidable (∃ p ∈ prefixes, _))

def servedTop (head : HeadState) (args : LsRefsArgs) : List LsRefsRow :=
  if "HEAD" ∈ args.prefixes then headRows args.symrefs head else []

def servedRest (entries : List RefEntry) (args : LsRefsArgs) : List LsRefsRow :=
  ((sortByName entries).filter fun e => decide (Matched args.prefixes e.name.text)).map
    (refRow args.peel)

theorem Matched.wanted {prefixes : List String} {name : String} (h : Matched prefixes name) :
    Wanted prefixes name := by
  obtain ⟨p, hp, -, hpre⟩ := h
  exact Or.inr ⟨p, hp, hpre⟩

theorem wanted_head_of_mem {prefixes : List String} (h : "HEAD" ∈ prefixes) :
    Wanted prefixes "HEAD" := Or.inr ⟨"HEAD", h, List.prefix_refl _⟩

/-- The list method with the other prefixes finds the matched entries. -/
theorem sort_listed {entries : List RefEntry} (h : (entries.map RefEntry.key).Nodup)
    {prefixes : List String} (hother : (prefixes.filter (· != "HEAD")).isEmpty = false) :
    sortByName (listed entries (prefixes.filter (· != "HEAD"))) =
      (sortByName entries).filter fun e => decide (Matched prefixes e.name.text) := by
  unfold listed
  rw [hother, if_neg Bool.false_ne_true, ← sortByName_filter h]
  congr 1
  apply List.filter_congr
  intro e _
  rw [Bool.eq_iff_iff, List.any_eq_true, decide_eq_true_eq]
  constructor
  · rintro ⟨p, hp, hstarts⟩
    obtain ⟨hmem, hne⟩ := List.mem_filter.mp hp
    exact ⟨p, hmem, bne_iff_ne.mp hne, List.isPrefixOf_iff_prefix.mp hstarts⟩
  · rintro ⟨p, hmem, hne, hpre⟩
    exact ⟨p, List.mem_filter.mpr ⟨hmem, bne_iff_ne.mpr hne⟩, List.isPrefixOf_iff_prefix.mpr hpre⟩

theorem servedRest_of_isEmpty {entries : List RefEntry} {args : LsRefsArgs}
    (h : (args.prefixes.filter (· != "HEAD")).isEmpty = true) : servedRest entries args = [] := by
  unfold servedRest
  rw [List.map_eq_nil_iff, List.filter_eq_nil_iff]
  rintro e _ hmatched
  obtain ⟨p, hp, hne, -⟩ := of_decide_eq_true hmatched
  have hmem : p ∈ args.prefixes.filter (· != "HEAD") :=
    List.mem_filter.mpr ⟨hp, bne_iff_ne.mpr hne⟩
  rw [List.isEmpty_iff.mp h] at hmem
  cases hmem

theorem readTop_fs {printable : Char → Bool} {dirOf : RepoId → GitDir} {repoId : RepoId}
    {head : HeadState} (hhead : headState printable (dirOf repoId) = .ok head) (args : LsRefsArgs) :
    readTop (fsRefLister printable dirOf) repoId args = .ok (servedTop head args) := by
  have hmem : args.prefixes.any (· == "HEAD") = true ↔ "HEAD" ∈ args.prefixes := by
    rw [List.any_beq', List.contains_iff_mem]
  unfold readTop servedTop
  by_cases hasked : "HEAD" ∈ args.prefixes
  · rw [if_pos (hmem.mpr hasked), if_pos hasked]
    show (headState printable (dirOf repoId)).map _ = _
    rw [hhead]
    rfl
  · rw [if_neg (fun h => hasked (hmem.mp h)), if_neg hasked]

theorem readRest_fs (printable : Char → Bool) (dirOf : RepoId → GitDir) (repoId : RepoId)
    (args : LsRefsArgs) :
    readRest (fsRefLister printable dirOf) repoId args =
      .ok (servedRest (enumerateRefs printable (dirOf repoId)) args) := by
  unfold readRest
  dsimp only
  cases hother : (args.prefixes.filter (· != "HEAD")).isEmpty with
  | true => rw [if_pos rfl, servedRest_of_isEmpty hother]
  | false =>
      rw [if_neg Bool.false_ne_true]
      show Except.ok ((sortByName (listed _ _)).map (refRow args.peel)) = _
      rw [sort_listed (enumerateRefs_distinct printable _) hother]
      rfl

/-- The rows pushed, for the refs of a bare repository whose `HEAD` can be read. -/
theorem lsRefsRows_fs {printable : Char → Bool} {dirOf : RepoId → GitDir} {repoId : RepoId}
    {head : HeadState} (hhead : headState printable (dirOf repoId) = .ok head) (args : LsRefsArgs) :
    lsRefsRows repoId.text (fsRefLister printable dirOf) args =
      .ok (servedTop head args ++
        servedRest (enumerateRefs printable (dirOf repoId)) args) := by
  unfold lsRefsRows
  cases hnone : args.prefixes.isEmpty with
  | true =>
      have hnil := List.isEmpty_iff.mp hnone
      rw [if_pos rfl, servedRest_of_isEmpty (by rw [hnil]; rfl), List.append_nil]
      unfold servedTop
      rw [if_neg (by rw [hnil]; exact List.not_mem_nil)]
  | false =>
      rw [if_neg Bool.false_ne_true, RepoId.tryFrom_text]
      show (readTop _ repoId args >>= fun top => readRest _ repoId args >>= fun rest => _) = _
      rw [readTop_fs hhead, readRest_fs]
      rfl

/-- What is served is wanted. -/
theorem served_sublist (head : HeadState) (entries : List RefEntry) (args : LsRefsArgs) :
    (servedTop head args).Sublist (wantedTop head args) ∧
      (servedRest entries args).Sublist (wantedRest entries args) := by
  constructor
  · unfold servedTop wantedTop
    split_ifs with hmem hwanted hwanted
    · exact List.Sublist.refl _
    · exact absurd (wanted_head_of_mem hmem) hwanted
    · exact List.nil_sublist _
    · exact List.Sublist.refl _
  · apply List.Sublist.map
    apply List.monotone_filter_right
    intro e hmatched
    exact decide_eq_true (of_decide_eq_true hmatched).wanted

theorem servedTop_eq_iff {head : HeadState} {args : LsRefsArgs} :
    servedTop head args = wantedTop head args ↔
      (Wanted args.prefixes "HEAD" → "HEAD" ∈ args.prefixes ∨ Hidden args.symrefs head) := by
  unfold servedTop wantedTop
  by_cases hmem : "HEAD" ∈ args.prefixes
  · rw [if_pos hmem, if_pos (wanted_head_of_mem hmem)]
    exact ⟨fun _ _ => Or.inl hmem, fun _ => rfl⟩
  · rw [if_neg hmem]
    by_cases hwanted : Wanted args.prefixes "HEAD"
    · rw [if_pos hwanted]
      constructor
      · intro h _
        right
        by_contra hshown
        obtain ⟨row, hrow⟩ := headRows_shown hshown
        rw [hrow] at h
        cases h
      · intro h
        rw [headRows_hidden ((h hwanted).resolve_left hmem)]
    · rw [if_neg hwanted]
      exact ⟨fun _ h => absurd h hwanted, fun _ => rfl⟩

theorem servedRest_eq_iff {entries : List RefEntry} {args : LsRefsArgs} :
    servedRest entries args = wantedRest entries args ↔
      ∀ e ∈ entries, Wanted args.prefixes e.name.text → Matched args.prefixes e.name.text := by
  constructor
  · intro h e he hwanted
    have hrow : refRow args.peel e ∈ servedRest entries args := by
      rw [h]
      exact mem_wantedRest.mpr ⟨e, he, hwanted, showsRef_iff.mpr rfl⟩
    obtain ⟨e', he', hsame⟩ := List.mem_map.mp hrow
    have hname : e'.name.text = e.name.text := congrArg LsRefsRow.name hsame
    rw [← hname]
    exact of_decide_eq_true (List.mem_filter.mp he').2
  · intro h
    unfold servedRest wantedRest
    congr 1
    apply List.filter_congr
    intro e he
    rw [decide_eq_decide]
    exact ⟨Matched.wanted, h e (mem_sortByName.mp he)⟩

/-- A client of what `write_data` framed sees the rows up to the cap. -/
theorem emits_iff {rows rows' : List LsRefsRow} :
    Emits (lsRefsResponse rows).body rows' ↔
      rows.map (fun row => (asBytes row.line).take pktLineMaxPayload) =
        rows'.map fun row => asBytes row.line := by
  unfold Emits lsRefsResponse
  rw [pktIter_writeData, List.append_cancel_right_eq, List.map_map]
  have hinj : Function.Injective fun d : List UInt8 =>
      (Except.ok (PktLine.data d) : Except PktError PktLine) := by
    intro d d' h
    simpa using h
  have hleft : rows.map ((fun p => (Except.ok (PktLine.data (p.take pktLineMaxPayload)) :
      Except PktError PktLine)) ∘ fun row => asBytes row.line) =
      (rows.map fun row => (asBytes row.line).take pktLineMaxPayload).map
        fun d => .ok (.data d) := by
    rw [List.map_map]
    rfl
  have hright : rows'.map (fun row => (Except.ok (PktLine.data (asBytes row.line)) :
      Except PktError PktLine)) =
      (rows'.map fun row => asBytes row.line).map fun d => .ok (.data d) := by
    rw [List.map_map]
    rfl
  rw [hleft, hright, (List.map_injective_iff.mpr hinj).eq_iff]

theorem Served.top {head : HeadState} {entries : List RefEntry} {args : LsRefsArgs}
    (h : Served head entries args) (hwanted : Wanted args.prefixes "HEAD") :
    "HEAD" ∈ args.prefixes ∨ Hidden args.symrefs head := by
  rcases hwanted with hnil | hsome
  · exact Or.inr (h.asked hnil).1
  · exact h.headNamed hsome

theorem Served.matched {head : HeadState} {entries : List RefEntry} {args : LsRefsArgs}
    (h : Served head entries args) {e : RefEntry} (he : e ∈ entries)
    (hwanted : Wanted args.prefixes e.name.text) : Matched args.prefixes e.name.text := by
  rcases hwanted with hnil | ⟨p, hp, hpre⟩
  · rw [(h.asked hnil).2] at he
    cases he
  · by_cases hwhole : p = "HEAD"
    · subst hwhole
      exact h.headOnly e he hp hpre
    · exact ⟨p, hp, hwhole, hpre⟩

/-- The rows that are wanted, one by one. -/
theorem mem_wantedTop {head : HeadState} {args : LsRefsArgs} {row : LsRefsRow} :
    row ∈ wantedTop head args ↔ Wanted args.prefixes "HEAD" ∧ ¬ Hidden args.symrefs head ∧
      ShowsHead args.symrefs head row := by
  unfold wantedTop
  by_cases hhidden : Hidden args.symrefs head
  · rw [headRows_hidden hhidden, ite_self]
    exact ⟨fun h => (nomatch h), fun h => absurd hhidden h.2.1⟩
  · obtain ⟨shown, hshown⟩ := headRows_shown hhidden
    rw [hshown, showsHead_iff hhidden, hshown]
    split_ifs with hwanted
    · rw [List.mem_singleton, List.singleton_inj]
      exact ⟨fun h => ⟨hwanted, hhidden, h.symm⟩, fun h => h.2.2.symm⟩
    · exact ⟨fun h => (nomatch h), fun h => absurd h.1 hwanted⟩

theorem Served.fits_of_mem {head : HeadState} {entries : List RefEntry} {args : LsRefsArgs}
    (h : Served head entries args) {row : LsRefsRow}
    (hrow : row ∈ wantedTop head args ++ wantedRest entries args) :
    (asBytes row.line).length ≤ pktLineMaxPayload := by
  apply h.fits row
  rcases List.mem_append.mp hrow with htop | hrest
  · exact Or.inl (mem_wantedTop.mp htop)
  · exact Or.inr (mem_wantedRest.mp hrest)

theorem served_of_eq {head : HeadState} {entries : List RefEntry} {args : LsRefsArgs}
    (htop : servedTop head args = wantedTop head args)
    (hrest : servedRest entries args = wantedRest entries args)
    (hfits : ∀ row ∈ wantedTop head args ++ wantedRest entries args,
      (asBytes row.line).length ≤ pktLineMaxPayload) : Served head entries args where
  asked hnil := by
    have hnone : ∀ p, p ∉ args.prefixes := fun p hp => by
      rw [hnil] at hp
      cases hp
    refine ⟨(servedTop_eq_iff.mp htop (Or.inl hnil)).resolve_left (hnone _), ?_⟩
    rw [List.eq_nil_iff_forall_not_mem]
    intro e he
    obtain ⟨p, hp, -⟩ := servedRest_eq_iff.mp hrest e he (Or.inl hnil)
    exact hnone p hp
  headNamed hsome := servedTop_eq_iff.mp htop (Or.inr hsome)
  headOnly e he hmem hpre := servedRest_eq_iff.mp hrest e he (Or.inr ⟨"HEAD", hmem, hpre⟩)
  fits row hrow := by
    apply hfits row
    rcases hrow with hhead | href
    · exact List.mem_append_left _ (mem_wantedTop.mpr hhead)
    · exact List.mem_append_right _ (mem_wantedRest.mpr href)

/-- **What ls-refs answers right.** The handler lists `HEAD` and the refs as protocol v2 wants if
and only if it is asked for something (or has nothing to show), `HEAD` is asked for by its whole
name (or is hidden), the prefix `HEAD` is not what alone asks for a ref, and no row outgrows a
pkt-line. The repository is any whose `HEAD` can be read, and the arguments are any. -/
theorem ls_refs_answered_iff {printable : Char → Bool} {dirOf : RepoId → GitDir} {repoId : RepoId}
    {head : HeadState} (hhead : headState printable (dirOf repoId) = .ok head)
    (args : LsRefsArgs) :
    Answers head (enumerateRefs printable (dirOf repoId)) args
        (nativeLsRefsResponse repoId.text (fsRefLister printable dirOf) args) ↔
      Served head (enumerateRefs printable (dirOf repoId)) args := by
  have hdistinct := enumerateRefs_distinct printable (dirOf repoId)
  generalize hentries : enumerateRefs printable (dirOf repoId) = entries at hdistinct ⊢
  have hanswer : nativeLsRefsResponse repoId.text (fsRefLister printable dirOf) args =
      .ok (lsRefsResponse (servedTop head args ++ servedRest entries args)) := by
    unfold nativeLsRefsResponse
    rw [lsRefsRows_fs hhead, hentries]
    rfl
  rw [hanswer]
  constructor
  · rintro ⟨response, top, rest, hresponse, hlists, hemits⟩
    cases hresponse
    obtain ⟨rfl, rfl⟩ := (lists_iff hdistinct).mp hlists
    rw [emits_iff] at hemits
    -- as many rows as wanted, so the rows that are wanted
    have hlength := congrArg List.length hemits
    rw [List.length_map, List.length_map, List.length_append, List.length_append] at hlength
    obtain ⟨htop, hrest⟩ := served_sublist head entries args
    have htopLe := htop.length_le
    have hrestLe := hrest.length_le
    have htopEq := htop.eq_of_length (by omega)
    have hrestEq := hrest.eq_of_length (by omega)
    rw [htopEq, hrestEq, List.map_inj_left] at hemits
    have hfits : ∀ row ∈ wantedTop head args ++ wantedRest entries args,
        (asBytes row.line).length ≤ pktLineMaxPayload := by
      intro row hrow
      rw [← hemits row hrow]
      exact List.length_take_le _ _
    exact served_of_eq htopEq hrestEq hfits
  · intro h
    have htop : servedTop head args = wantedTop head args :=
      servedTop_eq_iff.mpr fun hwanted => h.top hwanted
    have hrest : servedRest entries args = wantedRest entries args :=
      servedRest_eq_iff.mpr fun e he hwanted => h.matched he hwanted
    refine ⟨_, wantedTop head args, wantedRest entries args, rfl,
      (lists_iff hdistinct).mpr ⟨rfl, rfl⟩, ?_⟩
    rw [emits_iff, htop, hrest, List.map_inj_left]
    intro row hrow
    exact List.take_of_length_le (h.fits_of_mem hrow)

/-! ### A repository with one branch -/

def mainTip : String := "0123456789abcdef0123456789abcdef01234567"

def oneBranch : GitDir where
  readToString path :=
    if path = "HEAD" then .ok "ref: refs/heads/main\n"
    else if path = "refs/heads/main" then .ok (mainTip ++ "\n")
    else .error "No such file or directory (os error 2)"
  walk := [("refs/heads/main", some (mainTip ++ "\n"))]

def mainRef : RefName := ⟨"refs/heads/main", by decide⟩

def mainOid : Oid := ⟨mainTip, by decide⟩

def anyPrintable (_ : Char) : Bool := true

theorem oneBranch_head : headState anyPrintable oneBranch = .ok (.symbolic mainRef mainOid) := by
  decide +kernel

theorem oneBranch_entries :
    enumerateRefs anyPrintable oneBranch = [⟨mainRef, mainOid, none⟩] := by
  decide +kernel

theorem ls_refs_answered_clone :
    Answers (.symbolic mainRef mainOid) (enumerateRefs anyPrintable oneBranch)
      ⟨true, true, ["HEAD", "refs/heads/", "refs/tags/"]⟩
      (nativeLsRefsResponse "demo" (fsRefLister anyPrintable fun _ => oneBranch)
        ⟨true, true, ["HEAD", "refs/heads/", "refs/tags/"]⟩) := by
  apply (@ls_refs_answered_iff anyPrintable (fun _ => oneBranch) ⟨"demo", rfl⟩ _
    oneBranch_head _).mpr
  rw [oneBranch_entries]
  constructor
  · intro hnil
    cases hnil
  · intro _
    exact Or.inl (by decide)
  · intro e he _ hpre
    obtain rfl := List.mem_singleton.mp he
    exact absurd hpre (by decide)
  · rintro ⟨oid, name, extra⟩ (⟨-, -, hname, hoid, hextra⟩ | ⟨e, he, -, hname, hoid, hextra⟩)
    · cases hname
      cases hoid
      cases hextra
      decide
    · obtain rfl := List.mem_singleton.mp he
      cases hname
      cases hoid
      cases hextra
      decide

/-- The command `ls-refs`, and no arguments. -/
def bareRequest : List UInt8 := (lsRefsRequest ⟨false, false, []⟩).flatMap encode

/-- A request without prefixes is answered with no row at all. -/
theorem bare_request_unanswered :
    parseLsRefsOnly bareRequest = some ⟨false, false, []⟩ ∧
      ¬ Answers (.symbolic mainRef mainOid) (enumerateRefs anyPrintable oneBranch)
        ⟨false, false, []⟩
        (nativeLsRefsResponse "demo" (fsRefLister anyPrintable fun _ => oneBranch)
          ⟨false, false, []⟩) := by
  refine ⟨by decide +kernel, ?_⟩
  rintro ⟨response, top, rest, hresponse, hlists, hemits⟩
  have hbody : response.body = flushBytes := by
    cases hresponse
    rfl
  unfold Emits at hemits
  rw [hbody, show pktIter flushBytes = [.ok .flush] by decide +kernel] at hemits
  have hlength := congrArg List.length hemits
  rw [List.length_append, List.length_map, List.length_append] at hlength
  have hhead := hlists.head
  rw [if_pos ⟨Or.inl rfl, fun h => h⟩] at hhead
  obtain ⟨row, rfl, -⟩ := hhead
  simp only [List.length_cons, List.length_nil] at hlength
  omega

end GitWire
end Artifacts
