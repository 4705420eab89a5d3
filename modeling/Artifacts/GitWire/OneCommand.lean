import Artifacts.PktLine.Streams
import Artifacts.GitWire.Fetch

/-!
# One command a body

`OneCommand` is the grammar of a v2 request: the command line, capability lines, and then
a flush, or a delimiter with argument lines and a flush behind them.  Both parsers read
that grammar off the front of a body.  They stop at the flush without a look at what is
behind it, so a body that goes on is accepted with its rest unread.

`RequestReader` is what the two parsers have in common, so that their argument is made once.
`LsRefsMeans` and `FetchMeans` say what a section of arguments lists; arguments that a parser
does not know are passed over, and this is part of the meaning.
-/

namespace Artifacts
namespace GitWire

open Foundation Pkt Rust

/-- The data lines have these texts, the newlines behind them stripped. -/
def Texts (lines : List PktLine) (texts : List String) : Prop :=
  List.Forall₂ (fun line s => ∃ d, line = .data d ∧ lineText d = some s) lines texts

/-- The lines between the command line and the flush: capability lines and then, if there is
one, the argument section. -/
inductive Section : List PktLine → Option (List String) → Prop
  | bare : Section [] none
  | arguments {lines : List PktLine} {texts : List String} (htexts : Texts lines texts) :
      Section (.delim :: lines) (some texts)
  | capability {d : List UInt8} {s : String} {lines : List PktLine}
      {arguments : Option (List String)} (hline : lineText d = some s)
      (hknown : isKnownCapability s = true) (hrest : Section lines arguments) :
      Section (.data d :: lines) arguments

/-- The lines are one command of this name, with these arguments if it has an argument
section. -/
def OneCommand (name : String) (lines : List PktLine) (arguments : Option (List String)) : Prop :=
  ∃ first init, lines = .data first :: init ++ [.flush] ∧ lineText first = some name ∧
    Section init arguments

/-- An argument line of an ls-refs that the crate knows. -/
def IsArgument (s : String) : Prop :=
  s = "peel" ∨ s = "symrefs" ∨ s = "unborn" ∨ ∃ p, s = "ref-prefix " ++ p

/-- The flags and prefixes that the argument lines of an ls-refs list. -/
structure LsRefsOf (texts : List String) (args : LsRefsArgs) : Prop where
  known : ∀ s ∈ texts, IsArgument s
  peel : args.peel = true ↔ "peel" ∈ texts
  symrefs : args.symrefs = true ↔ "symrefs" ∈ texts
  prefixes : args.prefixes = texts.filterMap (stripPrefix · "ref-prefix ")

/-- An argument line of a fetch that the crate knows. The last three are read and have no effect. -/
def Recognised (s : String) : Prop :=
  (∃ oid, s = "want " ++ oid ∨ s = "have " ++ oid) ∨ s = "done" ∨ s = "no-progress" ∨
    s = "thin-pack" ∨ s = "ofs-delta" ∨ s = "include-tag"

/-- What the argument lines of a fetch list: every want and have in the order of the lines, each a
whole oid, and the flags that are set by some line. -/
structure FetchOf (texts : List String) (req : V2FetchRequest) : Prop where
  wants : req.wants = texts.filterMap (stripPrefix · "want ")
  haves : req.haves = texts.filterMap (stripPrefix · "have ")
  hex : ∀ oid ∈ req.wants ++ req.haves, isHex40 oid = true
  done : req.done = true ↔ "done" ∈ texts
  noProgress : req.noProgress = true ↔ "no-progress" ∈ texts
  unsupported : req.hasUnsupported = true ↔ ∃ s ∈ texts, ¬ Recognised s

/-- A command without an argument section asks for nothing. -/
def LsRefsMeans (arguments : Option (List String)) (args : LsRefsArgs) : Prop :=
  LsRefsOf (arguments.getD []) args

def FetchMeans (arguments : Option (List String)) (req : V2FetchRequest) : Prop :=
  FetchOf (arguments.getD []) req

/-- The whole body is one command of this name, and it means `value`. -/
def IsCommand {α : Type} (name : String) (means : Option (List String) → α → Prop)
    (body : List UInt8) (value : α) : Prop :=
  ∃ lines arguments, Stream Frame body lines ∧ OneCommand name lines arguments ∧
    means arguments value

/-- The body begins with a command of this name that means something, and it goes on
behind it or a length in the command carries a plus sign. -/
def RunsOn {α : Type} (name : String) (means : Option (List String) → α → Prop)
    (body : List UInt8) : Prop :=
  ∃ command behind lines arguments value, body = command ++ behind ∧
    Stream LooseFrame command lines ∧ OneCommand name lines arguments ∧ means arguments value ∧
    (behind ≠ [] ∨ ¬ Stream Frame command lines)

/-- The whole body is a command of this name without an argument section. -/
def NoArguments (name : String) (body : List UInt8) : Prop :=
  ∃ lines, Stream Frame body lines ∧ OneCommand name lines none

/-- A fetch that is taken has an argument section. -/
def FetchTaken (arguments : Option (List String)) (req : V2FetchRequest) : Prop :=
  arguments ≠ none ∧ FetchMeans arguments req

/-! ### The lines that the parsers read -/

theorem texts_cons {d : List UInt8} {lines : List PktLine} {s : String} {texts : List String}
    (hline : lineText d = some s) (h : Texts lines texts) :
    Texts (.data d :: lines) (s :: texts) :=
  List.Forall₂.cons ⟨d, rfl, hline⟩ h

theorem Texts.noFlush {lines : List PktLine} {texts : List String} (h : Texts lines texts) :
    PktLine.flush ∉ lines := by
  induction h with
  | nil => exact List.not_mem_nil
  | cons hline _ ih =>
      obtain ⟨d, rfl, -⟩ := hline
      intro hmem
      rcases List.mem_cons.mp hmem with heq | hmem
      · cases heq
      · exact ih hmem

theorem Section.noFlush {lines : List PktLine} {arguments : Option (List String)}
    (h : Section lines arguments) : PktLine.flush ∉ lines := by
  induction h with
  | bare => exact List.not_mem_nil
  | arguments htexts => simpa using htexts.noFlush
  | capability _ _ _ ih => simpa using ih

/-- The only flush of a command is its last line. -/
theorem OneCommand.flush_last {name : String} {lines : List PktLine}
    {arguments : Option (List String)} (h : OneCommand name lines arguments) :
    ∃ init, lines = init ++ [.flush] ∧ PktLine.flush ∉ init := by
  obtain ⟨first, init, rfl, -, hsection⟩ := h
  exact ⟨.data first :: init, rfl, by simpa using hsection.noFlush⟩

/-- A parser of v2 requests in three stages: the command line, the capability lines and
the argument lines.  `bare` is what it makes of a command without an argument section. -/
structure RequestReader (α : Type) where
  name : String
  start : α
  bare : Option α
  note : α → String → Option α
  arguments : α → List (Except PktError PktLine) → Option α
  capabilities : List (Except PktError PktLine) → Option α
  parse : List UInt8 → Option α
  arguments_flush : ∀ acc items, arguments acc (.ok .flush :: items) = some acc
  arguments_data : ∀ acc d items, arguments acc (.ok (.data d) :: items) =
    ((lineText d).bind (note acc)).bind fun acc' => arguments acc' items
  arguments_other : ∀ acc items, (∀ rest, items ≠ .ok .flush :: rest) →
    (∀ d rest, items ≠ .ok (.data d) :: rest) → arguments acc items = none
  capabilities_data : ∀ d items, capabilities (.ok (.data d) :: items) =
    (lineText d).bind fun s => if isKnownCapability s then capabilities items else none
  capabilities_flush : ∀ items, capabilities (.ok .flush :: items) = bare
  capabilities_delim : ∀ items, capabilities (.ok .delim :: items) = arguments start items
  capabilities_other : ∀ items, (∀ rest, items ≠ .ok .flush :: rest) →
    (∀ rest, items ≠ .ok .delim :: rest) → (∀ d rest, items ≠ .ok (.data d) :: rest) →
    capabilities items = none
  parse_data : ∀ body d items, pktIter body = .ok (.data d) :: items → parse body =
    (lineText d).bind fun s => if s = name then capabilities items else none
  parse_other : ∀ body, (∀ d items, pktIter body ≠ .ok (.data d) :: items) → parse body = none

namespace RequestReader

variable {α : Type} (r : RequestReader α)

/-- What the reader makes of a command with these arguments. -/
def answer : Option (List String) → Option α
  | none => r.bare
  | some texts => texts.foldlM r.note r.start

theorem arguments_iff {acc value : α} {items : List (Except PktError PktLine)} :
    r.arguments acc items = some value ↔ ∃ arguments texts rest, Texts arguments texts ∧
      items = arguments.map .ok ++ .ok .flush :: rest ∧
      texts.foldlM r.note acc = some value := by
  induction items generalizing acc with
  | nil =>
      rw [r.arguments_other acc [] (fun _ => nofun) (fun _ _ => nofun)]
      constructor
      · exact nofun
      · rintro ⟨arguments, texts, rest, -, hitems, -⟩
        cases arguments <;> cases hitems
  | cons item items ih =>
      constructor
      · intro hrun
        by_cases hf : item = .ok .flush
        · subst hf
          rw [r.arguments_flush] at hrun
          exact ⟨[], [], items, .nil, rfl, hrun⟩
        · by_cases hd : ∃ d, item = .ok (.data d)
          · obtain ⟨d, rfl⟩ := hd
            rw [r.arguments_data] at hrun
            obtain ⟨acc', hnoted, hrun⟩ := Option.bind_eq_some_iff.mp hrun
            obtain ⟨s, hline, hnote⟩ := Option.bind_eq_some_iff.mp hnoted
            obtain ⟨arguments, texts, rest, htexts, rfl, hfold⟩ := ih.mp hrun
            refine ⟨.data d :: arguments, s :: texts, rest, texts_cons hline htexts, rfl, ?_⟩
            rw [List.foldlM_cons, hnote]
            exact hfold
          · rw [r.arguments_other acc _ (fun rest heq => hf (List.cons.inj heq).1)
              (fun d rest heq => hd ⟨d, (List.cons.inj heq).1⟩)] at hrun
            cases hrun
      · rintro ⟨arguments, texts, rest, htexts, hitems, hfold⟩
        cases htexts with
        | nil =>
            obtain ⟨rfl, rfl⟩ := List.cons.inj hitems
            rw [r.arguments_flush]
            exact hfold
        | cons hline htexts =>
            obtain ⟨d, rfl, hline⟩ := hline
            obtain ⟨rfl, htail⟩ := List.cons.inj hitems
            rw [List.foldlM_cons] at hfold
            obtain ⟨acc', hnote, hmore⟩ := Option.bind_eq_some_iff.mp hfold
            rw [r.arguments_data, hline, Option.bind_some, hnote, Option.bind_some]
            exact ih.mpr ⟨_, _, rest, htexts, htail, hmore⟩

theorem capabilities_iff {value : α} {items : List (Except PktError PktLine)} :
    r.capabilities items = some value ↔ ∃ lines arguments rest, Section lines arguments ∧
      items = lines.map .ok ++ .ok .flush :: rest ∧ r.answer arguments = some value := by
  constructor
  · intro hrun
    induction items with
    | nil =>
        rw [r.capabilities_other [] (fun _ => nofun) (fun _ => nofun) (fun _ _ => nofun)] at hrun
        cases hrun
    | cons item items ih =>
        by_cases hf : item = .ok .flush
        · subst hf
          rw [r.capabilities_flush] at hrun
          exact ⟨[], none, items, .bare, rfl, hrun⟩
        · by_cases hdelim : item = .ok .delim
          · subst hdelim
            rw [r.capabilities_delim] at hrun
            obtain ⟨arguments, texts, rest, htexts, rfl, hfold⟩ := r.arguments_iff.mp hrun
            exact ⟨_, some texts, rest, .arguments htexts, rfl, hfold⟩
          · by_cases hd : ∃ d, item = .ok (.data d)
            · obtain ⟨d, rfl⟩ := hd
              rw [r.capabilities_data] at hrun
              obtain ⟨s, hline, hmore⟩ := Option.bind_eq_some_iff.mp hrun
              split_ifs at hmore with hknown
              obtain ⟨lines, arguments, rest, hsection, rfl, hanswer⟩ := ih hmore
              exact ⟨_, arguments, rest, .capability hline hknown hsection, rfl, hanswer⟩
            · rw [r.capabilities_other _ (fun rest heq => hf (List.cons.inj heq).1)
                (fun rest heq => hdelim (List.cons.inj heq).1)
                (fun d rest heq => hd ⟨d, (List.cons.inj heq).1⟩)] at hrun
              cases hrun
  · rintro ⟨lines, arguments, rest, hsection, rfl, hanswer⟩
    induction hsection with
    | bare =>
        show r.capabilities (.ok .flush :: rest) = some value
        rw [r.capabilities_flush]
        exact hanswer
    | @arguments lines texts htexts =>
        show r.capabilities (.ok .delim :: (lines.map .ok ++ .ok .flush :: rest)) = some value
        rw [r.capabilities_delim]
        exact r.arguments_iff.mpr ⟨lines, texts, rest, htexts, rfl, hanswer⟩
    | @capability d s lines _ hline hknown _ ih =>
        show r.capabilities (.ok (.data d) :: (lines.map .ok ++ .ok .flush :: rest)) = some value
        rw [r.capabilities_data, hline, Option.bind_some, if_pos hknown]
        exact ih hanswer

/-- **What a reader accepts**: a command at the front of the body, whatever is behind it. -/
theorem parse_iff {value : α} {body : List UInt8} :
    r.parse body = some value ↔ ∃ command behind lines arguments, body = command ++ behind ∧
      Stream LooseFrame command lines ∧ OneCommand r.name lines arguments ∧
      r.answer arguments = some value := by
  constructor
  · intro hparse
    by_cases hfirst : ∃ d items, pktIter body = .ok (.data d) :: items
    · obtain ⟨d, items, hiter⟩ := hfirst
      rw [r.parse_data body d items hiter] at hparse
      obtain ⟨s, hline, hmore⟩ := Option.bind_eq_some_iff.mp hparse
      split_ifs at hmore with hname
      subst hname
      obtain ⟨lines, arguments, rest, hsection, rfl, hanswer⟩ := r.capabilities_iff.mp hmore
      have hfront : pktIter body =
          (PktLine.data d :: lines ++ [PktLine.flush]).map .ok ++ rest := by
        rw [hiter]
        simp
      obtain ⟨command, behind, rfl, hstream, -⟩ := stream_of_pktIter hfront
      exact ⟨command, behind, _, arguments, rfl, hstream, ⟨d, lines, rfl, hline, hsection⟩, hanswer⟩
    · rw [r.parse_other body fun d items heq => hfirst ⟨d, items, heq⟩] at hparse
      cases hparse
  · rintro ⟨command, behind, _, arguments, rfl, hstream, ⟨d, lines, rfl, hline, hsection⟩, hanswer⟩
    have hiter : pktIter (command ++ behind) =
        .ok (.data d) :: (lines.map .ok ++ .ok .flush :: pktIter behind) := by
      rw [pktIter_of_stream hstream]
      simp
    rw [r.parse_data _ d _ hiter, hline, Option.bind_some, if_pos rfl]
    exact r.capabilities_iff.mpr ⟨lines, arguments, _, hsection, rfl, hanswer⟩

/-- **One command and nothing else.** A reader takes the commands, whole bodies, except on
the bodies that run on. -/
theorem whole_iff {means : Option (List String) → α → Prop}
    (hmeans : ∀ {arguments value}, r.answer arguments = some value ↔ means arguments value)
    (body : List UInt8) :
    (∀ value, r.parse body = some value ↔ IsCommand r.name means body value) ↔
      ¬ RunsOn r.name means body := by
  constructor
  · rintro hwhole ⟨command, behind, lines, arguments, value, rfl, hstream, hcommand, hvalue, hmore⟩
    have hparse := r.parse_iff.mpr ⟨command, behind, lines, arguments, rfl, hstream, hcommand,
      hmeans.mpr hvalue⟩
    obtain ⟨lines', arguments', hstream', hcommand', -⟩ := (hwhole value).mp hparse
    obtain ⟨init, rfl, hinit⟩ := hcommand.flush_last
    obtain ⟨init', rfl, hinit'⟩ := hcommand'.flush_last
    -- both read up to the first flush, so nothing is behind it
    obtain ⟨rfl, hrest⟩ := stream_unique (List.append_nil _).symm hstream hstream'.loose
      hinit hinit'
    obtain rfl := pktIter_eq_nil hrest
    rcases hmore with hbehind | hsigned
    · exact hbehind rfl
    · exact hsigned (by rwa [List.append_nil] at hstream')
  · intro hends value
    constructor
    · intro hparse
      obtain ⟨command, behind, lines, arguments, rfl, hstream, hcommand, hanswer⟩ :=
        r.parse_iff.mp hparse
      have hvalue := hmeans.mp hanswer
      have hbehind : behind = [] := by
        by_contra hbehind
        exact hends ⟨command, behind, lines, arguments, value, rfl, hstream, hcommand, hvalue,
          Or.inl hbehind⟩
      have hstrict : Stream Frame command lines := by
        by_contra hsigned
        exact hends ⟨command, behind, lines, arguments, value, rfl, hstream, hcommand, hvalue,
          Or.inr hsigned⟩
      subst hbehind
      exact ⟨lines, arguments, by rwa [List.append_nil], hcommand, hvalue⟩
    · rintro ⟨lines, arguments, hstream, hcommand, hvalue⟩
      exact r.parse_iff.mpr ⟨body, [], lines, arguments, (List.append_nil body).symm,
        hstream.loose, hcommand, hmeans.mpr hvalue⟩

end RequestReader

/-! ### What an argument line adds -/

theorem startsWith_append (pat rest : String) : startsWith (pat ++ rest) pat = true := by
  unfold startsWith
  rw [String.toList_append, List.isPrefixOf_iff_prefix]
  exact List.prefix_append _ _

theorem stripPrefix_eq_some {s pat rest : String} :
    stripPrefix s pat = some rest ↔ s = pat ++ rest := by
  unfold stripPrefix startsWith
  constructor
  · intro h
    split_ifs at h with hpre
    obtain ⟨tail, htail⟩ := List.isPrefixOf_iff_prefix.mp hpre
    cases h
    rw [← htail, List.drop_left, ← String.toList_inj, String.toList_append, String.toList_ofList]
    exact htail.symm
  · rintro rfl
    show (if startsWith (pat ++ rest) pat = true then _ else none) = _
    rw [if_pos (startsWith_append pat rest), String.toList_append, List.drop_left,
      String.ofList_toList]

theorem stripPrefix_eq_none {s pat : String} :
    stripPrefix s pat = none ↔ ∀ rest, s ≠ pat ++ rest := by
  rw [Option.eq_none_iff_forall_ne_some]
  exact forall_congr' fun rest => not_congr stripPrefix_eq_some

/-- A fold that notes one argument after the other takes them all, and adds what they list. -/
theorem foldlM_eq_some_iff {α β : Type} {note : β → α → Option β} {plus : β → List α → β}
    {ok : α → Prop} (hnil : ∀ acc, plus acc [] = acc)
    (hcons : ∀ acc x xs, plus acc (x :: xs) = plus (plus acc [x]) xs)
    (hnote : ∀ {acc value x}, note acc x = some value ↔ ok x ∧ value = plus acc [x])
    {xs : List α} {acc value : β} :
    xs.foldlM note acc = some value ↔ (∀ x ∈ xs, ok x) ∧ value = plus acc xs := by
  induction xs generalizing acc with
  | nil => simp [hnil, eq_comm]
  | cons x xs ih =>
      rw [List.foldlM_cons, Option.bind_eq_bind, Option.bind_eq_some_iff]
      simp only [hnote, ih, List.forall_mem_cons]
      constructor
      · rintro ⟨_, ⟨hx, rfl⟩, hxs, rfl⟩
        exact ⟨⟨hx, hxs⟩, (hcons acc x xs).symm⟩
      · rintro ⟨⟨hx, hxs⟩, rfl⟩
        exact ⟨_, ⟨hx, rfl⟩, hxs, hcons acc x xs⟩

/-- The arguments with what more lines list. -/
def LsRefsArgs.plus (args : LsRefsArgs) (texts : List String) : LsRefsArgs where
  peel := args.peel || texts.contains "peel"
  symrefs := args.symrefs || texts.contains "symrefs"
  prefixes := args.prefixes ++ texts.filterMap (stripPrefix · "ref-prefix ")

theorem LsRefsArgs.plus_cons (args : LsRefsArgs) (s : String) (texts : List String) :
    args.plus (s :: texts) = (args.plus [s]).plus texts := by
  have hcons : s :: texts = [s] ++ texts := rfl
  simp only [LsRefsArgs.plus, hcons, List.contains_append, List.filterMap_append, Bool.or_assoc,
    List.append_assoc]

theorem noteArgument_eq_some {acc args : LsRefsArgs} {s : String} :
    noteArgument acc s = some args ↔ IsArgument s ∧ args = acc.plus [s] := by
  -- a line that is noted is an argument, and adds what it lists
  have hnoted : ∀ {x : LsRefsArgs}, IsArgument s → x = acc.plus [s] →
      (some x = some args ↔ IsArgument s ∧ args = acc.plus [s]) := by
    rintro x hs rfl
    simp [hs, eq_comm]
  unfold noteArgument
  split_ifs with hpeel hsymrefs hprefix hunborn
  · subst hpeel
    have hnone : stripPrefix "peel" "ref-prefix " = none := by decide
    refine hnoted (Or.inl rfl) ?_
    simp [LsRefsArgs.plus, hnone]
  · subst hsymrefs
    have hnone : stripPrefix "symrefs" "ref-prefix " = none := by decide
    refine hnoted (Or.inr (Or.inl rfl)) ?_
    simp [LsRefsArgs.plus, hnone]
  · have hsome : stripPrefix s "ref-prefix " = some (String.ofList (s.toList.drop 11)) :=
      if_pos hprefix
    refine hnoted (Or.inr (Or.inr (Or.inr ⟨_, stripPrefix_eq_some.mp hsome⟩))) ?_
    simp [LsRefsArgs.plus, hsome, Ne.symm hpeel, Ne.symm hsymrefs]
  · subst hunborn
    have hnone : stripPrefix "unborn" "ref-prefix " = none := by decide
    refine hnoted (Or.inr (Or.inr (Or.inl rfl))) ?_
    simp [LsRefsArgs.plus, hnone]
  · refine iff_of_false nofun ?_
    rintro ⟨rfl | rfl | rfl | ⟨p, rfl⟩, -⟩
    · exact hpeel rfl
    · exact hsymrefs rfl
    · exact hunborn rfl
    · exact hprefix (startsWith_append "ref-prefix " p)

theorem foldlM_noteArgument {acc args : LsRefsArgs} {texts : List String} :
    texts.foldlM noteArgument acc = some args ↔
      (∀ s ∈ texts, IsArgument s) ∧ args = acc.plus texts :=
  foldlM_eq_some_iff (by simp [LsRefsArgs.plus]) LsRefsArgs.plus_cons noteArgument_eq_some

theorem lsRefsOf_iff {texts : List String} {args : LsRefsArgs} :
    LsRefsOf texts args ↔
      (∀ s ∈ texts, IsArgument s) ∧ args = LsRefsArgs.plus ⟨false, false, []⟩ texts := by
  constructor
  · intro h
    refine ⟨h.known, ?_⟩
    have hpeel := h.peel
    have hsymrefs := h.symrefs
    have hprefixes := h.prefixes
    obtain ⟨peel, symrefs, prefixes⟩ := args
    simp only [LsRefsArgs.plus, Bool.false_or, List.nil_append, LsRefsArgs.mk.injEq]
    refine ⟨Bool.eq_iff_iff.mpr ?_, Bool.eq_iff_iff.mpr ?_, hprefixes⟩
    · rw [hpeel, List.contains_iff_mem]
    · rw [hsymrefs, List.contains_iff_mem]
  · rintro ⟨hknown, rfl⟩
    exact ⟨hknown, by simp [LsRefsArgs.plus], by simp [LsRefsArgs.plus], rfl⟩

instance (s : String) : Decidable (Recognised s) :=
  decidable_of_iff (((stripPrefix s "want ").isSome ∨ (stripPrefix s "have ").isSome) ∨
      s = "done" ∨ s = "no-progress" ∨ s = "thin-pack" ∨ s = "ofs-delta" ∨ s = "include-tag") <| by
    simp only [Option.isSome_iff_exists, stripPrefix_eq_some, Recognised, exists_or]

/-- The request with what more lines list. -/
def V2FetchRequest.plus (req : V2FetchRequest) (texts : List String) : V2FetchRequest where
  wants := req.wants ++ texts.filterMap (stripPrefix · "want ")
  haves := req.haves ++ texts.filterMap (stripPrefix · "have ")
  done := req.done || texts.contains "done"
  noProgress := req.noProgress || texts.contains "no-progress"
  hasUnsupported := req.hasUnsupported || texts.any fun s => decide (¬ Recognised s)

/-- The ids of a line are forty hexadecimal digits. -/
def WellFormed (s : String) : Prop :=
  ∀ oid, s = "want " ++ oid ∨ s = "have " ++ oid → isHex40 oid = true

theorem V2FetchRequest.plus_cons (req : V2FetchRequest) (s : String) (texts : List String) :
    req.plus (s :: texts) = (req.plus [s]).plus texts := by
  have hcons : s :: texts = [s] ++ texts := rfl
  simp only [V2FetchRequest.plus, hcons, List.contains_append, List.filterMap_append,
    List.any_append, Bool.or_assoc, List.append_assoc]

/-- Texts with other first letters are other texts. -/
theorem append_ne {pat rest other : String} {c : Char} (hpat : pat.toList.head? = some c)
    (hother : other.toList.head? ≠ some c) : pat ++ rest ≠ other := by
  rintro rfl
  apply hother
  rw [String.toList_append, List.head?_append, hpat, Option.some_or]

theorem noteFetchArgument_eq_some {acc req : V2FetchRequest} {s : String} :
    noteFetchArgument acc s = some req ↔ WellFormed s ∧ req = acc.plus [s] := by
  have hnoted : ∀ {x : V2FetchRequest}, WellFormed s → x = acc.plus [s] →
      (some x = some req ↔ WellFormed s ∧ req = acc.plus [s]) := by
    rintro x hs rfl
    simp [hs, eq_comm]
  have hhead : ∀ (other : String) (oid : String), other.toList.head? ≠ some 'w' →
      "want " ++ oid ≠ other := fun other oid h => append_ne (by decide) h
  have hhead' : ∀ (other : String) (oid : String), other.toList.head? ≠ some 'h' →
      "have " ++ oid ≠ other := fun other oid h => append_ne (by decide) h
  have hapart : ∀ oid oid', "want " ++ oid ≠ "have " ++ oid' := by
    intro oid oid'
    refine hhead _ oid ?_
    rw [String.toList_append, List.head?_append]
    exact show some 'h' ≠ some 'w' by decide
  unfold noteFetchArgument
  cases hwant : stripPrefix s "want " with
  | some oid =>
      obtain rfl := stripPrefix_eq_some.mp hwant
      have hhave : stripPrefix ("want " ++ oid) "have " = none :=
        stripPrefix_eq_none.mpr (hapart oid)
      have hrec : Recognised ("want " ++ oid) := Or.inl ⟨oid, Or.inl rfl⟩
      have hdone := hhead "done" oid (by decide)
      have hprogress := hhead "no-progress" oid (by decide)
      dsimp only
      split_ifs with hhex
      · refine hnoted ?_ ?_
        · rintro oid' (h | h)
          · rwa [← Option.some.inj (hwant.symm.trans (stripPrefix_eq_some.mpr h))]
          · exact absurd h (hapart oid oid')
        · simp [V2FetchRequest.plus, hwant, hhave, hrec, hdone.symm, hprogress.symm]
      · refine iff_of_false nofun fun h => hhex (h.1 oid (Or.inl rfl))
  | none =>
      dsimp only
      cases hhave : stripPrefix s "have " with
      | some oid =>
          obtain rfl := stripPrefix_eq_some.mp hhave
          have hrec : Recognised ("have " ++ oid) := Or.inl ⟨oid, Or.inr rfl⟩
          have hdone := hhead' "done" oid (by decide)
          have hprogress := hhead' "no-progress" oid (by decide)
          dsimp only
          split_ifs with hhex
          · refine hnoted ?_ ?_
            · rintro oid' (h | h)
              · exact absurd h.symm (hapart oid' oid)
              · rwa [← Option.some.inj (hhave.symm.trans (stripPrefix_eq_some.mpr h))]
            · simp [V2FetchRequest.plus, hwant, hhave, hrec, hdone.symm, hprogress.symm]
          · refine iff_of_false nofun fun h => hhex (h.1 oid (Or.inr rfl))
      | none =>
          -- neither a want nor a have: no id to be checked
          have hwell : WellFormed s := by
            rintro oid (h | h)
            · exact absurd h (stripPrefix_eq_none.mp hwant oid)
            · exact absurd h (stripPrefix_eq_none.mp hhave oid)
          dsimp only
          split_ifs with hdone hprogress hother
          · subst hdone
            have hrec : Recognised "done" := by decide
            exact hnoted hwell (by simp [V2FetchRequest.plus, hwant, hhave, hrec])
          · subst hprogress
            have hrec : Recognised "no-progress" := by decide
            exact hnoted hwell (by simp [V2FetchRequest.plus, hwant, hhave, hrec])
          · have hrec : Recognised s := Or.inr (Or.inr (Or.inr hother))
            exact hnoted hwell (by
              simp [V2FetchRequest.plus, hwant, hhave, hrec, Ne.symm hdone, Ne.symm hprogress])
          · have hrec : ¬ Recognised s := by
              rintro (⟨oid, h | h⟩ | h | h | h)
              · exact stripPrefix_eq_none.mp hwant oid h
              · exact stripPrefix_eq_none.mp hhave oid h
              · exact hdone h
              · exact hprogress h
              · exact hother h
            exact hnoted hwell (by
              simp [V2FetchRequest.plus, hwant, hhave, hrec, Ne.symm hdone, Ne.symm hprogress])

theorem foldlM_noteFetchArgument {acc req : V2FetchRequest} {texts : List String} :
    texts.foldlM noteFetchArgument acc = some req ↔
      (∀ s ∈ texts, WellFormed s) ∧ req = acc.plus texts :=
  foldlM_eq_some_iff (by simp [V2FetchRequest.plus]) V2FetchRequest.plus_cons
    noteFetchArgument_eq_some

theorem fetchOf_iff {texts : List String} {req : V2FetchRequest} :
    FetchOf texts req ↔ (∀ s ∈ texts, WellFormed s) ∧ req = V2FetchRequest.empty.plus texts := by
  have hmem : ∀ {pat oid : String}, oid ∈ texts.filterMap (stripPrefix · pat) ↔
      pat ++ oid ∈ texts := by
    intro pat oid
    rw [List.mem_filterMap]
    constructor
    · rintro ⟨s, hs, hstrip⟩
      rwa [← stripPrefix_eq_some.mp hstrip]
    · exact fun h => ⟨_, h, stripPrefix_eq_some.mpr rfl⟩
  constructor
  · intro h
    refine ⟨?_, ?_⟩
    · rintro s hs oid (rfl | rfl)
      · exact h.hex oid (List.mem_append_left _ (by rw [h.wants]; exact hmem.mpr hs))
      · exact h.hex oid (List.mem_append_right _ (by rw [h.haves]; exact hmem.mpr hs))
    · have hdone := h.done
      have hprogress := h.noProgress
      have hunsupported := h.unsupported
      have hwants := h.wants
      have hhaves := h.haves
      obtain ⟨wants, haves, done, unsupported, progress⟩ := req
      simp only [V2FetchRequest.plus, V2FetchRequest.empty, Bool.false_or, List.nil_append,
        V2FetchRequest.mk.injEq]
      refine ⟨hwants, hhaves, Bool.eq_iff_iff.mpr ?_, Bool.eq_iff_iff.mpr ?_,
        Bool.eq_iff_iff.mpr ?_⟩
      · rw [hdone, List.contains_iff_mem]
      · simpa using hunsupported
      · rw [hprogress, List.contains_iff_mem]
  · rintro ⟨hwell, rfl⟩
    refine ⟨rfl, rfl, ?_, by simp [V2FetchRequest.plus, V2FetchRequest.empty],
      by simp [V2FetchRequest.plus, V2FetchRequest.empty],
      by simp [V2FetchRequest.plus, V2FetchRequest.empty]⟩
    intro oid hoid
    rcases List.mem_append.mp hoid with hoid | hoid
    · exact hwell _ (hmem.mp hoid) oid (Or.inl rfl)
    · exact hwell _ (hmem.mp hoid) oid (Or.inr rfl)

/-! ### What the parsers accept -/

def lsRefsReader : RequestReader LsRefsArgs where
  name := "command=ls-refs"
  start := ⟨false, false, []⟩
  bare := some ⟨false, false, []⟩
  note := noteArgument
  arguments := readArguments
  capabilities := readCapabilities
  parse := parseLsRefsOnly
  arguments_flush _ _ := rfl
  arguments_data acc d items := by
    rw [readArguments]
    cases (lineText d).bind (noteArgument acc) <;> rfl
  arguments_other acc items hflush hdata := by
    unfold readArguments
    split
    · exact absurd rfl (hflush _)
    · exact absurd rfl (hdata _ _)
    · rfl
  capabilities_data d items := by
    rw [readCapabilities]
    cases lineText d <;> rfl
  capabilities_flush _ := rfl
  capabilities_delim _ := rfl
  capabilities_other items hflush hdelim hdata := by
    unfold readCapabilities
    split
    · exact absurd rfl (hdelim _)
    · exact absurd rfl (hflush _)
    · exact absurd rfl (hdata _ _)
    · rfl
  parse_data body d items hiter := by
    unfold parseLsRefsOnly
    rw [hiter]
    dsimp only
    cases lineText d <;> rfl
  parse_other body hdata := by
    unfold parseLsRefsOnly
    split
    · rename_i hiter
      exact absurd hiter (hdata _ _)
    · rfl

def fetchReader : RequestReader V2FetchRequest where
  name := "command=fetch"
  start := .empty
  bare := none
  note := noteFetchArgument
  arguments := readFetchArguments
  capabilities := readFetchCapabilities
  parse := parseV2Fetch
  arguments_flush _ _ := rfl
  arguments_data acc d items := by
    rw [readFetchArguments]
    cases (lineText d).bind (noteFetchArgument acc) <;> rfl
  arguments_other acc items hflush hdata := by
    unfold readFetchArguments
    split
    · exact absurd rfl (hflush _)
    · exact absurd rfl (hdata _ _)
    · rfl
  capabilities_data d items := by
    rw [readFetchCapabilities]
    cases lineText d <;> rfl
  capabilities_flush _ := rfl
  capabilities_delim _ := rfl
  capabilities_other items hflush hdelim hdata := by
    unfold readFetchCapabilities
    split
    · exact absurd rfl (hdelim _)
    · exact absurd rfl (hdata _ _)
    · rfl
  parse_data body d items hiter := by
    unfold parseV2Fetch
    rw [hiter]
    dsimp only
    cases lineText d <;> rfl
  parse_other body hdata := by
    unfold parseV2Fetch
    split
    · rename_i hiter
      exact absurd hiter (hdata _ _)
    · rfl

/-- An ls-refs without an argument section asks for nothing, as with an empty one. -/
theorem answer_lsRefs {arguments : Option (List String)} {args : LsRefsArgs} :
    lsRefsReader.answer arguments = some args ↔ LsRefsMeans arguments args := by
  rw [LsRefsMeans, lsRefsOf_iff]
  cases arguments with
  | none =>
      show some (⟨false, false, []⟩ : LsRefsArgs) = some args ↔ _
      simp [LsRefsArgs.plus, eq_comm]
  | some texts => exact foldlM_noteArgument

theorem answer_fetch {arguments : Option (List String)} {req : V2FetchRequest} :
    fetchReader.answer arguments = some req ↔ FetchTaken arguments req := by
  rw [FetchTaken, FetchMeans, fetchOf_iff]
  cases arguments with
  | none =>
      show (none : Option V2FetchRequest) = some req ↔ _
      simp
  | some texts =>
      rw [and_iff_right (by simp)]
      exact foldlM_noteFetchArgument

theorem Section.delim_iff {lines : List PktLine} {arguments : Option (List String)}
    (h : Section lines arguments) : PktLine.delim ∈ lines ↔ arguments ≠ none := by
  induction h with
  | bare => simp
  | arguments htexts => simp
  | capability _ _ _ ih => simpa using ih

/-- A fetch without an argument section is not taken. -/
theorem parseV2Fetch_bare {body : List UInt8} (h : NoArguments "command=fetch" body) :
    parseV2Fetch body = none := by
  obtain ⟨lines, hstream, hcommand⟩ := h
  rw [Option.eq_none_iff_forall_ne_some]
  intro req hparse
  obtain ⟨command, behind, lines', arguments, rfl, hstream', hcommand', hanswer⟩ :=
    fetchReader.parse_iff.mp hparse
  obtain ⟨first, init, rfl, -, hsection⟩ := hcommand
  obtain ⟨first', init', rfl, -, hsection'⟩ := hcommand'
  have hinit : PktLine.flush ∉ PktLine.data first :: init := by simpa using hsection.noFlush
  have hinit' : PktLine.flush ∉ PktLine.data first' :: init' := by simpa using hsection'.noFlush
  obtain ⟨hlines, -⟩ := stream_unique (List.append_nil _) hstream.loose hstream' hinit hinit'
  obtain ⟨-, rfl⟩ := List.cons.inj hlines
  exact hsection.delim_iff.mp (hsection'.delim_iff.mpr (answer_fetch.mp hanswer).1) rfl

theorem fetch_whole_iff (body : List UInt8) :
    (∀ req, parseV2Fetch body = some req ↔ IsCommand "command=fetch" FetchMeans body req) ↔
      ¬ RunsOn "command=fetch" FetchTaken body ∧ ¬ NoArguments "command=fetch" body := by
  have htaken : (∀ req, parseV2Fetch body = some req ↔
      IsCommand "command=fetch" FetchTaken body req) ↔ ¬ RunsOn "command=fetch" FetchTaken body := fetchReader.whole_iff answer_fetch body
  rw [← htaken]
  constructor
  · intro hwhole
    have hbare : ¬ NoArguments "command=fetch" body := by
      rintro hbare
      obtain ⟨lines, hstream, hcommand⟩ := hbare
      have hparse := (hwhole .empty).mpr ⟨lines, none, hstream, hcommand,
        fetchOf_iff.mpr ⟨fun _ => nofun, rfl⟩⟩
      rw [parseV2Fetch_bare ⟨lines, hstream, hcommand⟩] at hparse
      cases hparse
    refine ⟨fun req => (hwhole req).trans ⟨?_, ?_⟩, hbare⟩
    · rintro ⟨lines, arguments, hstream, hcommand, hvalue⟩
      refine ⟨lines, arguments, hstream, hcommand, ?_, hvalue⟩
      rintro rfl
      exact hbare ⟨lines, hstream, hcommand⟩
    · rintro ⟨lines, arguments, hstream, hcommand, -, hvalue⟩
      exact ⟨lines, arguments, hstream, hcommand, hvalue⟩
  · rintro ⟨hwhole, hbare⟩ req
    refine (hwhole req).trans ⟨?_, ?_⟩
    · rintro ⟨lines, arguments, hstream, hcommand, -, hvalue⟩
      exact ⟨lines, arguments, hstream, hcommand, hvalue⟩
    · rintro ⟨lines, arguments, hstream, hcommand, hvalue⟩
      refine ⟨lines, arguments, hstream, hcommand, ?_, hvalue⟩
      rintro rfl
      exact hbare ⟨lines, hstream, hcommand⟩

/-- **The bodies that are taken.** The parsers accept exactly the bodies that are one command, with
what its arguments list, unless the body begins with a command and runs on; and a fetch without an
argument section is refused. This is said of each body by itself, for both parsers at once. -/
theorem one_command_iff (body : List UInt8) :
    ((∀ args, parseLsRefsOnly body = some args ↔
        IsCommand "command=ls-refs" LsRefsMeans body args) ∧
      ∀ req, parseV2Fetch body = some req ↔ IsCommand "command=fetch" FetchMeans body req) ↔
      ¬ RunsOn "command=ls-refs" LsRefsMeans body ∧
        ¬ RunsOn "command=fetch" FetchTaken body ∧ ¬ NoArguments "command=fetch" body :=
  and_congr (lsRefsReader.whole_iff answer_lsRefs body) (fetch_whole_iff body)

/-- Two commands in one body: the first is taken, the second is not looked at. -/
theorem two_commands_taken :
    ¬ ∀ args, parseLsRefsOnly (asBytes "0014command=ls-refs\n00000012command=fetch\n0000") =
        some args ↔ IsCommand "command=ls-refs" LsRefsMeans
          (asBytes "0014command=ls-refs\n00000012command=fetch\n0000") args := by
  intro hwhole
  have hparse : parseLsRefsOnly (asBytes "0014command=ls-refs\n00000012command=fetch\n0000") =
      some ⟨false, false, []⟩ := by decide +kernel
  obtain ⟨lines, arguments, hstream, hcommand, -⟩ := (hwhole _).mp hparse
  obtain ⟨init, rfl, hinit⟩ := hcommand.flush_last
  have hiter : pktIter (asBytes "0014command=ls-refs\n00000012command=fetch\n0000") =
      [.ok (.data (asBytes "command=ls-refs\n")), .ok .flush,
        .ok (.data (asBytes "command=fetch\n")), .ok .flush] := by decide +kernel
  have hlines := pktIter_of_stream hstream.loose []
  rw [List.append_nil, hiter, pktIter, frames_nil, List.append_nil, List.map_append] at hlines
  have hsecond : (Except.ok PktLine.flush : Except PktError PktLine) ∈ init.map .ok := by
    have hdrop := congrArg List.dropLast hlines
    rw [List.map_singleton, List.dropLast_concat] at hdrop
    rw [← hdrop]
    simp
  obtain ⟨line, hline, heq⟩ := List.mem_map.mp hsecond
  cases heq
  exact hinit hline

end GitWire
end Artifacts
