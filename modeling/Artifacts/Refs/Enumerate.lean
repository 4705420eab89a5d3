import Artifacts.Refs.LooseTree

/-!
# What `enumerate_refs` lists

`Present` says what a listing should say of a ref: the oid of the loose file of exactly
that name, or else the packed one with the peel line directly behind it.  The loop of
`enumerate_refs` does the same except in two places.  It keeps the name of the last ref
line through comments, malformed lines and other peel lines, so a peel may come from
further down; and it drops the components of a path that are not UTF-8, so a stray file is
listed under the name of another.

`PeelsDirectly` and `StraysHarmless` are about these two places.  Both are conditions on the
lines and files, and each is needed on its own.  Files of a repository that git is writing at
the moment are not part of this.
-/

namespace Artifacts
namespace Refs

open Foundation Rust

/-! ### Texts that are ids and names -/

/-- The object id of a text. -/
def oidOf (s : String) : Option Oid := if h : validOid s = true then some ⟨s, h⟩ else none

/-- The ref name of a text. -/
def nameOf (s : String) : Option RefName := if h : validRefName s = true then some ⟨s, h⟩ else none

/-- What `packed-refs` says on a line `<oid> <name>`. -/
def refLine (line : String) : Option (RefName × Oid) :=
  (splitOnce line ' ').bind fun fields =>
    (nameOf fields.2).bind fun name => (oidOf fields.1).map fun oid => (name, oid)

/-- The object of a line `^<oid>`. -/
def directPeel : List String → Option Oid
  | [] => none
  | line :: _ =>
      if startsWith line "^" then oidOf (String.ofList (line.toList.drop 1)) else none

/-- The value of a name in `packed-refs`: the last line that gives it an object counts, and
`peel` says what the lines behind that line peel it to. -/
def packedWith (peel : List String → Option Oid) (n : String) :
    List String → Option (Oid × Option Oid)
  | [] => none
  | line :: rest =>
      (packedWith peel n rest).or <|
        (refLine line).bind fun r => if r.1.text = n then some (r.2, peel rest) else none

/-- The object in a loose file. -/
def looseOid (contents : Option (List UInt8)) : Option Oid :=
  (readContents contents).toOption.bind fun s => oidOf (trim s)

/-- The lines of `packed-refs`. -/
def RefFiles.packedLines (files : RefFiles) : List String := (files.packed.map lines).getD []

/-- A loose file of exactly this name holds the object. A file whose path only decodes to the name,
with replacement characters, is another. -/
def Loose (files : RefFiles) (n : String) (oid : Oid) : Prop :=
  ∃ f ∈ files.tree.files, fullPath f.1 = asBytes n ∧ looseOid f.2 = some oid

/-- What a listing should say of the ref `n`: what the loose file has, or else what `packed-refs`
has, with its peel line. -/
def Present (files : RefFiles) (n : String) (oid : Oid) (peeled : Option Oid) : Prop :=
  (Loose files n oid ∧ peeled = none) ∨
    (∀ o, ¬ Loose files n o) ∧ packedWith directPeel n files.packedLines = some (oid, peeled)

/-- Every valid name that is present, once and in order, and nothing else. -/
structure Lists (files : RefFiles) (entries : List RefEntry) : Prop where
  sorted : entries.Pairwise fun a b => a.name.text < b.name.text
  rows : ∀ e, e ∈ entries ↔ Present files e.name.text e.oid e.peeled

/-! ### When the loop does the same -/

/-- The object of a peel line as the loop takes it, blanks trimmed. -/
def peelLine (line : String) : Option Oid :=
  if startsWith line "^" then oidOf (trim (String.ofList (line.toList.drop 1))) else none

/-- The last peel line before the next ref line. -/
def lastPeel : List String → Option Oid
  | [] => none
  | line :: rest => if (refLine line).isSome then none else (lastPeel rest).or (peelLine line)

/-- For a ref that is packed only, the last peel line before the next ref line says what a peel line
directly behind the ref's own line says. In files that git writes there is nothing in between. -/
def PeelsDirectly (files : RefFiles) : Prop :=
  ∀ before line behind name oid, files.packedLines = before ++ line :: behind →
    refLine line = some (name, oid) → (∀ l ∈ behind, ∀ o, refLine l ≠ some (name, o)) →
    (∀ f ∈ files.tree.walk, refName f.1 = name.text → looseOid f.2 = none) →
    lastPeel behind = directPeel behind

/-- A file whose path is not UTF-8 does no harm: if no file behind it in the walk takes the name
that is made of its path, the ref of that name has the file's object anyway. -/
def StraysHarmless (files : RefFiles) : Prop :=
  ∀ before f behind oid, files.tree.walk = before ++ f :: behind → ¬ IsUtf8 f.1 →
    looseOid f.2 = some oid → validRefName (refName f.1) = true →
    (∀ g ∈ behind, refName g.1 = refName f.1 → looseOid g.2 = none) →
    Present files (refName f.1) oid none

/-! ### Reading lines and files -/

theorem toOption_oid (printable : Char → Bool) (s : String) :
    (Oid.tryFrom printable s).toOption = oidOf s := by
  unfold Oid.tryFrom oidOf
  split_ifs <;> rfl

theorem toOption_name (printable : Char → Bool) (s : String) :
    (RefName.tryFrom printable s).toOption = nameOf s := by
  unfold RefName.tryFrom nameOf
  split_ifs <;> rfl

theorem oidOf_eq_some {s : String} {oid : Oid} : oidOf s = some oid ↔ s = oid.text := by
  rw [← toOption_oid fun _ => false]
  constructor
  · intro h
    cases hoid : Oid.tryFrom (fun _ => false) s with
    | error e =>
        rw [hoid] at h
        cases h
    | ok o =>
        rw [hoid] at h
        cases h
        exact Oid.tryFrom_eq_ok.mp hoid
  · rintro rfl
    rw [Oid.tryFrom_text]
    rfl

theorem nameOf_eq_some {s : String} {name : RefName} : nameOf s = some name ↔ s = name.text := by
  rw [← toOption_name fun _ => false]
  constructor
  · intro h
    cases hname : RefName.tryFrom (fun _ => false) s with
    | error e =>
        rw [hname] at h
        cases h
    | ok r =>
        rw [hname] at h
        cases h
        exact RefName.tryFrom_eq_ok.mp hname
  · rintro rfl
    rw [RefName.tryFrom_text]
    rfl

/-- A ref line is an id, a space and a name. -/
theorem refLine_eq_some {line : String} {name : RefName} {oid : Oid} :
    refLine line = some (name, oid) ↔ line = oid.text ++ " " ++ name.text := by
  unfold refLine
  constructor
  · intro h
    obtain ⟨⟨sha, rest⟩, hsplit, h⟩ := Option.bind_eq_some_iff.mp h
    obtain ⟨name', hname, h⟩ := Option.bind_eq_some_iff.mp h
    obtain ⟨oid', hoid, h⟩ := Option.map_eq_some_iff.mp h
    cases h
    have hsha : sha = oid.text := oidOf_eq_some.mp hoid
    have hrest : rest = name.text := nameOf_eq_some.mp hname
    rw [splitOnce_eq_some hsplit, hsha, hrest]
    rfl
  · rintro rfl
    have hspace : ' ' ∉ oid.text.toList := oid.not_mem_text (by decide)
    rw [splitOnce_append name.text rfl hspace]
    simp [nameOf_eq_some.mpr rfl, oidOf_eq_some.mpr rfl]

theorem splitOnce_of_refLine {line : String} {name : RefName} {oid : Oid}
    (h : refLine line = some (name, oid)) : splitOnce line ' ' = some (oid.text, name.text) := by
  have hspace : ' ' ∉ oid.text.toList := oid.not_mem_text (by decide)
  rw [refLine_eq_some.mp h, splitOnce_append name.text rfl hspace]

theorem startsWith_one {line pat : String} {c : Char} (hpat : pat.toList = [c]) :
    startsWith line pat = true ↔ line.toList.head? = some c := by
  unfold startsWith
  rw [hpat]
  cases line.toList with
  | nil => simp
  | cons d rest =>
      simp only [List.isPrefixOf, Bool.and_true, beq_iff_eq, List.head?_cons, Option.some.injEq]
      exact eq_comm

/-- A ref line begins with a digit. -/
theorem startsWith_refLine {line : String} {name : RefName} {oid : Oid}
    (h : refLine line = some (name, oid)) {pat : String} {c : Char} (hpat : pat.toList = [c])
    (hc : isOidChar c = false) : startsWith line pat = false := by
  rw [Bool.eq_false_iff]
  intro hstarts
  have hhead := (startsWith_one hpat).mp hstarts
  rw [refLine_eq_some.mp h, String.toList_append, String.toList_append, List.append_assoc] at hhead
  cases hoid : oid.text.toList with
  | nil => exact oid.toList_ne_nil hoid
  | cons d rest =>
      rw [hoid] at hhead
      obtain rfl : d = c := Option.some.inj hhead
      apply oid.not_mem_text hc
      rw [hoid]
      exact List.mem_cons_self

/-! ### One line of `packed-refs` -/

/-- The line of a ref is not skipped, and is cut into its two fields. -/
theorem reads_of_refLine {line : String} {name : RefName} {oid : Oid}
    (h : refLine line = some (name, oid)) :
    line.isEmpty = false ∧ startsWith line "#" = false ∧ startsWith line "^" = false ∧
      splitOnce line ' ' = some (oid.text, name.text) := by
  have hsplit := splitOnce_of_refLine h
  refine ⟨?_, startsWith_refLine h (by decide : "#".toList = ['#']) (by decide),
    startsWith_refLine h (by decide : "^".toList = ['^']) (by decide), hsplit⟩
  rw [Bool.eq_false_iff]
  intro hempty
  rw [String.isEmpty_iff.mp hempty] at hsplit
  revert hsplit
  exact nofun

theorem packedLine_ref (printable : Char → Bool) (byName : RefTable) (lastName : Option String)
    {line : String} {name : RefName} {oid : Oid} (h : refLine line = some (name, oid)) :
    packedLine printable (byName, lastName) line =
      (byName.replace ⟨name, oid, none⟩, some name.text) := by
  obtain ⟨hsome, hhash, hcaret, hsplit⟩ := reads_of_refLine h
  unfold packedLine
  simp only [hsome, hhash, hcaret, Bool.or_self, Bool.false_eq_true, if_false, hsplit,
    RefName.tryFrom_text, Oid.tryFrom_text]

theorem startsWith_of_peelLine {line : String} {peel : Oid} (h : peelLine line = some peel) :
    startsWith line "^" = true := by
  unfold peelLine at h
  split_ifs at h with hcaret
  exact hcaret

/-- A peel line goes to the ref seen last. -/
theorem packedLine_peel (printable : Char → Bool) (byName : RefTable) (n : String)
    {line : String} {peel : Oid} (h : peelLine line = some peel) :
    packedLine printable (byName, some n) line =
      (byName.update (fun e => e.key == n) (fun e => { e with peeled := some peel })
        (fun _ => rfl), some n) := by
  have hcaret := startsWith_of_peelLine h
  have hhead := (startsWith_one (by decide : "^".toList = ['^'])).mp hcaret
  have hhash : startsWith line "#" = false := by
    rw [Bool.eq_false_iff]
    intro hhash
    rw [(startsWith_one (by decide : "#".toList = ['#'])).mp hhash] at hhead
    revert hhead
    decide
  have hsome : line.isEmpty = false := by
    rw [Bool.eq_false_iff]
    intro hempty
    rw [String.isEmpty_iff.mp hempty] at hhead
    cases hhead
  have hpeel : Oid.tryFrom printable (trim (String.ofList (line.toList.drop 1))) = .ok peel := by
    unfold peelLine at h
    rw [if_pos hcaret] at h
    rw [oidOf_eq_some.mp h, Oid.tryFrom_text]
  unfold packedLine
  simp only [hsome, hhash, hcaret, Bool.or_self, Bool.false_eq_true, if_false, if_true, hpeel]

/-- Every other line is skipped. -/
theorem packedLine_skip (printable : Char → Bool) (byName : RefTable) (lastName : Option String)
    {line : String} (h : refLine line = none) (hpeel : lastName = none ∨ peelLine line = none) :
    packedLine printable (byName, lastName) line = (byName, lastName) := by
  unfold packedLine
  dsimp only
  split_ifs with hskip hcaret
  · rfl
  · split
    · rename_i n peel hoid
      rcases hpeel with hnone | hnone
      · cases hnone
      · unfold peelLine at hnone
        rw [if_pos hcaret, ← toOption_oid printable, hoid] at hnone
        cases hnone
    · rfl
  · split
    · rfl
    · rename_i sha name hsplit
      split
      · rename_i nameTyped oid hname hoid
        unfold refLine at h
        rw [hsplit, Option.bind_some, ← toOption_name printable, ← toOption_oid printable, hname,
          hoid] at h
        cases h
      · rfl

/-! ### The whole file -/

theorem packedWith_eq_some {peel : List String → Option Oid} {n : String} {ls : List String}
    {oid : Oid} {peeled : Option Oid} (h : packedWith peel n ls = some (oid, peeled)) :
    ∃ before line behind name, ls = before ++ line :: behind ∧ refLine line = some (name, oid) ∧
      name.text = n ∧ packedWith peel n behind = none ∧ peeled = peel behind := by
  induction ls with
  | nil => cases h
  | cons line rest ih =>
      rw [packedWith] at h
      cases hrest : packedWith peel n rest with
      | some found =>
          rw [hrest, Option.some_or] at h
          obtain ⟨before, l, behind, name, rfl, hl⟩ := ih (hrest.trans h)
          exact ⟨line :: before, l, behind, name, rfl, hl⟩
      | none =>
          rw [hrest, Option.none_or] at h
          obtain ⟨⟨name, o⟩, hline, h⟩ := Option.bind_eq_some_iff.mp h
          split_ifs at h with hname
          cases h
          exact ⟨[], line, rest, name, rfl, hline, hname, hrest, rfl⟩

/-- No line gives the name an object. -/
theorem packedWith_eq_none {peel : List String → Option Oid} {n : String} {ls : List String} :
    packedWith peel n ls = none ↔
      ∀ l ∈ ls, ∀ name oid, refLine l = some (name, oid) → name.text ≠ n := by
  induction ls with
  | nil => simp [packedWith]
  | cons line rest ih =>
      rw [packedWith, Option.or_eq_none_iff, ih, List.forall_mem_cons, and_comm]
      refine and_congr_left fun _ => ?_
      cases hline : refLine line with
      | none => simp
      | some r =>
          obtain ⟨name, oid⟩ := r
          simp only [Option.bind_some, Option.some.injEq, Prod.mk.injEq]
          constructor
          · rintro h name' oid' ⟨rfl, rfl⟩ heq
            rw [if_pos heq] at h
            cases h
          · intro h
            exact if_neg (h name oid ⟨rfl, rfl⟩)

theorem packedWith_cut {peel : List String → Option Oid} {n : String} (before : List String)
    {line : String} {behind : List String} {name : RefName} {oid : Oid}
    (hline : refLine line = some (name, oid)) (hname : name.text = n)
    (hlast : packedWith peel n behind = none) :
    packedWith peel n (before ++ line :: behind) = some (oid, peel behind) := by
  induction before with
  | nil => simp [packedWith, hline, hname, hlast]
  | cons l before ih =>
      rw [List.cons_append, packedWith, ih]
      rfl

/-- What the loop does to the peel of the ref seen last. -/
def repeel (lastName : Option String) (n : String) (ls : List String) (peeled : Option Oid) :
    Option Oid :=
  if lastName = some n then (lastPeel ls).or peeled else peeled

theorem lastPeel_of_ref {line : String} {r : RefName × Oid} (rest : List String)
    (h : refLine line = some r) : lastPeel (line :: rest) = none := by
  rw [lastPeel, h]
  rfl

theorem lastPeel_of_none {line : String} (rest : List String) (h : refLine line = none) :
    lastPeel (line :: rest) = (lastPeel rest).or (peelLine line) := by
  rw [lastPeel, h]
  rfl

/-- The line of the ref itself starts its row anew. -/
theorem exists_replace_own {byName : RefTable} {name : RefName} {oid : Oid} {e : RefEntry}
    (h : name.text = e.key) (g : Option Oid → Option Oid) :
    (∃ old ∈ byName.replace ⟨name, oid, none⟩, old.name = e.name ∧ old.oid = e.oid ∧
        e.peeled = g old.peeled) ↔ oid = e.oid ∧ e.peeled = g none := by
  simp only [Table.mem_replace]
  constructor
  · rintro ⟨old, ⟨-, hother⟩ | rfl, hsame, hoid, hpeeled⟩
    · refine absurd ?_ hother
      show old.name.text = name.text
      rw [hsame, h]
      rfl
    · exact ⟨hoid, hpeeled⟩
  · rintro ⟨hoid, hpeeled⟩
    exact ⟨_, Or.inr rfl, RefName.ext h, hoid, hpeeled⟩

/-- The line of another ref leaves the row as it was. -/
theorem exists_replace_other {byName : RefTable} {name : RefName} {oid : Oid} {e : RefEntry}
    (h : name.text ≠ e.key) (g : Option Oid → Option Oid) :
    (∃ old ∈ byName.replace ⟨name, oid, none⟩, old.name = e.name ∧ old.oid = e.oid ∧
        e.peeled = g old.peeled) ↔
      ∃ old ∈ byName, old.name = e.name ∧ old.oid = e.oid ∧ e.peeled = g old.peeled := by
  simp only [Table.mem_replace]
  constructor
  · rintro ⟨old, ⟨hold, -⟩ | rfl, hsame, hrow⟩
    · exact ⟨old, hold, hsame, hrow⟩
    · exact absurd (congrArg RefName.text hsame) h
  · rintro ⟨old, hold, hsame, hrow⟩
    refine ⟨old, Or.inl ⟨hold, ?_⟩, hsame, hrow⟩
    intro heq
    apply h
    exact heq.symm.trans (congrArg RefName.text hsame)

/-- A peel line counts for the ref seen last, unless another one follows. -/
theorem exists_update_peel {byName : RefTable} {line n : String} {peel : Oid} {e : RefEntry}
    (rest : List String) (hline : refLine line = none) (hpeel : peelLine line = some peel) :
    (∃ new ∈ byName.update (fun e => e.key == n) (fun e => { e with peeled := some peel })
        (fun _ => rfl), new.name = e.name ∧ new.oid = e.oid ∧
          e.peeled = repeel (some n) e.key rest new.peeled) ↔
      ∃ old ∈ byName, old.name = e.name ∧ old.oid = e.oid ∧
        e.peeled = repeel (some n) e.key (line :: rest) old.peeled := by
  have hsame : ∀ old : RefEntry, old.name = e.name →
      repeel (some n) e.key rest
          (if old.key == n then { old with peeled := some peel } else old).peeled =
        repeel (some n) e.key (line :: rest) old.peeled := by
    intro old hname
    have hkey : old.key = e.key := congrArg RefName.text hname
    unfold repeel
    rw [hkey, lastPeel_of_none rest hline, hpeel]
    by_cases hn : n = e.key
    · subst hn
      simp
    · have hother : (e.key == n) = false := beq_false_of_ne fun h => hn h.symm
      rw [hother, if_neg fun h => hn (Option.some.inj h), if_neg fun h => hn (Option.some.inj h)]
      rfl
  have hfield : ∀ old : RefEntry,
      (if old.key == n then { old with peeled := some peel } else old).name = old.name ∧
        (if old.key == n then { old with peeled := some peel } else old).oid = old.oid := by
    intro old
    split_ifs <;> exact ⟨rfl, rfl⟩
  constructor
  · rintro ⟨new, hnew, hname, hoid, hpeeled⟩
    obtain ⟨old, hold, rfl⟩ := (Table.mem_update _).mp hnew
    have hname' : old.name = e.name := (hfield old).1.symm.trans hname
    exact ⟨old, hold, hname', (hfield old).2.symm.trans hoid, hpeeled.trans (hsame old hname')⟩
  · rintro ⟨old, hold, hname, hoid, hpeeled⟩
    exact ⟨_, (Table.mem_update _).mpr ⟨old, hold, rfl⟩, (hfield old).1.trans hname,
      (hfield old).2.trans hoid, hpeeled.trans (hsame old hname).symm⟩

/-- **The map after the lines.** A name that a line gives an object has the last one, with
the last peel behind it; the others are as they were, but for the peel of the ref seen last. -/
theorem mem_foldl_packed (printable : Char → Bool) (ls : List String) (byName : RefTable)
    (lastName : Option String) (e : RefEntry) :
    e ∈ (ls.foldl (packedLine printable) (byName, lastName)).1 ↔
      packedWith lastPeel e.key ls = some (e.oid, e.peeled) ∨
        packedWith lastPeel e.key ls = none ∧ ∃ old ∈ byName, old.name = e.name ∧ old.oid = e.oid ∧
          e.peeled = repeel lastName e.key ls old.peeled := by
  induction ls generalizing byName lastName with
  | nil =>
      show e ∈ byName ↔ _
      have hsame : ∀ peeled, repeel lastName e.key [] peeled = peeled := by
        intro peeled
        unfold repeel
        split_ifs <;> rfl
      simp only [packedWith, reduceCtorEq, false_or, true_and, hsame]
      constructor
      · exact fun he => ⟨e, he, rfl, rfl, rfl⟩
      · rintro ⟨old, hold, hname, hoid, hpeeled⟩
        obtain rfl : old = e := by
          cases old
          cases e
          cases hname
          cases hoid
          cases hpeeled
          rfl
        exact hold
  | cons line rest ih =>
      rw [List.foldl_cons]
      cases hline : refLine line with
      | some r =>
          obtain ⟨name, oid⟩ := r
          have hcons : packedWith lastPeel e.key (line :: rest) =
              (packedWith lastPeel e.key rest).or
                (if name.text = e.key then some (oid, lastPeel rest) else none) := by
            rw [packedWith, hline, Option.bind_some]
          -- a later line of the same name wins, so the rest is asked first
          rw [packedLine_ref printable byName lastName hline, ih, hcons]
          cases packedWith lastPeel e.key rest with
          | some found => simp
          | none =>
              rw [Option.none_or]
              by_cases hname : name.text = e.key
              · rw [if_pos hname, exists_replace_own hname, repeel, if_pos (congrArg some hname),
                  Option.or_none]
                simp [eq_comm]
              · -- the peels behind the line are not those of `e`
                have hkeep : ∀ peeled, repeel lastName e.key (line :: rest) peeled =
                    repeel (some name.text) e.key rest peeled := by
                  intro peeled
                  unfold repeel
                  rw [lastPeel_of_ref rest hline, Option.none_or, ite_self,
                    if_neg fun h => hname (Option.some.inj h)]
                simp only [if_neg hname, exists_replace_other hname, hkeep]
      | none =>
          have hcons : packedWith lastPeel e.key (line :: rest) =
              packedWith lastPeel e.key rest := by
            rw [packedWith, hline, Option.bind_none, Option.or_none]
          rw [hcons]
          by_cases hskip : lastName = none ∨ peelLine line = none
          · rw [packedLine_skip printable byName lastName hline hskip, ih]
            have hsame : ∀ peeled, repeel lastName e.key (line :: rest) peeled =
                repeel lastName e.key rest peeled := by
              intro peeled
              unfold repeel
              rcases hskip with hnone | hnone
              · simp [hnone]
              · rw [lastPeel_of_none rest hline, hnone, Option.or_none]
            simp only [hsame]
          · obtain ⟨hsome, hpeel⟩ := not_or.mp hskip
            obtain ⟨n, rfl⟩ := Option.ne_none_iff_exists'.mp hsome
            obtain ⟨peel, hpeel⟩ := Option.ne_none_iff_exists'.mp hpeel
            rw [packedLine_peel printable byName n hpeel, ih, exists_update_peel rest hline hpeel]

theorem packedWith_none_iff {peel peel' : List String → Option Oid} {n : String} {ls : List String} :
    packedWith peel n ls = none ↔ packedWith peel' n ls = none :=
  packedWith_eq_none.trans packedWith_eq_none.symm

/-- The object does not hang on the peels. -/
theorem packedWith_oid {peel peel' : List String → Option Oid} {n : String} {ls : List String}
    {oid : Oid} {peeled : Option Oid} (h : packedWith peel n ls = some (oid, peeled)) :
    ∃ peeled', packedWith peel' n ls = some (oid, peeled') := by
  obtain ⟨before, line, behind, name, rfl, hline, hname, hlast, -⟩ := packedWith_eq_some h
  exact ⟨peel' behind, packedWith_cut before hline hname (packedWith_none_iff.mp hlast)⟩

/-! ### The walk -/

/-- The object that the walk leaves for a name: the last file that takes it counts. -/
def lastLoose (n : String) : List LooseFile → Option Oid
  | [] => none
  | f :: rest => (lastLoose n rest).or (if refName f.1 = n then looseOid f.2 else none)

theorem lastLoose_eq_none {n : String} {fs : List LooseFile} :
    lastLoose n fs = none ↔ ∀ f ∈ fs, refName f.1 = n → looseOid f.2 = none := by
  induction fs with
  | nil => simp [lastLoose]
  | cons f fs ih => rw [lastLoose, Option.or_eq_none_iff, ih, List.forall_mem_cons, and_comm,
      ite_eq_right_iff]

theorem lastLoose_eq_some {n : String} {fs : List LooseFile} {oid : Oid} :
    lastLoose n fs = some oid ↔ ∃ before f behind, fs = before ++ f :: behind ∧ refName f.1 = n ∧
      looseOid f.2 = some oid ∧ lastLoose n behind = none := by
  constructor
  · intro h
    induction fs with
    | nil => cases h
    | cons f fs ih =>
        rw [lastLoose] at h
        cases hrest : lastLoose n fs with
        | some o =>
            rw [hrest, Option.some_or] at h
            obtain ⟨before, g, behind, rfl, hg⟩ := ih (hrest.trans h)
            exact ⟨f :: before, g, behind, rfl, hg⟩
        | none =>
            rw [hrest, Option.none_or] at h
            split_ifs at h with hname
            exact ⟨[], f, fs, rfl, hname, h, hrest⟩
  · rintro ⟨before, f, behind, rfl, hname, hoid, hlast⟩
    induction before with
    | nil => simp [lastLoose, hname, hoid, hlast]
    | cons g before ih =>
        rw [List.cons_append, lastLoose, ih]
        rfl

/-- One loose file. -/
theorem looseFile_eq (printable : Char → Bool) (byName : RefTable) (f : LooseFile) :
    looseFile printable byName (refName f.1, (readContents f.2).toOption) =
      ((looseOid f.2).bind fun oid => (nameOf (refName f.1)).map fun name =>
        byName.replace ⟨name, oid, none⟩).getD byName := by
  unfold looseFile looseOid
  cases (readContents f.2).toOption with
  | none => rfl
  | some s =>
      rw [Option.bind_some, ← toOption_oid printable, ← toOption_name printable]
      dsimp only
      cases Oid.tryFrom printable (trim s) with
      | error e => rfl
      | ok oid =>
          cases RefName.tryFrom printable (refName f.1) with
          | error e => rfl
          | ok name => rfl

/-- **The map after the walk.** A name that the walk comes upon has the object of the last
file that takes it, and no peel. -/
theorem mem_foldl_loose (printable : Char → Bool) (fs : List LooseFile) (byName : RefTable)
    (e : RefEntry) :
    e ∈ (fs.map fun f => (refName f.1, (readContents f.2).toOption)).foldl
        (looseFile printable) byName ↔
      lastLoose e.key fs = some e.oid ∧ e.peeled = none ∨
        lastLoose e.key fs = none ∧ e ∈ byName := by
  induction fs generalizing byName with
  | nil => simp [lastLoose]
  | cons f fs ih =>
      rw [List.map_cons, List.foldl_cons, ih, looseFile_eq, lastLoose]
      -- a later file of the same name replaces the entry
      cases hrest : lastLoose e.key fs with
      | some oid => simp
      | none =>
          simp only [reduceCtorEq, false_and, true_and, false_or, Option.none_or]
          cases hoid : looseOid f.2 with
          | none => simp
          | some oid =>
              cases hname : nameOf (refName f.1) with
              | none =>
                  have hother : refName f.1 ≠ e.key := by
                    intro h
                    rw [h, RefEntry.key, nameOf_eq_some.mpr rfl] at hname
                    cases hname
                  simp [if_neg hother]
              | some name =>
                  have hname := nameOf_eq_some.mp hname
                  rw [hname]
                  show e ∈ byName.replace ⟨name, oid, none⟩ ↔ _
                  by_cases hkey : name.text = e.key
                  · simp only [if_pos hkey, Option.some.injEq, reduceCtorEq, false_and, or_false,
                      Table.mem_replace]
                    constructor
                    · rintro (⟨-, hother⟩ | rfl)
                      · exact absurd hkey.symm hother
                      · exact ⟨rfl, rfl⟩
                    · rintro ⟨rfl, hpeeled⟩
                      right
                      obtain ⟨ename, eoid, epeeled⟩ := e
                      obtain rfl : epeeled = none := hpeeled
                      obtain rfl : name = ename := RefName.ext hkey
                      rfl
                  · simp only [if_neg hkey, reduceCtorEq, false_and, false_or, true_and,
                      Table.mem_replace]
                    constructor
                    · rintro (⟨he, -⟩ | rfl)
                      · exact he
                      · exact absurd rfl hkey
                    · exact fun he => Or.inl ⟨he, fun h => hkey h.symm⟩

/-- The two loops, over the lines and over the files. -/
theorem enumerateRefs_eq (printable : Char → Bool) (files : RefFiles) :
    enumerateRefs printable files.gitDir =
      sortByName ((files.tree.walk.map fun f => (refName f.1, (readContents f.2).toOption)).foldl
        (looseFile printable)
        (files.packedLines.foldl (packedLine printable) (Table.empty, none)).1).rows := by
  have hread : files.gitDir.readToString "packed-refs" =
      readContents (files.packed.map asBytes) := rfl
  unfold enumerateRefs
  rw [hread]
  unfold RefFiles.packedLines
  cases files.packed with
  | none => rfl
  | some text =>
      rw [Option.map_some, readContents_asBytes]
      rfl

/-- **What the two loops list.** -/
theorem mem_enumerateRefs (printable : Char → Bool) (files : RefFiles) (e : RefEntry) :
    e ∈ enumerateRefs printable files.gitDir ↔
      lastLoose e.key files.tree.walk = some e.oid ∧ e.peeled = none ∨
        lastLoose e.key files.tree.walk = none ∧
          packedWith lastPeel e.key files.packedLines = some (e.oid, e.peeled) := by
  have hempty : ¬ ∃ old ∈ (Table.empty : RefTable), old.name = e.name ∧ old.oid = e.oid ∧
      e.peeled = repeel none e.key files.packedLines old.peeled := by
    rintro ⟨old, hold, -⟩
    cases hold
  have hpacked := mem_foldl_packed printable files.packedLines Table.empty none e
  rw [or_iff_left fun h => hempty h.2] at hpacked
  rw [enumerateRefs_eq, mem_sortByName, ← Table.mem_def, mem_foldl_loose, hpacked]

/-! ### The listing -/

theorem loose_iff {files : RefFiles} {n : String} {oid : Oid} :
    Loose files n oid ↔
      ∃ f ∈ files.tree.walk, IsUtf8 f.1 ∧ refName f.1 = n ∧ looseOid f.2 = some oid := by
  unfold Loose
  simp only [fullPath_eq_iff, and_assoc, files.tree.walk_perm.mem_iff]

theorem Loose.unique {files : RefFiles} {n : String} {oid oid' : Oid} (h : Loose files n oid)
    (h' : Loose files n oid') : oid = oid' := by
  obtain ⟨f, hf, hpath, hoid⟩ := h
  obtain ⟨f', hf', hpath', hoid'⟩ := h'
  have hsame : f = f' := List.inj_on_of_nodup_map (Dir.files_distinct files.distinct) hf hf'
    (fullPath_inj (hpath.trans hpath'.symm))
  subst hsame
  exact Option.some.inj (hoid.symm.trans hoid')

theorem Present.unique {files : RefFiles} {n : String} {oid oid' : Oid} {peeled peeled' : Option Oid}
    (h : Present files n oid peeled) (h' : Present files n oid' peeled') :
    oid = oid' ∧ peeled = peeled' := by
  rcases h with ⟨h, rfl⟩ | ⟨hno, h⟩
  · rcases h' with ⟨h', rfl⟩ | ⟨hno', -⟩
    · exact ⟨h.unique h', rfl⟩
    · exact absurd h (hno' oid)
  · rcases h' with ⟨h', -⟩ | ⟨-, h'⟩
    · exact absurd h' (hno oid')
    · exact Prod.mk.inj (Option.some.inj (h.symm.trans h'))

/-- Without a file that takes the name, the ref is the packed one. -/
theorem present_iff_packed {files : RefFiles} {n : String} {oid : Oid} {peeled : Option Oid}
    (h : lastLoose n files.tree.walk = none) :
    Present files n oid peeled ↔ packedWith directPeel n files.packedLines = some (oid, peeled) := by
  have hno : ∀ o, ¬ Loose files n o := by
    intro o hloose
    obtain ⟨f, hf, -, hname, hoid⟩ := loose_iff.mp hloose
    rw [lastLoose_eq_none.mp h f hf hname] at hoid
    cases hoid
  unfold Present
  constructor
  · rintro (⟨hloose, -⟩ | ⟨-, hpacked⟩)
    · exact absurd hloose (hno oid)
    · exact hpacked
  · exact fun hpacked => Or.inr ⟨hno, hpacked⟩

theorem enumerateRefs_sorted (printable : Char → Bool) (dir : GitDir) :
    (enumerateRefs printable dir).Pairwise fun a b => a.name.text < b.name.text :=
  sortByName_pairwise (Table.distinct _)

/-- The walk gives a name what it should have, if the strays do no harm. -/
theorem present_of_lastLoose {files : RefFiles} (hstrays : StraysHarmless files) {name : RefName}
    {oid : Oid} (h : lastLoose name.text files.tree.walk = some oid) :
    Present files name.text oid none := by
  obtain ⟨before, f, behind, hwalk, hname, hoid, hlast⟩ := lastLoose_eq_some.mp h
  by_cases hutf8 : IsUtf8 f.1
  · have hf : f ∈ files.tree.walk := by
      rw [hwalk]
      simp
    exact Or.inl ⟨loose_iff.mpr ⟨f, hf, hutf8, hname, hoid⟩, rfl⟩
  · have hvalid : validRefName (refName f.1) = true := hname ▸ name.valid
    have hpresent := hstrays before f behind oid hwalk hutf8 hoid hvalid fun g hg hsame =>
      lastLoose_eq_none.mp hlast g hg (hsame.trans hname)
    rwa [hname] at hpresent

/-- The lines give a name what it should have, if the peels stand directly. -/
theorem packedWith_lastPeel {files : RefFiles} (hpeels : PeelsDirectly files) {n : String}
    (h : lastLoose n files.tree.walk = none) :
    packedWith lastPeel n files.packedLines = packedWith directPeel n files.packedLines := by
  cases hdirect : packedWith directPeel n files.packedLines with
  | none => exact packedWith_none_iff.mp hdirect
  | some found =>
      obtain ⟨oid, peeled⟩ := found
      obtain ⟨before, line, behind, name, hlines, hline, rfl, hlast, rfl⟩ :=
        packedWith_eq_some hdirect
      have hlater : ∀ l ∈ behind, ∀ o, refLine l ≠ some (name, o) := by
        intro l hl o hrow
        exact packedWith_eq_none.mp hlast l hl name o hrow rfl
      rw [hlines, packedWith_cut before hline rfl (packedWith_none_iff.mp hlast),
        hpeels before line behind name oid hlines hline hlater (lastLoose_eq_none.mp h)]

/-- **The listing.** `enumerate_refs` lists every ref with its value and its peel exactly when the
strays do no harm and the peels that it takes stand directly behind their refs. The files are any:
`packed-refs` with any lines in any order, and paths below `refs/` of any bytes. -/
theorem enumerateRefs_lists_iff (printable : Char → Bool) (files : RefFiles) :
    Lists files (enumerateRefs printable files.gitDir) ↔
      StraysHarmless files ∧ PeelsDirectly files := by
  constructor
  · rintro ⟨-, hrows⟩
    constructor
    · intro before f behind oid hwalk _ hoid hvalid hlast
      have hloose : lastLoose (refName f.1) files.tree.walk = some oid :=
        lastLoose_eq_some.mpr ⟨before, f, behind, hwalk, rfl, hoid, lastLoose_eq_none.mpr hlast⟩
      exact (hrows ⟨⟨refName f.1, hvalid⟩, oid, none⟩).mp
        ((mem_enumerateRefs printable files _).mpr (Or.inl ⟨hloose, rfl⟩))
    · intro before line behind name oid hlines hline hlater hwalk
      have hloose : lastLoose name.text files.tree.walk = none := lastLoose_eq_none.mpr hwalk
      have hlast : ∀ peel, packedWith peel name.text behind = none := by
        intro peel
        refine packedWith_eq_none.mpr fun l hl name' o hrow htext => ?_
        obtain rfl : name' = name := RefName.ext htext
        exact hlater l hl o hrow
      have hcut : ∀ peel, packedWith peel name.text files.packedLines = some (oid, peel behind) := by
        intro peel
        rw [hlines]
        exact packedWith_cut before hline rfl (hlast peel)
      have hpresent := (hrows ⟨name, oid, lastPeel behind⟩).mp
        ((mem_enumerateRefs printable files _).mpr (Or.inr ⟨hloose, hcut lastPeel⟩))
      have hdirect := (present_iff_packed hloose).mp hpresent
      rw [hcut directPeel] at hdirect
      exact (Prod.mk.inj (Option.some.inj hdirect)).2.symm
  · rintro ⟨hstrays, hpeels⟩
    refine ⟨enumerateRefs_sorted printable _, fun e => ?_⟩
    rw [mem_enumerateRefs]
    cases hloose : lastLoose e.key files.tree.walk with
    | none =>
        rw [packedWith_lastPeel hpeels hloose, ← RefEntry.key, present_iff_packed hloose]
        simp
    | some oid =>
        have hpresent := present_of_lastLoose hstrays hloose
        constructor
        · rintro (⟨hoid, hpeeled⟩ | ⟨hno, -⟩)
          · rw [hpeeled, ← Option.some.inj hoid]
            exact hpresent
          · cases hno
        · intro he
          obtain ⟨hoid, hpeeled⟩ := hpresent.unique he
          exact Or.inl ⟨congrArg some hoid, hpeeled.symm⟩

/-- A tag under a name that git takes and `RefName` refuses, behind a tag without a peel. -/
def refusedTag : RefFiles where
  head := none
  packed := some ("5555555555555555555555555555555555555555 refs/tags/v1.1\n" ++
    "6666666666666666666666666666666666666666 refs/tags/v1.2/-rc\n" ++
    "^7777777777777777777777777777777777777777\n")
  tree := .empty
  distinct := Dir.distinct_empty

theorem refusedTag_lines : refusedTag.packedLines =
    ["5555555555555555555555555555555555555555 refs/tags/v1.1",
      "6666666666666666666666666666666666666666 refs/tags/v1.2/-rc",
      "^7777777777777777777777777777777777777777"] := by
  decide +kernel

/-- The peel of the refused tag goes to the tag listed before it. -/
theorem refusedTag_peels :
    ¬ Lists refusedTag (enumerateRefs (fun _ => false) refusedTag.gitDir) := by
  rintro ⟨-, hrows⟩
  have hlisted := (mem_enumerateRefs (fun _ => false) refusedTag
    ⟨⟨"refs/tags/v1.1", by decide +kernel⟩, ⟨"5555555555555555555555555555555555555555", by decide⟩,
      some ⟨"7777777777777777777777777777777777777777", by decide⟩⟩).mpr
    (Or.inr ⟨rfl, by rw [refusedTag_lines]; decide +kernel⟩)
  have hpacked := (present_iff_packed rfl).mp ((hrows _).mp hlisted)
  rw [refusedTag_lines] at hpacked
  revert hpacked
  decide +kernel

end Refs
end Artifacts
