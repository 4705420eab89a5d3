import Artifacts.Foundation.WebUrl

/-!
# Two notations of an address

`IpAddr::from_str` is strict, the rules of URLs are not.  Of IPv6 both read the same texts
as the same addresses; of IPv4 the strict notation is one of many that a URL may use.

* `parseIpAddr` is the strict reader, `parseHost` the one of URLs.
* `ipv6Pieces_cons` goes through an IPv6 text once for both readers.
* `DottedQuad` is the strict notation of IPv4, as a condition on the text.

That the many notations lead to the same address is not said for each of them, only what the two
readers make of one text.
-/

namespace Artifacts
namespace Web

open Rust

/-! ### Digits -/

theorem isAsciiDigit_iff {c : Char} : isAsciiDigit c = true ↔ 48 ≤ c.toNat ∧ c.toNat ≤ 57 := by
  unfold isAsciiDigit
  exact decide_eq_true_iff

theorem toDigit_of_isAsciiDigit {c : Char} (h : isAsciiDigit c = true) :
    toDigit 10 c = some (c.toNat - 48) := by
  have hle := (isAsciiDigit_iff.mp h).2
  unfold toDigit toDigit16
  rw [if_pos h]
  exact Option.filter_eq_some_iff.mpr ⟨rfl, by simp; omega⟩

theorem isDigit_ten (c : Char) : isDigit 10 c = isAsciiDigit c := by
  by_cases h : isAsciiDigit c = true
  · unfold isDigit
    rw [toDigit_of_isAsciiDigit h, h]
    rfl
  · unfold isDigit toDigit toDigit16
    rw [if_neg h, Bool.eq_false_iff.mpr h]
    split
    · rw [Option.filter_some, if_neg (by simp)]
      rfl
    · split
      · rw [Option.filter_some, if_neg (by simp)]
        rfl
      · rfl

theorem toDigit_lt {radix : Nat} {c : Char} (h : isDigit radix c = true) :
    (toDigit radix c).getD 0 < radix := by
  unfold isDigit toDigit at h
  unfold toDigit
  obtain ⟨d, hd⟩ := Option.isSome_iff_exists.mp h
  rw [hd, Option.getD_some]
  simpa using (Option.filter_eq_some_iff.mp hd).2

theorem digitsValue_append (radix : Nat) (ds : List Char) (c : Char) :
    digitsValue radix (ds ++ [c]) = digitsValue radix ds * radix + (toDigit radix c).getD 0 := by
  unfold digitsValue
  rw [List.foldl_append]
  rfl

/-- A number has less than as many digits. -/
theorem digitsValue_lt {radix : Nat} {ds : List Char} (h : ∀ c ∈ ds, isDigit radix c = true) :
    digitsValue radix ds < radix ^ ds.length := by
  induction ds using List.reverseRecOn with
  | nil => exact Nat.one_pos
  | append_singleton ds c ih =>
      have hds := ih fun c' hc' => h c' (List.mem_append_left _ hc')
      have hc := toDigit_lt (h c (by simp))
      rw [digitsValue_append, List.length_append, List.length_singleton, Nat.pow_succ]
      calc digitsValue radix ds * radix + (toDigit radix c).getD 0
          < digitsValue radix ds * radix + radix := by omega
        _ = (digitsValue radix ds + 1) * radix := by rw [Nat.add_mul, Nat.one_mul]
        _ ≤ radix ^ ds.length * radix := Nat.mul_le_mul_right _ hds

/-- A first digit that is not zero counts in full. -/
theorem le_digitsValue {radix : Nat} {c : Char} (ds : List Char)
    (hc : 1 ≤ (toDigit radix c).getD 0) : radix ^ ds.length ≤ digitsValue radix (c :: ds) := by
  induction ds using List.reverseRecOn with
  | nil =>
      unfold digitsValue
      simpa using hc
  | append_singleton ds c' ih =>
      rw [← List.cons_append, digitsValue_append, List.length_append, List.length_singleton,
        Nat.pow_succ]
      exact Nat.le_add_right_of_le (Nat.mul_le_mul_right _ ih)

/-! ### Reading numbers -/

/-- What digits in front of something else are read as. -/
theorem readNumber_append (radix maxDigits bound : Nat) (zero : Bool) {ds rest : List Char}
    (hds : ∀ c ∈ ds, isDigit radix c = true) (hne : ds ≠ [])
    (hrest : ∀ c ∈ rest.head?, isDigit radix c = false) (hlength : ds.length ≤ maxDigits)
    (hzero : zero = true ∨ ds.head? ≠ some '0' ∨ ds.length ≤ 1)
    (hbound : digitsValue radix ds < bound) :
    readNumber radix maxDigits zero bound (ds ++ rest) = some (digitsValue radix ds, rest) := by
  have htake : (ds ++ rest).takeWhile (isDigit radix) = ds := by
    rw [List.takeWhile_append_of_pos hds]
    cases rest with
    | nil => simp
    | cons c rest => rw [List.takeWhile_cons, hrest c rfl]; simp
  have hdrop : (ds ++ rest).dropWhile (isDigit radix) = rest := by
    rw [List.dropWhile_append_of_pos hds]
    cases rest with
    | nil => rfl
    | cons c rest => rw [List.dropWhile_cons, hrest c rfl]; simp
  have hlead : (!zero && ds.head? == some '0' && decide (1 < ds.length)) = false := by
    rcases hzero with h | h | h
    · rw [h]
      rfl
    · rw [beq_eq_false_iff_ne.mpr h]
      simp
    · rw [decide_eq_false (Nat.not_lt.mpr h)]
      simp
  unfold readNumber
  dsimp only
  rw [htake, hdrop, if_neg (Nat.not_lt.mpr hlength), if_neg (by simpa using hne), hlead,
    if_neg Bool.false_ne_true, if_pos hbound]

/-- What is read as a number begins with its digits. -/
theorem readNumber_eq_some {radix maxDigits bound n : Nat} {zero : Bool} {s rest : List Char}
    (h : readNumber radix maxDigits zero bound s = some (n, rest)) :
    ∃ ds, s = ds ++ rest ∧ (∀ c ∈ ds, isDigit radix c = true) ∧ ds ≠ [] ∧
      (zero = true ∨ ds.head? ≠ some '0' ∨ ds.length ≤ 1) ∧ n = digitsValue radix ds ∧
      n < bound ∧ rest = s.dropWhile (isDigit radix) := by
  unfold readNumber at h
  dsimp only at h
  split_ifs at h with hmax hempty hlead hbound
  obtain ⟨rfl, rfl⟩ := Prod.mk.inj (Option.some.inj h)
  refine ⟨s.takeWhile (isDigit radix), List.takeWhile_append_dropWhile.symm,
    fun c hc => List.mem_takeWhile_imp hc, by simpa using hempty, ?_, rfl, hbound, rfl⟩
  by_contra hnot
  push Not at hnot
  obtain ⟨hz, hhead, hlen⟩ := hnot
  exact hlead (by rw [Bool.eq_false_iff.mpr hz, hhead]; simpa using hlen)

/-- A decimal number below 256 without leading zeros. -/
def IsOctet (ds : List Char) : Prop :=
  (∀ c ∈ ds, isDigit 10 c = true) ∧ ds ≠ [] ∧ (ds.head? ≠ some '0' ∨ ds.length ≤ 1) ∧
    digitsValue 10 ds < 256

/-- Four digits without a leading zero are too many. -/
theorem IsOctet.length_le {ds : List Char} (h : IsOctet ds) : ds.length ≤ 3 := by
  obtain ⟨hdigits, hne, hzero, hlt⟩ := h
  rcases hzero with hhead | hone
  · cases ds with
    | nil => exact absurd rfl hne
    | cons c ds =>
        have hpos : 1 ≤ (toDigit 10 c).getD 0 := by
          have hc := hdigits c List.mem_cons_self
          rw [isDigit_ten] at hc
          rw [toDigit_of_isAsciiDigit hc, Option.getD_some]
          have hge := (isAsciiDigit_iff.mp hc).1
          have hne0 : c.toNat ≠ 48 := fun heq =>
            hhead (congrArg some (Char.toNat_inj.mp (heq.trans (by rfl : (48 : Nat) = '0'.toNat))))
          omega
        have hpow := le_digitsValue ds hpos
        by_contra hlong
        rw [List.length_cons] at hlong
        have hmono : 10 ^ 3 ≤ 10 ^ ds.length := Nat.pow_le_pow_right (by decide) (by omega)
        omega
  · omega

theorem readOctet_append {ds rest : List Char} (h : IsOctet ds)
    (hrest : ∀ c ∈ rest.head?, isDigit 10 c = false) :
    readOctet (ds ++ rest) = some (digitsValue 10 ds, rest) :=
  readNumber_append 10 3 256 false h.1 h.2.1 hrest h.length_le (Or.inr h.2.2.1) h.2.2.2

/-! ### IPv6 -/

/-- The decimal numbers at the end of an IPv6 address are those of the strict parser. -/
theorem readOctet_of_ipv6Octet {s rest : List Char} {n : Nat} (h : ipv6Octet s = some (n, rest)) :
    readOctet s = some (n, rest) := by
  have hten : (isDigit 10 : Char → Bool) = isAsciiDigit := funext isDigit_ten
  unfold ipv6Octet at h
  rw [← hten] at h
  dsimp only at h
  split_ifs at h with hbad
  obtain ⟨rfl, rfl⟩ := Prod.mk.inj (Option.some.inj h)
  simp only [Bool.or_eq_true, List.isEmpty_iff, Bool.and_eq_true, beq_iff_eq, decide_eq_true_eq,
    not_or, not_and, Nat.not_lt] at hbad
  obtain ⟨⟨hne, hlead⟩, hle⟩ := hbad
  have hdigits : ∀ c ∈ s.takeWhile (isDigit 10), isDigit 10 c = true :=
    fun c hc => List.mem_takeWhile_imp hc
  have hzero : (s.takeWhile (isDigit 10)).head? ≠ some '0' ∨ (s.takeWhile (isDigit 10)).length ≤ 1 := by
    by_cases hhead : (s.takeWhile (isDigit 10)).head? = some '0'
    · exact Or.inr (hlead hhead)
    · exact Or.inl hhead
  have hrest : ∀ c ∈ (s.dropWhile (isDigit 10)).head?, isDigit 10 c = false := by
    intro c hc
    have hnot := List.head?_dropWhile_not (isDigit 10) s
    rw [hc] at hnot
    exact Bool.eq_false_iff.mpr (by simpa using hnot)
  have hread := readOctet_append ⟨hdigits, hne, hzero, Nat.lt_succ_of_le hle⟩ hrest
  rwa [List.takeWhile_append_dropWhile] at hread

theorem readIpv4Addr_of_ipv6Tail {s : List Char} {octets : Nat × Nat × Nat × Nat}
    (h : ipv6Tail s = some octets) : readIpv4Addr s = some (octets, []) := by
  obtain ⟨⟨a, s1⟩, h1, h⟩ := Option.bind_eq_some_iff.mp h
  obtain ⟨s2, h2, h⟩ := Option.bind_eq_some_iff.mp h
  obtain ⟨⟨b, s3⟩, h3, h⟩ := Option.bind_eq_some_iff.mp h
  obtain ⟨s4, h4, h⟩ := Option.bind_eq_some_iff.mp h
  obtain ⟨⟨c, s5⟩, h5, h⟩ := Option.bind_eq_some_iff.mp h
  obtain ⟨s6, h6, h⟩ := Option.bind_eq_some_iff.mp h
  obtain ⟨⟨d, s7⟩, h7, h⟩ := Option.bind_eq_some_iff.mp h
  dsimp only at h
  split_ifs at h with hend
  obtain rfl := Option.some.inj h
  obtain rfl := List.isEmpty_iff.mp hend
  unfold readIpv4Addr
  simp only [readOctet_of_ipv6Octet h1, h2, readOctet_of_ipv6Octet h3, h4,
    readOctet_of_ipv6Octet h5, h6, readOctet_of_ipv6Octet h7, Option.bind_eq_bind,
    Option.bind_some]
  rfl

/-- An IPv4 address has a dot behind its first digits. -/
theorem dot_of_readIpv4Addr {s rest : List Char} {octets : Nat × Nat × Nat × Nat}
    (h : readIpv4Addr s = some (octets, rest)) :
    (s.dropWhile (isDigit 10)).head? = some '.' := by
  obtain ⟨⟨a, s1⟩, h1, h⟩ := Option.bind_eq_some_iff.mp h
  obtain ⟨s2, h2, -⟩ := Option.bind_eq_some_iff.mp h
  obtain ⟨ds, -, -, -, -, -, -, hrest⟩ := readNumber_eq_some h1
  rw [← hrest]
  cases s1 with
  | nil => cases h2
  | cons c s1 =>
      unfold readGivenChar at h2
      dsimp only at h2
      split_ifs at h2 with hc
      rw [hc, List.head?_cons]

/-- Hexadecimal digits in front of a colon or of nothing are no IPv4 address. -/
theorem readIpv4Addr_hex {ds rest : List Char} (hds : ∀ c ∈ ds, isDigit 16 c = true)
    (hrest : ∀ c ∈ rest.head?, c = ':') : readIpv4Addr (ds ++ rest) = none := by
  cases hread : readIpv4Addr (ds ++ rest) with
  | none => rfl
  | some found =>
      have hdot := dot_of_readIpv4Addr hread
      -- the dot would be one of the digits, or come first behind them
      have hmem : ∀ l : List Char, (∀ c ∈ l, isDigit 16 c = true) →
          ((l ++ rest).dropWhile (isDigit 10)).head? ≠ some '.' := by
        intro l
        induction l with
        | nil =>
            intro _ hdot
            cases rest with
            | nil => cases hdot
            | cons c rest =>
                obtain rfl := hrest c rfl
                cases hdot
        | cons c l ih =>
            intro hl hdot
            rw [List.cons_append, List.dropWhile_cons] at hdot
            split_ifs at hdot with hc
            · exact ih (fun c' hc' => hl c' (List.mem_cons_of_mem _ hc')) hdot
            · have hdigit := hl c List.mem_cons_self
              rw [Option.some.inj hdot] at hdigit
              exact absurd hdigit (by decide)
      exact absurd hdot (hmem ds hds)

/-- What stands before the item `i` of a list with colons. -/
def separated (i : Nat) (s : List Char) : List Char := if i = 0 then s else ':' :: s

theorem readSeparator_separated {α : Type} (i : Nat) (inner : List Char → Option (α × List Char))
    (s : List Char) : readSeparator ':' i inner (separated i s) = inner s := by
  unfold readSeparator separated
  by_cases hi : i = 0
  · rw [if_pos hi, if_pos hi]
  · rw [if_neg hi, if_neg hi]
    rfl

/-- The next piece of an IPv6 address: an IPv4 address, or a group, which is the last one
or has a colon behind it. -/
theorem ipv6Pieces_cons {left : Nat} {compressed : Bool} {c : Char} {s : List Char}
    {pieces : List (Option Nat)} (hc : c ≠ ':')
    (h : ipv6Pieces (left + 1) compressed (c :: s) = some pieces) :
    (∃ a b d e, 1 ≤ left ∧ readIpv4Addr (c :: s) = some ((a, b, d, e), []) ∧
        pieces = [some (a * 256 + b), some (d * 256 + e)]) ∨
      readIpv4Addr (c :: s) = none ∧ ∃ group,
        (readGroup (c :: s) = some (group, []) ∧ pieces = [some group]) ∨
        ∃ rest later, rest ≠ [] ∧ readGroup (c :: s) = some (group, ':' :: rest) ∧
          ipv6Pieces left compressed rest = some later ∧ pieces = some group :: later := by
  rw [ipv6Pieces.eq_4 compressed (c :: s) left (by simp) (by simpa using hc)] at h
  dsimp only at h
  generalize hds : ((c :: s).take 4).takeWhile (isDigit 16) = ds at h
  have hprefix : ds <+: c :: s := by
    rw [← hds]
    exact (List.takeWhile_prefix _).trans (List.take_prefix 4 _)
  have hdigits : ∀ d ∈ ds, isDigit 16 d = true := by
    intro d hd
    rw [← hds] at hd
    exact List.mem_takeWhile_imp hd
  have hlength : ds.length ≤ 4 := by
    rw [← hds]
    exact Nat.le_trans (List.takeWhile_prefix _).length_le (List.length_take_le 4 _)
  obtain ⟨rest, hsplit⟩ := hprefix
  have hdrop : (c :: s).drop ds.length = rest := by rw [← hsplit, List.drop_left]
  -- a group in front of a colon or of the end is read as it is
  have hgroup : ds ≠ [] → (∀ d ∈ rest.head?, d = ':') →
      readGroup (c :: s) = some (digitsValue 16 ds, rest) ∧ readIpv4Addr (c :: s) = none := by
    intro hne hrest
    rw [← hsplit]
    constructor
    · refine readNumber_append 16 4 65536 true hdigits hne ?_ hlength (Or.inl rfl) ?_
      · intro d hd
        rw [hrest d hd]
        decide
      · exact Nat.lt_of_lt_of_le (digitsValue_lt hdigits) (Nat.pow_le_pow_right (by decide) hlength)
    · exact readIpv4Addr_hex hdigits hrest
  rw [hdrop] at h
  split at h
  · -- the end
    obtain rfl := Option.some.inj h
    have hne : ds ≠ [] := by
      intro hnil
      rw [hnil] at hsplit
      cases hsplit
    obtain ⟨hread, hnone⟩ := hgroup hne (by simp)
    exact Or.inr ⟨hnone, _, Or.inl ⟨hread, rfl⟩⟩
  · -- an IPv4 address
    split_ifs at h with hbad
    simp only [Bool.or_eq_true, decide_eq_true_eq, not_or] at hbad
    obtain ⟨⟨a, b, d, e⟩, htail, heq⟩ := Option.map_eq_some_iff.mp h
    exact Or.inl ⟨a, b, d, e, Nat.one_le_iff_ne_zero.mpr hbad.2, readIpv4Addr_of_ipv6Tail htail,
      heq.symm⟩
  · -- a colon
    rename_i later
    split_ifs at h with hempty
    obtain ⟨pieces', hlater, heq⟩ := Option.map_eq_some_iff.mp h
    have hne : ds ≠ [] := by
      intro hnil
      rw [hnil] at hsplit
      exact hc (List.cons.inj hsplit).1.symm
    obtain ⟨hread, hnone⟩ := hgroup hne (by simp)
    exact Or.inr ⟨hnone, _, Or.inr ⟨later, pieces', by simpa using hempty, hread, hlater, heq.symm⟩⟩
  · cases h

theorem length_ipv6Pieces {left : Nat} {compressed : Bool} {s : List Char}
    {pieces : List (Option Nat)} (h : ipv6Pieces left compressed s = some pieces) :
    pieces.length ≤ left := by
  induction left generalizing compressed s pieces with
  | zero =>
      cases s with
      | nil =>
          rw [ipv6Pieces] at h
          obtain rfl := Option.some.inj h
          exact Nat.le_refl _
      | cons c s =>
          rw [ipv6Pieces] at h
          cases h
  | succ left ih =>
      cases s with
      | nil =>
          rw [ipv6Pieces] at h
          obtain rfl := Option.some.inj h
          exact Nat.zero_le _
      | cons c s =>
          by_cases hc : c = ':'
          · subst hc
            rw [ipv6Pieces] at h
            split_ifs at h
            obtain ⟨later, hlater, rfl⟩ := Option.map_eq_some_iff.mp h
            exact Nat.succ_le_succ (ih hlater)
          · rcases ipv6Pieces_cons hc h with ⟨a, b, d, e, hleft, -, rfl⟩ |
              ⟨-, group, ⟨-, rfl⟩ | ⟨rest, later, -, -, hlater, rfl⟩⟩
            · exact Nat.succ_le_succ hleft
            · exact Nat.succ_le_succ (Nat.zero_le _)
            · exact Nat.succ_le_succ (ih hlater)

/-! The strict parser, one group at a time. -/

theorem readGroups_ipv4 {left i : Nat} {s rest : List Char} {a b c d : Nat} (hleft : 1 ≤ left)
    (h : readIpv4Addr s = some ((a, b, c, d), rest)) :
    readGroups (left + 1) i (separated i s) = ([a * 256 + b, c * 256 + d], true, rest) := by
  unfold readGroups
  rw [if_pos hleft, readSeparator_separated, h]

theorem readGroups_group {left i group : Nat} {s rest : List Char} (hnone : readIpv4Addr s = none)
    (h : readGroup s = some (group, rest)) :
    readGroups (left + 1) i (separated i s) =
      (group :: (readGroups left (i + 1) rest).1, (readGroups left (i + 1) rest).2) := by
  rw [readGroups, readSeparator_separated, readSeparator_separated, hnone, h, ite_self]

theorem readGroups_stop {left i : Nat} {s : List Char} (hnone : readIpv4Addr s = none)
    (h : readGroup s = none) :
    readGroups (left + 1) i (separated i s) = ([], false, separated i s) := by
  rw [readGroups, readSeparator_separated, readSeparator_separated, hnone, h, ite_self]

/-- Nothing is left to read. -/
theorem readGroups_nil (left i : Nat) : readGroups left i [] = ([], false, []) := by
  cases left with
  | zero => rfl
  | succ left =>
      rw [readGroups]
      unfold readSeparator
      by_cases hi : i = 0
      · rw [if_pos hi, if_pos hi, show readIpv4Addr [] = none from rfl, ite_self]
        rfl
      · rw [if_neg hi, if_neg hi, show readGivenChar ':' [] = none from rfl, Option.bind_none,
          Option.bind_none, ite_self]

/-- What the pieces are as groups. -/
def groupsOf (pieces : List (Option Nat)) : List Nat := pieces.map (Option.getD · 0)

/-- **The groups that the strict parser reads** are the pieces up to `::`. -/
theorem readGroups_ipv6Pieces {left : Nat} {compressed : Bool} {i : Nat} {s : List Char}
    {pieces : List (Option Nat)} (h : ipv6Pieces left compressed s = some pieces)
    (hs : s = [] → i = 0) (hi : i = 0 → s.head? ≠ some ':') :
    (∃ v4, readGroups left i (separated i s) = (groupsOf pieces, v4, []) ∧
        ∀ p ∈ pieces, p.isSome = true) ∨
      compressed = false ∧ ∃ front back rest, pieces = front ++ none :: back ∧
        (∀ p ∈ front, p.isSome = true) ∧
        readGroups left i (separated i s) = (groupsOf front, false, ':' :: ':' :: rest) ∧
        ipv6Pieces (left - (front.length + 1)) true rest = some back := by
  induction left generalizing compressed i s pieces with
  | zero =>
      cases s with
      | nil =>
          rw [ipv6Pieces] at h
          obtain rfl := Option.some.inj h
          obtain rfl := hs rfl
          exact Or.inl ⟨false, rfl, nofun⟩
      | cons c s =>
          rw [ipv6Pieces] at h
          cases h
  | succ left ih =>
      cases s with
      | nil =>
          rw [ipv6Pieces] at h
          obtain rfl := Option.some.inj h
          obtain rfl := hs rfl
          exact Or.inl ⟨false, readGroups_nil _ _, nofun⟩
      | cons c s =>
          by_cases hc : c = ':'
          · -- `::` is for the caller
            subst hc
            rw [ipv6Pieces] at h
            split_ifs at h with hcompressed
            obtain ⟨back, hback, rfl⟩ := Option.map_eq_some_iff.mp h
            have hpos : i ≠ 0 := fun hzero => hi hzero rfl
            have hstop : readGroups (left + 1) i (separated i (':' :: s)) =
                ([], false, separated i (':' :: s)) := readGroups_stop rfl rfl
            refine Or.inr ⟨Bool.eq_false_iff.mpr hcompressed, [], back, s, rfl, nofun, ?_, hback⟩
            rw [hstop]
            unfold separated
            rw [if_neg hpos]
            rfl
          · -- an IPv4 tail, a last group, or a group with more behind it
            rcases ipv6Pieces_cons hc h with ⟨a, b, d, e, hleft, hread, rfl⟩ |
              ⟨hnone, group, ⟨hread, rfl⟩ | ⟨rest, later, hrest, hread, hlater, rfl⟩⟩
            · exact Or.inl ⟨true, readGroups_ipv4 hleft hread, by simp⟩
            · left
              refine ⟨false, ?_, by simp⟩
              rw [readGroups_group hnone hread, readGroups_nil]
              rfl
            · have hseparated : separated (i + 1) rest = ':' :: rest := rfl
              rcases ih (i := i + 1) hlater (fun hnil => absurd hnil hrest) nofun with
                ⟨v4, hgroups, hsome⟩ | ⟨hfalse, front, back, rest', hpieces, hsome, hgroups, hback⟩
              · left
                refine ⟨v4, ?_, ?_⟩
                · rw [readGroups_group hnone hread, ← hseparated, hgroups]
                  rfl
                · intro p hp
                  rcases List.mem_cons.mp hp with rfl | hp
                  · rfl
                  · exact hsome p hp
              · right
                refine ⟨hfalse, some group :: front, back, rest', by rw [hpieces]; rfl, ?_, ?_, ?_⟩
                · intro p hp
                  rcases List.mem_cons.mp hp with rfl | hp
                  · rfl
                  · exact hsome p hp
                · rw [readGroups_group hnone hread, ← hseparated, hgroups]
                  rfl
                · rw [List.length_cons, Nat.add_sub_add_right]
                  exact hback

theorem ipv6Expand_of_isSome {pieces : List (Option Nat)} (h : ∀ p ∈ pieces, p.isSome = true) :
    ipv6Expand pieces = if pieces.length = 8 then some (groupsOf pieces) else none := by
  unfold ipv6Expand
  dsimp only
  rw [List.takeWhile_eq_self_iff.mpr h, if_pos rfl]
  rfl

theorem ipv6Expand_compressed {front back : List (Option Nat)}
    (h : ∀ p ∈ front, p.isSome = true) :
    ipv6Expand (front ++ none :: back) =
      some (groupsOf front ++ List.replicate (8 - front.length - back.length) 0 ++
        groupsOf back) := by
  have htake : (front ++ none :: back).takeWhile Option.isSome = front := by
    rw [List.takeWhile_append_of_pos h]
    simp
  have hdrop : ((front ++ none :: back).dropWhile Option.isSome).drop 1 = back := by
    rw [List.dropWhile_append_of_pos h]
    simp
  unfold ipv6Expand
  dsimp only
  rw [htake, hdrop, if_neg (by simp)]
  rfl

/-- The part behind `::` is read to its end. -/
theorem readGroups_back {left : Nat} {s : List Char} {back : List (Option Nat)}
    (h : ipv6Pieces left true s = some back) :
    ∃ v4, readGroups left 0 s = (groupsOf back, v4, []) := by
  have hhead : s.head? ≠ some ':' := by
    intro hcolon
    cases s with
    | nil => cases hcolon
    | cons c s =>
        obtain rfl := Option.some.inj hcolon
        cases left with
        | zero =>
            rw [ipv6Pieces] at h
            cases h
        | succ left =>
            rw [ipv6Pieces, if_pos rfl] at h
            cases h
  rcases readGroups_ipv6Pieces (i := 0) h (fun _ => rfl) (fun _ => hhead) with
    ⟨v4, hgroups, -⟩ | ⟨hfalse, -⟩
  · exact ⟨v4, hgroups⟩
  · cases hfalse

/-- **Both parsers read an IPv6 address alike.** -/
theorem readIpv6Addr_of_ipv6Address {s : List Char} {groups : List Nat}
    (h : ipv6Address s = some groups) : readIpv6Addr s = some (groups, []) := by
  -- what follows a front part that `::` ends
  have hcompressed : ∀ {front back : List (Option Nat)} {rest : List Char},
      (∀ p ∈ front, p.isSome = true) → front.length + 1 ≤ 8 →
        readGroups 8 0 s = (groupsOf front, false, ':' :: ':' :: rest) →
          ipv6Pieces (8 - (front.length + 1)) true rest = some back →
            ipv6Expand (front ++ none :: back) = some groups →
              readIpv6Addr s = some (groups, []) := by
    intro front back rest hfront hlength hgroups hback hexpand
    obtain ⟨v4, htail⟩ := readGroups_back hback
    have hfrontLength : (groupsOf front).length = front.length := List.length_map _
    have hbackLength : (groupsOf back).length = back.length := List.length_map _
    rw [ipv6Expand_compressed hfront] at hexpand
    unfold readIpv6Addr
    rw [hgroups]
    dsimp only
    rw [hfrontLength, if_neg (by omega), if_neg Bool.false_ne_true]
    change some (groupsOf front ++ List.replicate (8 - front.length -
      (readGroups (8 - (front.length + 1)) 0 rest).1.length) 0 ++
        (readGroups (8 - (front.length + 1)) 0 rest).1,
      (readGroups (8 - (front.length + 1)) 0 rest).2.2) = _
    rw [htail]
    dsimp only
    rw [hbackLength, Option.some.inj hexpand]
  unfold ipv6Address at h
  split at h
  · rename_i rest
    obtain ⟨back, hback, hexpand⟩ := Option.bind_eq_some_iff.mp h
    exact @hcompressed [] back rest nofun (by decide) (readGroups_stop (i := 0) rfl rfl) hback hexpand
  · cases h
  · rename_i hdouble hsingle
    obtain ⟨pieces, hpieces, hexpand⟩ := Option.bind_eq_some_iff.mp h
    have hhead : s.head? ≠ some ':' := by
      intro hcolon
      cases s with
      | nil => cases hcolon
      | cons c s =>
          obtain rfl := Option.some.inj hcolon
          exact hsingle s rfl
    rcases readGroups_ipv6Pieces (i := 0) hpieces (fun _ => rfl) (fun _ => hhead) with
      ⟨v4, hgroups, hsome⟩ | ⟨-, front, back, rest, rfl, hfront, hgroups, hback⟩
    · rw [ipv6Expand_of_isSome hsome] at hexpand
      split_ifs at hexpand with hlength
      have hgroupsLength : (groupsOf pieces).length = 8 := (List.length_map _).trans hlength
      unfold readIpv6Addr
      rw [show readGroups 8 0 s = _ from hgroups]
      dsimp only
      rw [if_pos hgroupsLength, Option.some.inj hexpand]
    · have hle := length_ipv6Pieces hpieces
      rw [List.length_append, List.length_cons] at hle
      exact hcompressed hfront (by omega) hgroups hback hexpand

/-- What is read as an IPv6 address does not begin with an IPv4 address. -/
theorem readIpv4Addr_of_readIpv6Addr {s rest : List Char} {groups : List Nat}
    (h : readIpv6Addr s = some (groups, rest)) : readIpv4Addr s = none := by
  cases hread : readIpv4Addr s with
  | none => rfl
  | some found =>
      obtain ⟨⟨a, b, c, d⟩, rest'⟩ := found
      have hgroups : readGroups 8 0 s = ([a * 256 + b, c * 256 + d], true, rest') :=
        readGroups_ipv4 (i := 0) (by decide) hread
      unfold readIpv6Addr at h
      rw [hgroups] at h
      cases h

/-! ### IPv4 -/

/-- The digits of a strict octet: a decimal number of URLs too. -/
theorem ipv4Number_of_strict {ds : List Char} (hds : ∀ c ∈ ds, isDigit 10 c = true)
    (hne : ds ≠ []) (hzero : ds.head? ≠ some '0' ∨ ds.length ≤ 1) :
    ipv4Number ds = some (digitsValue 10 ds) := by
  have hradix : ipv4Radix ds = (10, ds) := by
    rcases hzero with hhead | hlength
    · unfold ipv4Radix
      split
      · exact absurd rfl hhead
      · exact absurd rfl hhead
      · exact absurd rfl hhead
      · rfl
    · unfold ipv4Radix
      split
      · simp at hlength
      · simp at hlength
      · simp at hlength
      · rfl
  unfold ipv4Number
  rw [hradix, if_neg (by simpa using hne), if_pos (List.all_eq_true.mpr hds)]

/-- An address in the strict notation: four octets with dots between them. -/
theorem readIpv4Addr_eq_some {s rest : List Char} {a b c d : Nat}
    (h : readIpv4Addr s = some ((a, b, c, d), rest)) :
    ∃ da db dc dd : List Char, s = da ++ '.' :: (db ++ '.' :: (dc ++ '.' :: (dd ++ rest))) ∧
      (∀ ds ∈ [da, db, dc, dd], (∀ c ∈ ds, isDigit 10 c = true) ∧ ds ≠ [] ∧
        (ds.head? ≠ some '0' ∨ ds.length ≤ 1)) ∧
      [da, db, dc, dd].map (digitsValue 10) = [a, b, c, d] ∧ ∀ n ∈ [a, b, c, d], n < 256 := by
  have hdot : ∀ {s s' : List Char}, readGivenChar '.' s = some s' → s = '.' :: s' := by
    intro s s' h
    cases s with
    | nil => cases h
    | cons c s =>
        unfold readGivenChar at h
        dsimp only at h
        split_ifs at h with hc
        rw [hc, Option.some.inj h]
  obtain ⟨⟨a', s1⟩, h1, h⟩ := Option.bind_eq_some_iff.mp h
  obtain ⟨s2, h2, h⟩ := Option.bind_eq_some_iff.mp h
  obtain ⟨⟨b', s3⟩, h3, h⟩ := Option.bind_eq_some_iff.mp h
  obtain ⟨s4, h4, h⟩ := Option.bind_eq_some_iff.mp h
  obtain ⟨⟨c', s5⟩, h5, h⟩ := Option.bind_eq_some_iff.mp h
  obtain ⟨s6, h6, h⟩ := Option.bind_eq_some_iff.mp h
  obtain ⟨⟨d', s7⟩, h7, h⟩ := Option.bind_eq_some_iff.mp h
  obtain ⟨hoctets, rfl⟩ := Prod.mk.inj (Option.some.inj h)
  obtain ⟨rfl, rfl, rfl, rfl⟩ : a' = a ∧ b' = b ∧ c' = c ∧ d' = d := by simpa using hoctets
  obtain ⟨da, rfl, hda, hda', hda0, rfl, hlta, -⟩ := readNumber_eq_some h1
  obtain ⟨db, rfl, hdb, hdb', hdb0, rfl, hltb, -⟩ := readNumber_eq_some h3
  obtain ⟨dc, rfl, hdc, hdc', hdc0, rfl, hltc, -⟩ := readNumber_eq_some h5
  obtain ⟨dd, rfl, hdd, hdd', hdd0, rfl, hltd, -⟩ := readNumber_eq_some h7
  refine ⟨da, db, dc, dd, ?_, ?_, rfl, ?_⟩
  · rw [hdot h2, hdot h4, hdot h6]
  · intro ds hmem
    simp only [List.mem_cons, List.not_mem_nil, or_false] at hmem
    rcases hmem with rfl | rfl | rfl | rfl
    · exact ⟨hda, hda', hda0.resolve_left Bool.false_ne_true⟩
    · exact ⟨hdb, hdb', hdb0.resolve_left Bool.false_ne_true⟩
    · exact ⟨hdc, hdc', hdc0.resolve_left Bool.false_ne_true⟩
    · exact ⟨hdd, hdd', hdd0.resolve_left Bool.false_ne_true⟩
  · intro n hmem
    simp only [List.mem_cons, List.not_mem_nil, or_false] at hmem
    rcases hmem with rfl | rfl | rfl | rfl
    · exact hlta
    · exact hltb
    · exact hltc
    · exact hltd

/-- Four octets with dots between: the one spelling of an IPv4 address that is read alike
everywhere. -/
def DottedQuad (s : List Char) : Prop :=
  ∃ da db dc dd : List Char, (∀ ds ∈ [da, db, dc, dd], IsOctet ds) ∧
    s = da ++ '.' :: (db ++ '.' :: (dc ++ '.' :: dd))

/-- **The strict parser** takes the dotted quads. -/
theorem readIpv4Addr_iff_dottedQuad (s : List Char) :
    (∃ octets, readIpv4Addr s = some (octets, [])) ↔ DottedQuad s := by
  constructor
  · rintro ⟨⟨a, b, c, d⟩, hread⟩
    obtain ⟨da, db, dc, dd, hs, hstrict, hvalues, hlt⟩ := readIpv4Addr_eq_some hread
    refine ⟨da, db, dc, dd, fun ds hds => ?_, by simpa using hs⟩
    obtain ⟨hdigits, hne, hzero⟩ := hstrict ds hds
    refine ⟨hdigits, hne, hzero, hlt _ ?_⟩
    rw [← hvalues]
    exact List.mem_map_of_mem hds
  · rintro ⟨da, db, dc, dd, hoctets, rfl⟩
    have hdot : ∀ rest : List Char, ∀ c ∈ ('.' :: rest).head?, isDigit 10 c = false := by
      intro rest c hc
      obtain rfl : c = '.' := (Option.some.inj hc).symm
      decide
    have hend : readOctet dd = some (digitsValue 10 dd, []) := by
      have happend := @readOctet_append dd [] (hoctets dd (by simp)) nofun
      rwa [List.append_nil] at happend
    refine ⟨(digitsValue 10 da, digitsValue 10 db, digitsValue 10 dc, digitsValue 10 dd), ?_⟩
    unfold readIpv4Addr
    simp [readOctet_append (hoctets da (by simp)) (hdot _), readGivenChar,
      readOctet_append (hoctets db (by simp)) (hdot _),
      readOctet_append (hoctets dc (by simp)) (hdot _), hend]

/-- Without a colon there is no IPv6 address. -/
theorem readIpv6Addr_eq_none {s : List Char} (h : ':' ∉ s) : readIpv6Addr s = none := by
  have hgiven : ∀ {s : List Char}, ':' ∉ s → readGivenChar ':' s = none := by
    intro s hs
    cases s with
    | nil => rfl
    | cons c s =>
        refine if_neg fun heq => hs ?_
        rw [heq]
        exact List.mem_cons_self
  have hsuffix : ∀ {rest : List Char}, rest <:+ s → ':' ∉ rest :=
    fun hrest hmem => h (hrest.subset hmem)
  have hgroups : (readGroups (7 + 1) 0 (separated 0 s)).1.length < 8 ∧
      ':' ∉ (readGroups (7 + 1) 0 (separated 0 s)).2.2 := by
    cases hv4 : readIpv4Addr s with
    | some found =>
        obtain ⟨⟨a, b, c, d⟩, rest⟩ := found
        obtain ⟨da, db, dc, dd, hs, -⟩ := readIpv4Addr_eq_some hv4
        rw [@readGroups_ipv4 7 0 _ _ _ _ _ _ (by decide) hv4]
        refine ⟨by simp, hsuffix ⟨da ++ '.' :: (db ++ '.' :: (dc ++ '.' :: dd)), ?_⟩⟩
        rw [hs]
        simp
    | none =>
        cases hgroup : readGroup s with
        | none =>
            rw [@readGroups_stop 7 0 _ hv4 hgroup]
            exact ⟨by simp, h⟩
        | some found =>
            obtain ⟨group, rest⟩ := found
            obtain ⟨ds, hs, -⟩ := readNumber_eq_some hgroup
            have hrest : ':' ∉ rest := hsuffix ⟨ds, hs.symm⟩
            rw [@readGroups_group 7 0 _ _ _ hv4 hgroup]
            have hstop : readGroups 7 1 rest = ([], false, rest) := by
              unfold readGroups readSeparator
              rw [if_neg (by decide : ¬ (1 = 0)), hgiven hrest]
              rfl
            rw [hstop]
            exact ⟨by simp, hrest⟩
  have hsame : readGroups 8 0 s = readGroups (7 + 1) 0 (separated 0 s) := rfl
  unfold readIpv6Addr
  rw [hsame]
  generalize readGroups (7 + 1) 0 (separated 0 s) = found at hgroups ⊢
  obtain ⟨head, headV4, rest⟩ := found
  dsimp only at hgroups ⊢
  rw [if_neg (by omega)]
  split_ifs
  · rfl
  · rw [hgiven hgroups.2]
    rfl

theorem mem_of_mem_labels {s label : List Char} {c : Char} (hlabel : label ∈ labels s)
    (hc : c ∈ label) : c ∈ s := by
  unfold labels at hlabel
  induction s generalizing label with
  | nil =>
      rw [List.splitOn_nil, List.mem_singleton] at hlabel
      rwa [hlabel] at hc
  | cons x s ih =>
      rw [List.splitOn_cons_eq_if_modifyHead] at hlabel
      split_ifs at hlabel with hx
      · rcases List.mem_cons.mp hlabel with rfl | hlabel
        · cases hc
        · exact List.mem_cons_of_mem x (ih hlabel hc)
      · cases hsplit : s.splitOn '.' with
        | nil => exact absurd hsplit (List.splitOn_ne_nil _ _)
        | cons first rest =>
            rw [hsplit] at ih hlabel
            rw [List.modifyHead_cons] at hlabel
            rcases List.mem_cons.mp hlabel with rfl | hlabel
            · rcases List.mem_cons.mp hc with rfl | hc
              · exact List.mem_cons_self
              · exact List.mem_cons_of_mem x (ih List.mem_cons_self hc)
            · exact List.mem_cons_of_mem x (ih (List.mem_cons_of_mem first hlabel) hc)

theorem hostParts_ne_nil (s : List Char) : hostParts s ≠ [] := by
  have hlabels : labels s ≠ [] := List.splitOn_ne_nil _ _
  unfold hostParts
  dsimp only
  split_ifs with hlast
  · intro hnil
    have hlength := congrArg List.length hnil
    rw [List.length_dropLast, List.length_nil] at hlength
    omega
  · exact hlabels

/-- All of a list is mapped, or nothing. -/
theorem isSome_of_mapM {α β : Type} {f : α → Option β} {xs : List α} {ys : List β}
    (h : xs.mapM f = some ys) {x : α} (hx : x ∈ xs) : (f x).isSome = true := by
  induction xs generalizing ys with
  | nil => cases hx
  | cons x' xs ih =>
      rw [List.mapM_cons] at h
      obtain ⟨y, hy, h⟩ := Option.bind_eq_some_iff.mp h
      obtain ⟨ys', hys, -⟩ := Option.bind_eq_some_iff.mp h
      rcases List.mem_cons.mp hx with rfl | hx
      · rw [hy]
        rfl
      · exact ih hys hx

/-- What the IPv4 parser takes ends in a number. -/
theorem endsInNumber_of_ipv4Address {s : List Char} {n : Nat} (h : ipv4Address s = some n) :
    endsInNumber s = true := by
  unfold ipv4Address at h
  dsimp only at h
  split_ifs at h
  cases hnumbers : (hostParts s).mapM ipv4Number with
  | none =>
      rw [hnumbers] at h
      cases h
  | some numbers =>
      unfold endsInNumber
      cases hlast : (hostParts s).getLast? with
      | none => exact absurd (List.getLast?_eq_none_iff.mp hlast) (hostParts_ne_nil s)
      | some last =>
          dsimp only
          rw [isSome_of_mapM hnumbers (List.mem_of_getLast? hlast), Bool.or_true]

/-- **The strict notation of an IPv4 address** means the same in a URL. -/
theorem ipv4Address_of_strict {s : List Char} {a b c d : Nat}
    (h : readIpv4Addr s = some ((a, b, c, d), [])) :
    ipv4Address s = some (((a * 256 + b) * 256 + c) * 256 + d) := by
  obtain ⟨da, db, dc, dd, rfl, hstrict, hvalues, hlt⟩ := readIpv4Addr_eq_some h
  have hdot : ∀ ds ∈ [da, db, dc, dd], '.' ∉ ds := by
    intro ds hds hmem
    have hdigit := (hstrict ds hds).1 '.' hmem
    exact absurd hdigit (by decide)
  have hnumber : ∀ ds ∈ [da, db, dc, dd], ipv4Number ds = some (digitsValue 10 ds) := by
    intro ds hds
    obtain ⟨hdigits, hne, hzero⟩ := hstrict ds hds
    exact ipv4Number_of_strict hdigits hne hzero
  have hlabels : labels (da ++ '.' :: (db ++ '.' :: (dc ++ '.' :: (dd ++ [])))) =
      [da, db, dc, dd] := by
    unfold labels
    rw [List.append_nil, List.splitOn_append_cons_self_of_not_mem (hdot da (by simp)),
      List.splitOn_append_cons_self_of_not_mem (hdot db (by simp)),
      List.splitOn_append_cons_self_of_not_mem (hdot dc (by simp)),
      List.splitOn_eq_singleton (hdot dd (by simp))]
  have hparts : hostParts (da ++ '.' :: (db ++ '.' :: (dc ++ '.' :: (dd ++ [])))) =
      [da, db, dc, dd] := by
    unfold hostParts
    rw [hlabels]
    refine if_neg fun hlast => ?_
    exact (hstrict dd (by simp)).2.1 (Option.some.inj hlast.1)
  have hnumbers : [da, db, dc, dd].mapM ipv4Number = some [a, b, c, d] := by
    rw [← hvalues]
    simp only [List.mapM_cons, List.mapM_nil, hnumber da (by simp), hnumber db (by simp),
      hnumber dc (by simp), hnumber dd (by simp)]
    rfl
  have ha := hlt a (by simp)
  have hb := hlt b (by simp)
  have hc := hlt c (by simp)
  have hd := hlt d (by simp)
  unfold ipv4Address
  rw [hparts]
  dsimp only
  rw [if_neg (by simp), hnumbers]
  dsimp only
  have hgood : ((([a, b, c, d] : List Nat).dropLast.any fun n => decide (255 < n)) ||
      decide (256 ^ (5 - ([a, b, c, d] : List Nat).length) ≤ ([a, b, c, d] : List Nat).getLastD 0)) =
        false := by
    simp
    omega
  rw [hgood, if_neg Bool.false_ne_true]
  congr 1
  simp
  omega

end Web
end Artifacts
