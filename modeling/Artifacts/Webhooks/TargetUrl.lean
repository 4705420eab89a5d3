import Artifacts.Error
import Artifacts.Foundation.WebAddress
import Artifacts.Rust.Lines

/-!
# The guard on webhook targets

`validate_webhook_url` cuts the host out of the URL itself and refuses it if
`IpAddr::from_str` reads it as an internal address.  The client that delivers has rules
of its own, under which many other texts are the same address.  `Plain` says how a URL
has to be written for the guard to see what the client sees.

* `Web` has what clients do with a host: percent escapes, IDNA as a parameter, and the forms of
  an IPv4 address.
* `Guarded` compares the two readings of one text.
* `SpellsHost` are the texts in which nothing but the spelling of an address can differ.

Names that a resolver maps to internal addresses are outside of what the guard tries to do.
-/

namespace Artifacts
namespace Webhooks

open Rust

/-- `is_blocked_target_ip`, of an IPv4 address. -/
def isBlockedV4 (v4 : Ipv4Addr) : Bool :=
  v4.isLoopback || v4.isPrivate || v4.isLinkLocal || v4.isUnspecified || v4.isBroadcast ||
    v4.isDocumentation || v4.isMulticast ||
    -- carrier-grade NAT
    (v4.a == 100 && v4.b &&& 0xc0 == 0x40)

/-- `is_blocked_target_ip`. An IPv4 address in the form of an IPv6 one is judged as what it stands
for. -/
def isBlockedTargetIp : IpAddr → Bool
  | .v4 v4 => isBlockedV4 v4
  | .v6 v6 =>
      match v6.toIpv4Mapped with
      | some v4 => isBlockedV4 v4
      | none =>
          v6.isLoopback || v6.isUnspecified || v6.isMulticast ||
            v6.seg0 &&& 0xfe00 == 0xfc00 || v6.seg0 &&& 0xffc0 == 0xfe80

/-- `split_once` at a text. -/
def splitOnceAt (pat : List Char) : List Char → Option (List Char × List Char)
  | [] => if pat.isEmpty then some ([], []) else none
  | c :: rest =>
      if pat.isPrefixOf (c :: rest) then some ([], (c :: rest).drop pat.length)
      else (splitOnceAt pat rest).map fun (before, after) => (c :: before, after)

/-- `rsplit_once` at a character. -/
def rsplitOnce (sep : Char) (s : List Char) : Option (List Char × List Char) :=
  if sep ∈ s then
    some (((s.reverse.dropWhile (· != sep)).drop 1).reverse, (s.reverse.takeWhile (· != sep)).reverse)
  else none

/-- The authority: up to the first path, query or fragment. -/
def authorityOf (after : List Char) : List Char :=
  after.takeWhile fun c => !(c == '/' || c == '?' || c == '#')

/-- Without a `userinfo@`. -/
def hostportOf (authority : List Char) : List Char :=
  match rsplitOnce '@' authority with
  | none => authority
  | some (_, hostport) => hostport

/-- The host: what is in brackets, or what comes before a port of digits. -/
def hostIn (hostport : List Char) : Result (List Char) :=
  match hostport with
  | '[' :: rest =>
      if ']' ∈ rest then .ok (rest.takeWhile (· != ']'))
      else .error (.badRequest "malformed IPv6 host in webhook url")
  | _ =>
      match rsplitOnce ':' hostport with
      | none => .ok hostport
      | some (host, port) =>
          if !port.isEmpty && port.all isAsciiDigit then .ok host else .ok hostport

/-- The host that `validate_webhook_url` looks at. -/
def targetHost (url : List Char) : Result (List Char) :=
  match splitOnceAt "://".toList url with
  | none => .error (.badRequest "webhook url must be http(s)://…")
  | some (scheme, after) =>
      let scheme := Web.lower scheme
      if scheme ≠ "http".toList ∧ scheme ≠ "https".toList then
        .error (.badRequest "webhook url scheme must be http or https")
      else do
        let host ← hostIn (hostportOf (authorityOf after))
        if host.isEmpty then .error (.badRequest "webhook url has no host") else .ok host

/-- The guard reads an internal address out of the host. -/
def readsBlocked (host : List Char) : Bool := (parseIpAddr host).any isBlockedTargetIp

/-- `validate_webhook_url`. The host is split off by hand and blocked if Rust reads it as an
address; other spellings count as names. -/
def validateWebhookUrl (url : String) (allowPrivate : Bool) : Result Unit := do
  let host ← targetHost url.toList
  if !allowPrivate && readsBlocked host then
    .error (.badRequest "webhook url targets a loopback/private/link-local address")
  else return ()

/-- The address that a client connects to, if the host is one. -/
def addressOf : Web.Host → Option IpAddr
  | .domain _ => none
  | .ipv4 n =>
      some (.v4 ⟨(n / 16777216).toUInt8, (n / 65536).toUInt8, (n / 256).toUInt8, n.toUInt8⟩)
  | .ipv6 groups => (Ipv6Addr.ofGroups groups).map .v6

def connectsTo (idna : Web.DomainToAscii) (url : List Char) : Option IpAddr :=
  (Web.hostOf idna url).bind addressOf

/-- **What the guard is for**: a URL that passes does not lead to an internal address. -/
def Guarded (idna : Web.DomainToAscii) (url : String) : Prop :=
  validateWebhookUrl url false = .ok () → ∀ ip, connectsTo idna url.toList = some ip →
    isBlockedTargetIp ip = false

/-- A host and port that the guard and the client read alike: an IPv6 address in brackets,
or an ASCII name as it stands, with no empty port, that is a number only as a dotted quad. -/
def PlainHost (hostport : List Char) : Prop :=
  hostport.head? = some '[' ∨
    (∀ c ∈ hostport, c.toNat < 128 ∧ c ≠ '%' ∧ c ≠ '[') ∧ hostport.getLast? ≠ some ':' ∧
      ∀ host, hostIn hostport = .ok host →
        (∀ label ∈ Web.labels host, ¬ ['x', 'n', '-', '-'] <+: Web.lower label) ∧
          (Web.endsInNumber (Web.lower host) = true → Web.DottedQuad host)

/-- Nothing in the URL is dropped or read as another character by the client. Each field is a
condition on the text alone; the scheme, the path and the query may be anything else. -/
structure Plain (url : List Char) : Prop where
  kept : ∀ c ∈ url, Web.isTabOrNewline c = false
  ends : ∀ c ∈ url.getLast?, Web.isC0OrSpace c = false
  authority : ∀ scheme after, splitOnceAt "://".toList url = some (scheme, after) →
    '\\' ∉ authorityOf after ∧ PlainHost (hostportOf (authorityOf after))

/-- The characters that numbers of addresses are written with. -/
def numberChars : List Char := "0123456789abcdefABCDEFxX.".toList

/-- A URL that has this text of numbers and dots for a host, in front of a port that clients
take, and hides nothing else. -/
structure SpellsHost (url host : List Char) : Prop where
  kept : ∀ c ∈ url, Web.isTabOrNewline c = false
  ends : ∀ c ∈ url.getLast?, Web.isC0OrSpace c = false
  authority : ∃ scheme after port, splitOnceAt "://".toList url = some (scheme, after) ∧
    (Web.lower scheme = "http".toList ∨ Web.lower scheme = "https".toList) ∧
    '\\' ∉ authorityOf after ∧ hostportOf (authorityOf after) = host ++ port ∧
    (port = [] ∨ ∃ digits, port = ':' :: digits ∧ digits ≠ [] ∧
      digits.all isAsciiDigit = true ∧ digitsValue 10 digits ≤ 65535)
  text : ∀ c ∈ host, c ∈ numberChars

/-! ### Cutting -/

theorem splitOnceAt_eq_some {pat url before after : List Char}
    (h : splitOnceAt pat url = some (before, after)) : url = before ++ pat ++ after := by
  induction url generalizing before with
  | nil =>
      unfold splitOnceAt at h
      split_ifs at h with hpat
      obtain ⟨rfl, rfl⟩ := Prod.mk.inj (Option.some.inj h)
      rw [List.isEmpty_iff.mp hpat]
      rfl
  | cons c rest ih =>
      unfold splitOnceAt at h
      split_ifs at h with hpat
      · obtain ⟨rfl, rfl⟩ := Prod.mk.inj (Option.some.inj h)
        obtain ⟨tail, htail⟩ := List.isPrefixOf_iff_prefix.mp hpat
        rw [← htail, List.drop_left, List.nil_append]
      · obtain ⟨⟨before', after'⟩, hrest, heq⟩ := Option.map_eq_some_iff.mp h
        obtain ⟨rfl, rfl⟩ := Prod.mk.inj heq
        rw [ih hrest]
        rfl

/-- A scheme that is `http` or `https` in lower case consists of letters. -/
theorem mem_scheme {scheme : List Char}
    (h : Web.lower scheme = "http".toList ∨ Web.lower scheme = "https".toList) {c : Char}
    (hc : c ∈ scheme) : 0x40 < c.toNat := by
  have hlower : (if isAsciiUppercase c then Char.ofNat (c.toNat + 32) else c) ∈
      "https".toList := by
    have hmem := List.mem_map_of_mem (f := fun c =>
      if isAsciiUppercase c then Char.ofNat (c.toNat + 32) else c) hc
    rcases h with h | h
    · change _ ∈ Web.lower scheme at hmem
      rw [h] at hmem
      revert hmem
      generalize (if isAsciiUppercase c then Char.ofNat (c.toNat + 32) else c) = d
      intro hmem
      have hsub : ∀ d ∈ "http".toList, d ∈ "https".toList :=
        forall_mem_of_all (by decide)
      exact hsub d hmem
    · change _ ∈ Web.lower scheme at hmem
      rwa [h] at hmem
  by_cases hupper : isAsciiUppercase c = true
  · unfold isAsciiUppercase at hupper
    exact Nat.lt_of_lt_of_le (by decide) (decide_eq_true_iff.mp hupper).1
  · rw [if_neg hupper] at hlower
    have hbig : ∀ d ∈ "https".toList, 0x40 < d.toNat := forall_mem_of_all (by decide)
    exact hbig c hlower

/-- Nothing is dropped from a plain URL. -/
theorem clean_eq_self {url : List Char} (hkept : ∀ c ∈ url, Web.isTabOrNewline c = false)
    (hfirst : ∀ c ∈ url.head?, Web.isC0OrSpace c = false)
    (hlast : ∀ c ∈ url.getLast?, Web.isC0OrSpace c = false) : Web.clean url = url := by
  have hdrop : ∀ l : List Char, (∀ c ∈ l.head?, Web.isC0OrSpace c = false) →
      l.dropWhile Web.isC0OrSpace = l := by
    intro l hl
    cases l with
    | nil => rfl
    | cons c l => rw [List.dropWhile_cons, hl c rfl, if_neg Bool.false_ne_true]
  unfold Web.clean
  rw [hdrop url hfirst, hdrop url.reverse (by rw [List.head?_reverse]; exact hlast),
    List.reverse_reverse, List.filter_eq_self]
  intro c hc
  rw [hkept c hc]
  rfl

theorem bne_of_not_mem {sep : Char} {s : List Char} (h : sep ∉ s) :
    ∀ c ∈ s, (c != sep) = true := by
  intro c hc
  rw [bne_iff_ne]
  intro heq
  exact h (heq ▸ hc)

theorem takeWhile_append_sep {sep : Char} {front back : List Char} (h : sep ∉ front) :
    (front ++ sep :: back).takeWhile (· != sep) = front := by
  rw [List.takeWhile_append_of_pos (bne_of_not_mem h), List.takeWhile_cons, if_neg (by simp),
    List.append_nil]

theorem rsplitOnce_append {sep : Char} {front back : List Char} (h : sep ∉ back) :
    rsplitOnce sep (front ++ sep :: back) = some (front, back) := by
  have hreverse : (front ++ sep :: back).reverse = back.reverse ++ sep :: front.reverse := by
    simp
  have hback : sep ∉ back.reverse := fun hmem => h (List.mem_reverse.mp hmem)
  unfold rsplitOnce
  rw [if_pos (List.mem_append_right _ List.mem_cons_self), hreverse, takeWhile_append_sep hback,
    List.dropWhile_append_of_pos (bne_of_not_mem hback), List.dropWhile_cons, if_neg (by simp),
    List.drop_succ_cons, List.drop_zero, List.reverse_reverse, List.reverse_reverse]

/-- Without a backslash the client ends the authority where the guard does. -/
theorem takeWhile_endsAuthority {after : List Char} (h : '\\' ∉ authorityOf after) :
    (after.takeWhile fun c => !Web.endsAuthority c) = authorityOf after := by
  induction after with
  | nil => rfl
  | cons c after ih =>
      unfold authorityOf at h ih ⊢
      rw [List.takeWhile_cons] at h ⊢
      rw [List.takeWhile_cons]
      by_cases hend : (!(c == '/' || c == '?' || c == '#')) = true
      · rw [if_pos hend] at h ⊢
        have hne : c ≠ '\\' := fun heq => h (heq ▸ List.mem_cons_self)
        have hrest := ih fun hmem => h (List.mem_cons_of_mem c hmem)
        have hkeep : (!Web.endsAuthority c) = true := by
          unfold Web.endsAuthority Web.isSlash
          rw [beq_eq_false_iff_ne.mpr hne, Bool.or_false]
          exact hend
        rw [if_pos hkeep, hrest]
      · rw [if_neg hend] at ⊢
        refine if_neg fun hkeep => hend ?_
        unfold Web.endsAuthority Web.isSlash at hkeep
        simp only [Bool.not_eq_true', Bool.or_eq_false_iff] at hkeep ⊢
        exact ⟨⟨hkeep.1.1.1, hkeep.1.2⟩, hkeep.2⟩

theorem afterLast_eq (authority : List Char) :
    Web.afterLast '@' authority = hostportOf authority := by
  unfold Web.afterLast hostportOf rsplitOnce
  by_cases h : '@' ∈ authority
  · rw [if_pos h]
  · have hreverse : '@' ∉ authority.reverse := fun hmem => h (List.mem_reverse.mp hmem)
    rw [if_neg h, List.takeWhile_eq_self_iff.mpr (bne_of_not_mem hreverse), List.reverse_reverse]

/-! ### The host -/

/-- Outside brackets the host ends at the first colon. -/
theorem hostText_eq_takeWhile {s : List Char} (h : '[' ∉ s) :
    Web.hostText false s = s.takeWhile (· != ':') := by
  induction s with
  | nil => rfl
  | cons c s ih =>
      have hc : c ≠ '[' := fun heq => h (heq ▸ List.mem_cons_self)
      have hrest := ih fun hmem => h (List.mem_cons_of_mem c hmem)
      rw [Web.hostText, List.takeWhile_cons]
      by_cases hcolon : c = ':'
      · rw [if_pos (by rw [decide_eq_true hcolon]; rfl), if_neg (by simp [hcolon])]
      · rw [if_neg (by rw [decide_eq_false hcolon]; simp), if_neg hc, ite_self, hrest,
          if_pos (by simpa using hcolon)]

theorem hostText_begins (inside : Bool) (s : List Char) : Web.hostText inside s <+: s := by
  induction s generalizing inside with
  | nil => exact List.prefix_refl _
  | cons c s ih =>
      rw [Web.hostText]
      split_ifs
      · exact List.nil_prefix
      · exact List.cons_prefix_cons.mpr ⟨rfl, ih _⟩
      · exact List.cons_prefix_cons.mpr ⟨rfl, ih _⟩
      · exact List.cons_prefix_cons.mpr ⟨rfl, ih _⟩

/-- **Without brackets** the guard cuts the same host out, unless the port is empty. -/
theorem hostIn_eq_hostText {hostport : List Char} (hbracket : '[' ∉ hostport)
    (hport : Web.portOk (hostport.drop (Web.hostText false hostport).length) = true)
    (hlast : hostport.getLast? ≠ some ':') :
    hostIn hostport = .ok (Web.hostText false hostport) := by
  have hunbracketed : hostIn hostport =
      match rsplitOnce ':' hostport with
      | none => .ok hostport
      | some (host, port) =>
          if !port.isEmpty && port.all isAsciiDigit then .ok host else .ok hostport := by
    unfold hostIn
    split
    · exact absurd List.mem_cons_self hbracket
    · rfl
  rw [hunbracketed, hostText_eq_takeWhile hbracket] at *
  by_cases hcolon : ':' ∈ hostport
  · -- what is behind the colon is a port
    obtain ⟨front, port, rfl, hfront⟩ := List.eq_append_cons_of_mem hcolon
    rw [takeWhile_append_sep hfront] at hport ⊢
    rw [List.drop_left, Web.portOk, Bool.and_eq_true] at hport
    have hport' : ':' ∉ port := fun hmem =>
      absurd (List.all_eq_true.mp hport.1 ':' hmem) (by decide)
    have hempty : port ≠ [] := by
      intro hnil
      rw [hnil] at hlast
      simp at hlast
    rw [rsplitOnce_append hport']
    dsimp only
    rw [hport.1, Bool.and_true, if_pos (by simpa using hempty)]
  · have hself : hostport.takeWhile (· != ':') = hostport :=
      List.takeWhile_eq_self_iff.mpr (bne_of_not_mem hcolon)
    unfold rsplitOnce
    rw [if_neg hcolon, hself]

/-- An address has no bracket in it. -/
theorem not_mem_ipv6Pieces {left : Nat} {compressed : Bool} {s : List Char}
    {pieces : List (Option Nat)} (h : Web.ipv6Pieces left compressed s = some pieces) :
    ']' ∉ s := by
  induction left generalizing compressed s pieces with
  | zero =>
      cases s with
      | nil => exact List.not_mem_nil
      | cons c s =>
          rw [Web.ipv6Pieces] at h
          cases h
  | succ left ih =>
      cases s with
      | nil => exact List.not_mem_nil
      | cons c s =>
          by_cases hc : c = ':'
          · subst hc
            rw [Web.ipv6Pieces] at h
            split_ifs at h
            obtain ⟨later, hlater, -⟩ := Option.map_eq_some_iff.mp h
            intro hmem
            rcases List.mem_cons.mp hmem with heq | hmem
            · exact absurd heq (by decide)
            · exact ih hlater hmem
          · rcases Web.ipv6Pieces_cons hc h with ⟨a, b, d, e, -, hread, -⟩ |
              ⟨-, group, ⟨hread, -⟩ | ⟨rest, later, -, hread, hlater, -⟩⟩
            · obtain ⟨da, db, dc, dd, hs, hdigits, -, -⟩ := Web.readIpv4Addr_eq_some hread
              have hnot : ∀ ds ∈ [da, db, dc, dd], ']' ∉ ds := fun ds hds hmem =>
                absurd ((hdigits ds hds).1 ']' hmem) (by decide)
              rw [hs]
              simp [hnot da, hnot db, hnot dc, hnot dd]
            · obtain ⟨ds, hs, hdigits, -⟩ := Web.readNumber_eq_some hread
              rw [hs, List.append_nil]
              exact fun hmem => absurd (hdigits ']' hmem) (by decide)
            · obtain ⟨ds, hs, hdigits, -⟩ := Web.readNumber_eq_some hread
              rw [hs]
              intro hmem
              rcases List.mem_append.mp hmem with hmem | hmem
              · exact absurd (hdigits ']' hmem) (by decide)
              · rcases List.mem_cons.mp hmem with heq | hmem
                · exact absurd heq (by decide)
                · exact ih hlater hmem

theorem not_mem_ipv6Address {s : List Char} {groups : List Nat}
    (h : Web.ipv6Address s = some groups) : ']' ∉ s := by
  unfold Web.ipv6Address at h
  split at h
  · obtain ⟨pieces, hpieces, -⟩ := Option.bind_eq_some_iff.mp h
    have hrest := not_mem_ipv6Pieces hpieces
    simpa using hrest
  · cases h
  · obtain ⟨pieces, hpieces, -⟩ := Option.bind_eq_some_iff.mp h
    exact not_mem_ipv6Pieces hpieces

/-- **In brackets** the guard reads the address that the client reads. -/
theorem parse_bracketed {idna : Web.DomainToAscii} {rest host : List Char} {h : Web.Host}
    {ip : IpAddr} (hcut : hostIn ('[' :: rest) = .ok host)
    (hparse : Web.parseHost idna (Web.hostText false ('[' :: rest)) = some h)
    (haddress : addressOf h = some ip) : parseIpAddr host = some ip := by
  have htext : Web.hostText false ('[' :: rest) = '[' :: Web.hostText true rest := rfl
  rw [htext, Web.parseHost] at hparse
  split_ifs at hparse with hlast
  obtain ⟨groups, hgroups, rfl⟩ := Option.map_eq_some_iff.mp hparse
  -- the text up to the bracket is the address
  have hinner : Web.hostText true rest = (Web.hostText true rest).dropLast ++ [']'] :=
    (List.dropLast_append_getLast? ']' hlast).symm
  obtain ⟨more, hmore⟩ := hostText_begins true rest
  rw [hinner, List.append_assoc] at hmore
  generalize (Web.hostText true rest).dropLast = inner at *
  have hnot := not_mem_ipv6Address hgroups
  have hhost : host = inner := by
    rw [hostIn, ← hmore, if_pos (by simp), List.singleton_append, takeWhile_append_sep hnot] at hcut
    exact (Except.ok.inj hcut).symm
  have hread := Web.readIpv6Addr_of_ipv6Address hgroups
  obtain ⟨addr, haddr, rfl⟩ := Option.map_eq_some_iff.mp haddress
  unfold parseIpAddr readIpAddr
  rw [hhost, Web.readIpv4Addr_of_readIpv6Addr hread]
  dsimp only
  rw [hread]
  dsimp only
  rw [haddr]
  rfl

/-- Text without a percent sign is its own decoding. -/
theorem percentDecode_eq_self {bytes : List UInt8} (h : (37 : UInt8) ∉ bytes) :
    Web.percentDecode bytes = bytes := by
  induction bytes with
  | nil => rfl
  | cons b bytes ih =>
      have hb : b ≠ 37 := fun heq => h (heq ▸ List.mem_cons_self)
      have hrest := ih fun hmem => h (List.mem_cons_of_mem b hmem)
      rw [Web.percentDecode.eq_2 b bytes (by
        intro hi lo rest heq
        exact absurd heq hb), hrest]

theorem lower_eq_self {s : List Char} (h : ∀ c ∈ s, isAsciiUppercase c = false) :
    Web.lower s = s := by
  unfold Web.lower
  conv_rhs => rw [← List.map_id s]
  refine List.map_congr_left fun c hc => ?_
  rw [h c hc, if_neg Bool.false_ne_true]
  rfl

theorem lower_eq_self_of_strict {s : List Char} {octets : Nat × Nat × Nat × Nat}
    (h : readIpv4Addr s = some (octets, [])) : Web.lower s = s := by
  obtain ⟨a, b, c, d⟩ := octets
  obtain ⟨da, db, dc, dd, rfl, hstrict, -⟩ := Web.readIpv4Addr_eq_some h
  have hdigit : ∀ c, isDigit 10 c = true → isAsciiUppercase c = false := by
    intro c hc
    rw [Web.isDigit_ten] at hc
    have hle := (Web.isAsciiDigit_iff.mp hc).2
    unfold isAsciiUppercase
    rw [decide_eq_false_iff_not]
    intro hupper
    have hge : 'A'.toNat ≤ c.toNat := hupper.1
    have hA : 'A'.toNat = 65 := rfl
    omega
  refine lower_eq_self fun c hc => ?_
  simp only [List.mem_append, List.mem_cons, List.not_mem_nil, or_false] at hc
  rcases hc with hc | rfl | hc | rfl | hc | rfl | hc
  · exact hdigit c ((hstrict da (by simp)).1 c hc)
  · rfl
  · exact hdigit c ((hstrict db (by simp)).1 c hc)
  · rfl
  · exact hdigit c ((hstrict dc (by simp)).1 c hc)
  · rfl
  · exact hdigit c ((hstrict dd (by simp)).1 c hc)

theorem addressOf_octets {a b c d : Nat} (hb : b < 256) (hc : c < 256)
    (hd : d < 256) :
    addressOf (.ipv4 (((a * 256 + b) * 256 + c) * 256 + d)) =
      some (.v4 (Ipv4Addr.ofOctets (a, b, c, d))) := by
  have hbyte : ∀ m n : Nat, m % 256 = n % 256 → m.toUInt8 = n.toUInt8 := by
    intro m n h
    exact UInt8.toNat_inj.mp (by simpa [Nat.toUInt8, UInt8.toNat_ofNat'] using h)
  unfold addressOf Ipv4Addr.ofOctets
  dsimp only
  generalize hn : ((a * 256 + b) * 256 + c) * 256 + d = n
  rw [hbyte (n / 16777216) a (by omega), hbyte (n / 65536) b (by omega),
    hbyte (n / 256) c (by omega), hbyte n d (by omega)]

/-- How a client reads an ASCII name in which nothing is encoded. -/
theorem parseHost_name {idna : Web.DomainToAscii} {host : List Char}
    (hascii : ∀ c ∈ host, c.toNat < 128 ∧ c ≠ '%' ∧ c ≠ '[')
    (hlabels : ∀ label ∈ Web.labels host, ¬ ['x', 'n', '-', '-'] <+: Web.lower label) :
    Web.parseHost idna host =
      if (Web.lower host).isEmpty || (Web.lower host).any Web.isForbidden then none
      else if Web.endsInNumber (Web.lower host) then
        (Web.ipv4Address (Web.lower host)).map .ipv4
      else some (.domain (Web.lower host)) := by
  have hdecode : fromUtf8 (Web.percentDecode (asBytes (String.ofList host))) =
      some (String.ofList host) := by
    have hpercent : (37 : UInt8) ∉ asBytes (String.ofList host) := by
      intro hmem
      have hchar := (mem_asBytes_ascii (a := '%') (by decide)).mp hmem
      rw [String.toList_ofList] at hchar
      exact (hascii '%' hchar).2.1 rfl
    rw [percentDecode_eq_self hpercent, fromUtf8_asBytes]
  have htoAscii := idna.ascii host (fun c hc => (hascii c hc).1) hlabels
  unfold Web.parseHost
  split
  · rename_i inner
    exact absurd rfl (hascii '[' List.mem_cons_self).2.2
  · rw [hdecode]
    dsimp only
    rw [String.toList_ofList, htoAscii]

/-- A dotted quad is the same address to the guard and to a client. -/
theorem parse_dottedQuad {host : List Char} (h : Web.DottedQuad host) :
    ∃ n ip, Web.ipv4Address (Web.lower host) = some n ∧ addressOf (.ipv4 n) = some ip ∧
      parseIpAddr host = some ip := by
  obtain ⟨⟨a, b, c, d⟩, hread⟩ := (Web.readIpv4Addr_iff_dottedQuad host).mpr h
  obtain ⟨da, db, dc, dd, -, -, -, hlt⟩ := Web.readIpv4Addr_eq_some hread
  refine ⟨((a * 256 + b) * 256 + c) * 256 + d, .v4 (Ipv4Addr.ofOctets (a, b, c, d)), ?_,
    addressOf_octets (hlt b (by simp)) (hlt c (by simp)) (hlt d (by simp)), ?_⟩
  · rw [lower_eq_self_of_strict hread, Web.ipv4Address_of_strict hread]
  · unfold parseIpAddr readIpAddr
    rw [hread]

/-- **A name as it stands** is the address that the guard reads, if it is one at all. -/
theorem parse_name {idna : Web.DomainToAscii} {host : List Char} {h : Web.Host} {ip : IpAddr}
    (hascii : ∀ c ∈ host, c.toNat < 128 ∧ c ≠ '%' ∧ c ≠ '[')
    (hlabels : ∀ label ∈ Web.labels host, ¬ ['x', 'n', '-', '-'] <+: Web.lower label)
    (hnumber : Web.endsInNumber (Web.lower host) = true → Web.DottedQuad host)
    (hparse : Web.parseHost idna host = some h) (haddress : addressOf h = some ip) :
    parseIpAddr host = some ip := by
  rw [parseHost_name hascii hlabels] at hparse
  split_ifs at hparse with hbad hends
  · obtain ⟨n, ip', hn, hip', hread⟩ := parse_dottedQuad (hnumber hends)
    rw [hn] at hparse
    obtain rfl := Option.some.inj hparse
    rw [hread, ← hip', haddress]
  · obtain rfl := Option.some.inj hparse
    cases haddress

/-- A host of numbers and dots that is no dotted quad is no address to the guard. -/
theorem parseIpAddr_eq_none {host : List Char} (htext : ∀ c ∈ host, c ∈ numberChars)
    (h : ¬ Web.DottedQuad host) : parseIpAddr host = none := by
  have hcolon : ':' ∉ host := fun hmem => absurd (htext ':' hmem) (by decide)
  unfold parseIpAddr readIpAddr
  cases hread : readIpv4Addr host with
  | none => rw [Web.readIpv6Addr_eq_none hcolon]
  | some found =>
      obtain ⟨octets, rest⟩ := found
      cases rest with
      | nil => exact absurd ((Web.readIpv4Addr_iff_dottedQuad host).mp ⟨octets, hread⟩) h
      | cons c rest => rfl

/-! ### The guard -/

/-- What a client makes of a URL in which nothing is dropped and no backslash ends the authority:
it cuts where the guard cuts. -/
theorem hostOf_eq {idna : Web.DomainToAscii} {url scheme after : List Char}
    (hkept : ∀ c ∈ url, Web.isTabOrNewline c = false)
    (hends : ∀ c ∈ url.getLast?, Web.isC0OrSpace c = false)
    (hsplit : splitOnceAt "://".toList url = some (scheme, after))
    (hhttp : Web.lower scheme = "http".toList ∨ Web.lower scheme = "https".toList)
    (hslash : '\\' ∉ authorityOf after) (hauthority : authorityOf after ≠ []) :
    Web.hostOf idna url =
      let hostport := hostportOf (authorityOf after)
      let host := Web.hostText false hostport
      if host.isEmpty || !Web.portOk (hostport.drop host.length) then none
      else Web.parseHost idna host := by
  have hurl : url = scheme ++ ':' :: '/' :: '/' :: after := by
    rw [splitOnceAt_eq_some hsplit]
    simp
  have hclean : Web.clean url = url := by
    refine clean_eq_self hkept ?_ hends
    intro c hc
    cases scheme with
    | nil => simp [Web.lower] at hhttp
    | cons c' scheme =>
        rw [hurl] at hc
        obtain rfl := Option.some.inj hc
        have hletter := mem_scheme hhttp List.mem_cons_self
        unfold Web.isC0OrSpace
        exact decide_eq_false (by omega)
  have hcolon : ':' ∉ scheme := fun hmem =>
    absurd (mem_scheme hhttp hmem) (by decide)
  -- the authority is not empty, so no slash is skipped
  have hskip : ('/' :: '/' :: after).dropWhile Web.isSlash = after := by
    rw [List.dropWhile_cons, if_pos (by decide), List.dropWhile_cons, if_pos (by decide)]
    cases after with
    | nil => rfl
    | cons c after =>
        unfold authorityOf at hauthority hslash
        rw [List.takeWhile_cons] at hauthority hslash
        by_cases hc : (!(c == '/' || c == '?' || c == '#')) = true
        · rw [if_pos hc] at hslash
          rw [List.dropWhile_cons, if_neg]
          unfold Web.isSlash
          simp only [Bool.not_eq_true', Bool.or_eq_false_iff, beq_eq_false_iff_ne] at hc
          simp only [Bool.or_eq_true, beq_iff_eq, not_or]
          exact ⟨hc.1.1, fun heq => hslash (heq ▸ List.mem_cons_self)⟩
        · rw [if_neg hc] at hauthority
          exact absurd rfl hauthority
  unfold Web.hostOf
  dsimp only
  rw [hclean, hurl, takeWhile_append_sep hcolon, List.drop_left]
  dsimp only
  rw [if_pos hhttp, hskip, takeWhile_endsAuthority hslash, afterLast_eq]

/-- **A plain URL**: if the client reads an address out of it, so does the guard. -/
theorem Plain.parse_eq {idna : Web.DomainToAscii} {url host : List Char} {ip : IpAddr}
    (hplain : Plain url) (htarget : targetHost url = .ok host)
    (hconnects : connectsTo idna url = some ip) : parseIpAddr host = some ip := by
  -- how the guard cuts the URL
  unfold targetHost at htarget
  split at htarget
  · cases htarget
  rename_i scheme after hsplit
  dsimp only at htarget
  split_ifs at htarget with hscheme
  have hhttp : Web.lower scheme = "http".toList ∨ Web.lower scheme = "https".toList := by
    by_contra hnot
    push Not at hnot
    exact hscheme hnot
  obtain ⟨found, hcut, hfound⟩ := Result.bind_eq_ok.mp htarget
  split_ifs at hfound with hempty
  obtain rfl := Except.ok.inj hfound
  obtain ⟨hslash, hhost⟩ := hplain.authority scheme after hsplit
  have hauthority : authorityOf after ≠ [] := by
    intro hnil
    rw [hnil] at hcut
    exact hempty (by rw [← Except.ok.inj hcut]; rfl)
  obtain ⟨h, hhost', haddress⟩ := Option.bind_eq_some_iff.mp hconnects
  rw [hostOf_eq hplain.kept hplain.ends hsplit hhttp hslash hauthority] at hhost'
  dsimp only at hhost'
  split_ifs at hhost' with hbad
  simp only [Bool.or_eq_true, Bool.not_eq_true', not_or, Bool.not_eq_false] at hbad
  generalize hostportOf (authorityOf after) = hostport at *
  rcases hhost with hbracket | ⟨hascii, hlast, hname⟩
  · cases hostport with
    | nil => cases hbracket
    | cons c rest =>
        obtain rfl := Option.some.inj hbracket
        exact parse_bracketed hcut hhost' haddress
  · have hbracket : '[' ∉ hostport := fun hmem => (hascii '[' hmem).2.2 rfl
    have hsame : found = Web.hostText false hostport :=
      Except.ok.inj (hcut.symm.trans (hostIn_eq_hostText hbracket hbad.2 hlast))
    rw [← hsame] at hhost'
    obtain ⟨hlabels, hnumber⟩ := hname found hcut
    refine parse_name ?_ hlabels hnumber hhost' haddress
    intro c hc
    exact hascii c ((hostText_begins false hostport).subset (hsame ▸ hc))

/-! ### Spellings of an IPv4 address -/

/-- A character of a number as it is looked up: in lower case. -/
def lowerChar (c : Char) : Char := if isAsciiUppercase c then Char.ofNat (c.toNat + 32) else c

/-- What is true of all the characters of numbers. -/
theorem numberChar {c : Char} (h : c ∈ numberChars) :
    (c.toNat < 128 ∧ c ≠ '%' ∧ c ≠ '[') ∧ c ≠ ':' ∧ lowerChar c ≠ 'n' ∧
      Web.isForbidden (lowerChar c) = false := by
  have hall : ∀ c ∈ numberChars, (c.toNat < 128 ∧ c ≠ '%' ∧ c ≠ '[') ∧ c ≠ ':' ∧
      lowerChar c ≠ 'n' ∧ Web.isForbidden (lowerChar c) = false :=
    forall_mem_of_all (by decide)
  exact hall c h

/-- A client connects to the address that the host spells, whatever the spelling. -/
theorem SpellsHost.connects {idna : Web.DomainToAscii} {url host : List Char} {n : Nat}
    (h : SpellsHost url host) (hn : Web.ipv4Address (Web.lower host) = some n) :
    connectsTo idna url = addressOf (.ipv4 n) ∧ targetHost url = .ok host := by
  obtain ⟨scheme, after, port, hsplit, hhttp, hslash, hhostport, hport⟩ := h.authority
  have hne : host ≠ [] := by
    rintro rfl
    cases hn
  have hauthority : authorityOf after ≠ [] := by
    intro hnil
    rw [hnil] at hhostport
    exact hne (List.append_eq_nil_iff.mp hhostport.symm).1
  have hcolon : ':' ∉ host := fun hmem => (numberChar (h.text ':' hmem)).2.1 rfl
  have hportText : ∀ c ∈ port, c ≠ '[' := by
    rintro c hc rfl
    rcases hport with rfl | ⟨digits, rfl, -, hdigits, -⟩
    · cases hc
    · rcases List.mem_cons.mp hc with heq | hmem
      · exact absurd heq (by decide)
      · exact absurd (List.all_eq_true.mp hdigits '[' hmem) (by decide)
  have hbracket : '[' ∉ host ++ port := by
    intro hmem
    rcases List.mem_append.mp hmem with hmem | hmem
    · exact (numberChar (h.text '[' hmem)).1.2.2 rfl
    · exact hportText '[' hmem rfl
  have htext : Web.hostText false (host ++ port) = host := by
    rw [hostText_eq_takeWhile hbracket]
    rcases hport with rfl | ⟨digits, rfl, -, -, -⟩
    · rw [List.append_nil]
      exact List.takeWhile_eq_self_iff.mpr (bne_of_not_mem hcolon)
    · exact takeWhile_append_sep hcolon
  have hportOk : Web.portOk ((host ++ port).drop (Web.hostText false (host ++ port)).length) =
      true := by
    rw [htext, List.drop_left]
    rcases hport with rfl | ⟨digits, rfl, -, hdigits, hle⟩
    · rfl
    · rw [Web.portOk, hdigits, decide_eq_true hle]
      rfl
  have hlast : (host ++ port).getLast? ≠ some ':' := by
    rcases hport with rfl | ⟨digits, rfl, hdigitsNe, hdigits, -⟩
    · rw [List.append_nil]
      exact fun heq => hcolon (List.mem_of_getLast? heq)
    · rw [List.getLast?_append_of_ne_nil _ (List.cons_ne_nil _ _), List.getLast?_cons_of_ne_nil hdigitsNe]
      intro heq
      exact absurd (List.all_eq_true.mp hdigits ':' (List.mem_of_getLast? heq)) (by decide)
  constructor
  · have hhost : Web.hostOf idna url = some (.ipv4 n) := by
      rw [hostOf_eq h.kept h.ends hsplit hhttp hslash hauthority, hhostport]
      dsimp only
      rw [hportOk, htext, Bool.not_true, Bool.or_false, if_neg (by simpa using hne),
        parseHost_name (fun c hc => (numberChar (h.text c hc)).1)]
      · have hallowed : (Web.lower host).any Web.isForbidden = false := by
          rw [List.any_eq_false]
          intro c hc
          obtain ⟨c', hc', rfl⟩ := List.mem_map.mp hc
          exact Bool.eq_false_iff.mp (numberChar (h.text c' hc')).2.2.2
        have hlower : Web.lower host ≠ [] := by simpa [Web.lower] using hne
        rw [hallowed, Bool.or_false, if_neg (by simpa using hlower),
          if_pos (Web.endsInNumber_of_ipv4Address hn), hn]
        rfl
      · intro label hlabel hpunycode
        -- no number has an `n` in it
        have hmem : 'n' ∈ Web.lower label := hpunycode.subset (by simp)
        obtain ⟨c, hc, heq⟩ := List.mem_map.mp hmem
        exact (numberChar (h.text c (Web.mem_of_mem_labels hlabel hc))).2.2.1 heq
    unfold connectsTo
    rw [hhost]
    rfl
  · have hcut := hostIn_eq_hostText hbracket hportOk hlast
    rw [htext] at hcut
    have hscheme : ¬ (Web.lower scheme ≠ "http".toList ∧ Web.lower scheme ≠ "https".toList) := by
      rintro ⟨hhttp', hhttps'⟩
      rcases hhttp with heq | heq
      · exact hhttp' heq
      · exact hhttps' heq
    unfold targetHost
    rw [hsplit]
    dsimp only
    rw [if_neg hscheme, hhostport, hcut]
    exact if_neg (by simpa using hne)

/-- The guard with internal addresses forbidden. -/
theorem validate_eq_ok {url : String} :
    validateWebhookUrl url false = .ok () ↔
      ∃ host, targetHost url.toList = .ok host ∧ readsBlocked host = false := by
  unfold validateWebhookUrl
  constructor
  · intro h
    obtain ⟨host, hhost, hok⟩ := Result.bind_eq_ok.mp h
    split_ifs at hok with hblocked
    exact ⟨host, hhost, by simpa using hblocked⟩
  · intro h
    obtain ⟨host, hhost, hok⟩ := h
    rw [hhost]
    change (if (!false && readsBlocked host) = true then _ else _) = _
    rw [hok, if_neg (by decide)]
    rfl

/-- **The guard guards plain URLs.** -/
theorem guarded_of_plain {idna : Web.DomainToAscii} {url : String} (hplain : Plain url.toList) :
    Guarded idna url := by
  intro hvalid ip hip
  obtain ⟨host, hhost, hok⟩ := validate_eq_ok.mp hvalid
  have hparse := hplain.parse_eq hhost hip
  unfold readsBlocked at hok
  rw [hparse] at hok
  exact hok

/-- **Of the spellings of an internal IPv4 address** the guard knows the dotted quad only. -/
theorem guarded_iff_dottedQuad {idna : Web.DomainToAscii} {url : String} {host : List Char}
    (h : SpellsHost url.toList host) {n : Nat} {ip : IpAddr}
    (hn : Web.ipv4Address (Web.lower host) = some n) (hip : addressOf (.ipv4 n) = some ip)
    (hblocked : isBlockedTargetIp ip = true) : Guarded idna url ↔ Web.DottedQuad host := by
  obtain ⟨hconnects, htarget⟩ : connectsTo idna url.toList = addressOf (.ipv4 n) ∧
      targetHost url.toList = .ok host :=
    h.connects hn
  constructor
  · intro hguarded
    by_contra hother
    have hpass : validateWebhookUrl url false = .ok () := by
      refine validate_eq_ok.mpr ⟨host, htarget, ?_⟩
      unfold readsBlocked
      rw [parseIpAddr_eq_none h.text hother]
      rfl
    have hfree := hguarded hpass ip (hconnects.trans hip)
    exact Bool.noConfusion (hblocked.symm.trans hfree)
  · intro hquad hvalid
    obtain ⟨host', htarget', hok⟩ := validate_eq_ok.mp hvalid
    obtain rfl := Except.ok.inj (htarget.symm.trans htarget')
    obtain ⟨n', ip', hn', hip', hread⟩ := parse_dottedQuad hquad
    obtain rfl := Option.some.inj (hn.symm.trans hn')
    obtain rfl := Option.some.inj (hip.symm.trans hip')
    -- the guard reads the address itself, so the URL does not pass
    unfold readsBlocked at hok
    rw [hread] at hok
    exact Bool.noConfusion (hblocked.symm.trans hok)

/-- **When the guard guards.**  A plain URL that passes leads to no internal address.  Plainness
is a condition on the text alone; it is enough for every URL, and in the place where most
disguises are, the spelling of the host, it is needed: of the URLs that write out an internal
IPv4 address as numbers and dots in any way that clients take, and hide nothing else, the
guarded ones are those that write a dotted quad. -/
theorem guarded_plain (idna : Web.DomainToAscii) (url : String) :
    (Plain url.toList → Guarded idna url) ∧
      ∀ host n ip, SpellsHost url.toList host → Web.ipv4Address (Web.lower host) = some n →
        addressOf (.ipv4 n) = some ip → isBlockedTargetIp ip = true →
        (Guarded idna url ↔ Web.DottedQuad host) :=
  ⟨guarded_of_plain, fun _ _ _ hspells hn hip hblocked =>
    guarded_iff_dottedQuad hspells hn hip hblocked⟩

theorem plain_sample : Plain "https://alice@8.8.8.8:443/hook".toList where
  kept := forall_mem_of_all (by decide)
  ends c hc := by
    obtain rfl : c = 'k' := (Option.some.inj hc).symm
    decide
  authority scheme after h := by
    obtain ⟨rfl, rfl⟩ := Prod.mk.inj (Option.some.inj
      ((show splitOnceAt "://".toList "https://alice@8.8.8.8:443/hook".toList =
        some ("https".toList, "alice@8.8.8.8:443/hook".toList) by decide).symm.trans h))
    refine ⟨by decide, Or.inr ⟨forall_mem_of_all (by decide), by decide, fun host hhost => ?_⟩⟩
    obtain rfl := Except.ok.inj hhost
    exact ⟨by decide, fun _ =>
      (Web.readIpv4Addr_iff_dottedQuad _).mp ⟨(8, 8, 8, 8), by decide⟩⟩

/-- A client that knows ASCII domains only. -/
def asciiOnly : Web.DomainToAscii where
  toAscii s := if s.all fun c => decide (c.toNat < 128) then some (Web.lower s) else none
  ascii _ hascii _ := if_pos (List.all_eq_true.mpr fun c hc => decide_eq_true (hascii c hc))

theorem spellsHost_sample : SpellsHost "http://127.0.0.1:80/hook".toList "127.0.0.1".toList where
  kept := forall_mem_of_all (by decide)
  ends c hc := by
    obtain rfl : c = 'k' := (Option.some.inj hc).symm
    decide
  authority := ⟨"http".toList, "127.0.0.1:80/hook".toList, ":80".toList, by decide, by decide,
    by decide, by decide, Or.inr ⟨"80".toList, by decide, by decide, by decide, by decide⟩⟩
  text := forall_mem_of_all (by decide)

theorem spellsHost_disguised : SpellsHost "http://0x7f.1:80/hook".toList "0x7f.1".toList where
  kept := forall_mem_of_all (by decide)
  ends c hc := by
    obtain rfl : c = 'k' := (Option.some.inj hc).symm
    decide
  authority := ⟨"http".toList, "0x7f.1:80/hook".toList, ":80".toList, by decide, by decide,
    by decide, by decide, Or.inr ⟨"80".toList, by decide, by decide, by decide, by decide⟩⟩
  text := forall_mem_of_all (by decide)

/-- A public address, and loopback in its own spelling and in another one. -/
theorem guarded_plain_loopback :
    Guarded asciiOnly "https://alice@8.8.8.8:443/hook" ∧
      Guarded asciiOnly "http://127.0.0.1:80/hook" ∧
      ¬ Guarded asciiOnly "http://0x7f.1:80/hook" := by
  have hquad : Web.DottedQuad "127.0.0.1".toList :=
    (Web.readIpv4Addr_iff_dottedQuad _).mp ⟨(127, 0, 0, 1), by decide⟩
  have hother : ¬ Web.DottedQuad "0x7f.1".toList := by
    intro h
    obtain ⟨octets, hread⟩ := (Web.readIpv4Addr_iff_dottedQuad _).mpr h
    rw [show readIpv4Addr "0x7f.1".toList = none by decide] at hread
    cases hread
  refine ⟨(guarded_plain asciiOnly _).1 plain_sample, ?_, ?_⟩
  · exact ((guarded_plain asciiOnly _).2 _ 2130706433 (.v4 ⟨127, 0, 0, 1⟩) spellsHost_sample
      (by decide) (by decide) (by decide)).mpr hquad
  · exact fun hguarded => hother (((guarded_plain asciiOnly _).2 _ 2130706433 (.v4 ⟨127, 0, 0, 1⟩)
      spellsHost_disguised (by decide) (by decide) (by decide)).mp hguarded)

/-- Loopback in spellings that pass. -/
def disguised : List String :=
  ["http://2130706433/hook", "http://0x7f.0.0.1/hook", "http://0177.0.0.1/hook", "http://127.1/hook",
    "http://127.0.0.1./hook", "http://127.0.0.1:/hook", "http://%31%32%37.0.0.1/hook",
    "http://127.0.0.1\\@hooks.example.com/", "http://127.0.0\t.1/hook", "http://127.0.0.1 "]

theorem disguised_pass :
    (disguised.all fun url =>
        decide (validateWebhookUrl url false = .ok ()) &&
          decide (connectsTo asciiOnly url.toList = some (.v4 ⟨127, 0, 0, 1⟩))) = true ∧
      isBlockedTargetIp (.v4 ⟨127, 0, 0, 1⟩) = true ∧
      ¬ Guarded asciiOnly "http://2130706433/hook" := by
  have hpass : (disguised.all fun url =>
      decide (validateWebhookUrl url false = .ok ()) &&
        decide (connectsTo asciiOnly url.toList = some (.v4 ⟨127, 0, 0, 1⟩))) = true := by
    decide +kernel
  refine ⟨hpass, by decide, fun hguarded => ?_⟩
  have hfirst := List.all_eq_true.mp hpass "http://2130706433/hook" List.mem_cons_self
  obtain ⟨hvalid, hconnects⟩ := Bool.and_eq_true_iff.mp hfirst
  exact absurd (hguarded (of_decide_eq_true hvalid) _ (of_decide_eq_true hconnects)) (by decide)

end Webhooks
end Artifacts
