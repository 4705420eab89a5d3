import Artifacts.Rust.Bytes
import Artifacts.Rust.Net
import Mathlib.Algebra.Ring.Nat

/-!
# The host of an http URL

The URL rules that web clients follow, as far as they decide the host of an absolute
`http` or `https` URL: what is skipped, where the authority ends, which part of it is the
host, and which hosts are IP addresses.  The mapping of a domain to ASCII rests on the
Unicode tables and is a parameter; of a domain that is ASCII already it makes lower case.

The definitions follow the published rules, in their order: cleaning, scheme, authority, host.
Schemes other than the two, relative URLs and what stands behind the host are left out.
-/

namespace Artifacts
namespace Web

open Rust

/-- What a client connects to. An address is its value here, so that two spellings of it are the
same host. -/
inductive Host where
  | domain (name : List Char)
  /-- The address as a number of 32 bits. -/
  | ipv4 (address : Nat)
  /-- The eight pieces. -/
  | ipv6 (pieces : List Nat)
  deriving DecidableEq, Repr

def lower (s : List Char) : List Char :=
  s.map fun c => if isAsciiUppercase c then Char.ofNat (c.toNat + 32) else c

def labels (s : List Char) : List (List Char) := s.splitOn '.'

/-- Domain to ASCII. -/
structure DomainToAscii where
  toAscii : List Char → Option (List Char)
  /-- An ASCII domain without a label in Punycode is its own mapping, in lower case. -/
  ascii : ∀ s, (∀ c ∈ s, c.toNat < 128) →
    (∀ label ∈ labels s, ¬ ['x', 'n', '-', '-'] <+: lower label) → toAscii s = some (lower s)

/-! ### Addresses -/

/-- The radix that a number is in, and its digits. -/
def ipv4Radix (s : List Char) : Nat × List Char :=
  match s with
  | '0' :: 'x' :: rest => (16, rest)
  | '0' :: 'X' :: rest => (16, rest)
  | '0' :: c :: rest => (8, c :: rest)
  | _ => (10, s)

/-- The IPv4 number parser: decimal, octal or hexadecimal. -/
def ipv4Number (s : List Char) : Option Nat :=
  if s.isEmpty then none
  else if (ipv4Radix s).2.all (isDigit (ipv4Radix s).1) then
    some (digitsValue (ipv4Radix s).1 (ipv4Radix s).2)
  else none

/-- The parts between dots, without an empty one at the end. -/
def hostParts (s : List Char) : List (List Char) :=
  let parts := labels s
  if parts.getLast? = some [] ∧ 1 < parts.length then parts.dropLast else parts

/-- The ends-in-a-number checker. -/
def endsInNumber (s : List Char) : Bool :=
  match (hostParts s).getLast? with
  | none => false
  | some last => (!last.isEmpty && last.all isAsciiDigit) || (ipv4Number last).isSome

/-- The IPv4 parser: up to four numbers, the last one filling what is left. -/
def ipv4Address (s : List Char) : Option Nat :=
  let parts := hostParts s
  if 4 < parts.length then none
  else
    match parts.mapM ipv4Number with
    | none => none
    | some numbers =>
        let last := numbers.getLastD 0
        if numbers.dropLast.any (fun n => 255 < n) || 256 ^ (5 - numbers.length) ≤ last then none
        else some (numbers.dropLast.zipIdx.foldl (fun sum (n, i) => sum + n * 256 ^ (3 - i)) last)

/-- A decimal number of an IPv4 address at the end of an IPv6 address. -/
def ipv6Octet (s : List Char) : Option (Nat × List Char) :=
  let digits := s.takeWhile isAsciiDigit
  if digits.isEmpty || (digits.head? == some '0' && 1 < digits.length) || 255 < digitsValue 10 digits
  then none
  else some (digitsValue 10 digits, s.dropWhile isAsciiDigit)

/-- Four of them, and nothing after. -/
def ipv6Tail (s : List Char) : Option (Nat × Nat × Nat × Nat) := do
  let (a, s) ← ipv6Octet s
  let s ← readGivenChar '.' s
  let (b, s) ← ipv6Octet s
  let s ← readGivenChar '.' s
  let (c, s) ← ipv6Octet s
  let s ← readGivenChar '.' s
  let (d, s) ← ipv6Octet s
  if s.isEmpty then some (a, b, c, d) else none

/-- The pieces of an IPv6 address, with `none` for `::`.  The first argument is the number
of pieces that may still come. -/
def ipv6Pieces : Nat → Bool → List Char → Option (List (Option Nat))
  | _, _, [] => some []
  | 0, _, _ :: _ => none
  | left + 1, compressed, ':' :: rest =>
      if compressed then none else (ipv6Pieces left true rest).map (none :: ·)
  | left + 1, compressed, s =>
      let digits := (s.take 4).takeWhile (isDigit 16)
      match s.drop digits.length with
      | [] => some [some (digitsValue 16 digits)]
      | '.' :: _ =>
          if digits.isEmpty || left = 0 then none
          else (ipv6Tail s).map fun (a, b, c, d) => [some (a * 256 + b), some (c * 256 + d)]
      | ':' :: rest =>
          if rest.isEmpty then none
          else (ipv6Pieces left compressed rest).map (some (digitsValue 16 digits) :: ·)
      | _ :: _ => none

/-- The zeros that `::` stands for. -/
def ipv6Expand (pieces : List (Option Nat)) : Option (List Nat) :=
  let front := pieces.takeWhile Option.isSome
  let back := (pieces.dropWhile Option.isSome).drop 1
  if front.length = pieces.length then
    if pieces.length = 8 then some (pieces.map (Option.getD · 0)) else none
  else
    some (front.map (Option.getD · 0) ++ List.replicate (8 - front.length - back.length) 0 ++
      back.map (Option.getD · 0))

/-- The IPv6 parser. -/
def ipv6Address (s : List Char) : Option (List Nat) :=
  match s with
  | ':' :: ':' :: rest => (ipv6Pieces 7 true rest).bind fun pieces => ipv6Expand (none :: pieces)
  | ':' :: _ => none
  | _ => (ipv6Pieces 8 false s).bind ipv6Expand

/-! ### The host parser -/

def percentDecode : List UInt8 → List UInt8
  | 37 :: hi :: lo :: rest =>
      match toDigit16 (Char.ofNat hi.toNat), toDigit16 (Char.ofNat lo.toNat) with
      | some hi', some lo' => (hi' * 16 + lo').toUInt8 :: percentDecode rest
      | _, _ => 37 :: percentDecode (hi :: lo :: rest)
  | b :: rest => b :: percentDecode rest
  | [] => []

/-- Forbidden domain code points. -/
def isForbidden (c : Char) : Bool :=
  c.toNat ≤ 0x20 || c.toNat == 0x7f || "#/:<>?@[\\]^|%".toList.contains c

def parseHost (idna : DomainToAscii) (input : List Char) : Option Host :=
  match input with
  | '[' :: inner =>
      if inner.getLast? = some ']' then (ipv6Address inner.dropLast).map .ipv6 else none
  | _ =>
      -- bytes that are no UTF-8 decode to a character that has no mapping
      match fromUtf8 (percentDecode (asBytes (String.ofList input))) with
      | none => none
      | some domain =>
          match idna.toAscii domain.toList with
          | none => none
          | some ascii =>
              if ascii.isEmpty || ascii.any isForbidden then none
              else if endsInNumber ascii then (ipv4Address ascii).map .ipv4
              else some (.domain ascii)

/-! ### The authority -/

def isC0OrSpace (c : Char) : Bool := c.toNat ≤ 0x20

def isTabOrNewline (c : Char) : Bool := c == '\t' || c == '\n' || c == '\r'

/-- What is left to parse of a URL. -/
def clean (url : List Char) : List Char :=
  (((url.dropWhile isC0OrSpace).reverse.dropWhile isC0OrSpace).reverse).filter
    fun c => !isTabOrNewline c

def isSlash (c : Char) : Bool := c == '/' || c == '\\'

def endsAuthority (c : Char) : Bool := isSlash c || c == '?' || c == '#'

/-- What comes behind the last `sep`, or everything. -/
def afterLast (sep : Char) (s : List Char) : List Char := (s.reverse.takeWhile (· != sep)).reverse

/-- Up to the first colon outside brackets. -/
def hostText : Bool → List Char → List Char
  | _, [] => []
  | inside, c :: rest =>
      if c = ':' && !inside then []
      else c :: hostText (if c = '[' then true else if c = ']' then false else inside) rest

/-- What may follow the host. -/
def portOk : List Char → Bool
  | [] => true
  | _ :: digits => digits.all isAsciiDigit && digitsValue 10 digits ≤ 65535

/-- The host of an `http` or `https` URL. -/
def hostOf (idna : DomainToAscii) (url : List Char) : Option Host :=
  let input := clean url
  let scheme := input.takeWhile (· != ':')
  if lower scheme = "http".toList ∨ lower scheme = "https".toList then
    match input.drop scheme.length with
    | [] => none
    | _ :: rest =>
        let authority := (rest.dropWhile isSlash).takeWhile fun c => !endsAuthority c
        let hostport := afterLast '@' authority
        let host := hostText false hostport
        if host.isEmpty || !portOk (hostport.drop host.length) then none
        else parseHost idna host
  else none

end Web
end Artifacts
