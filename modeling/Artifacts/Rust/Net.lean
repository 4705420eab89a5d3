import Artifacts.Rust.Text
import Mathlib.Data.List.TakeWhile

/-!
# IP addresses of the standard library

`std::net`: the two kinds of address, the predicates on them, and `IpAddr::from_str`,
which is strict about the notation.  A parser takes what it reads off the front of a
list of characters; one that fails leaves the list to its caller.

The predicates are those that the guard on webhook targets asks for.  The order of the readers and
their backtracking are as in the standard library, for they decide what is accepted.
-/

namespace Artifacts
namespace Rust

structure Ipv4Addr where
  a : UInt8
  b : UInt8
  c : UInt8
  d : UInt8
  deriving DecidableEq, Repr

/-- Eight groups of 16 bits. -/
structure Ipv6Addr where
  segments : List UInt16
  size : segments.length = 8
  deriving DecidableEq

inductive IpAddr where
  | v4 (addr : Ipv4Addr)
  | v6 (addr : Ipv6Addr)
  deriving DecidableEq

namespace Ipv4Addr

def isLoopback (v4 : Ipv4Addr) : Bool := v4.a == 127

def isPrivate (v4 : Ipv4Addr) : Bool :=
  v4.a == 10 || (v4.a == 172 && 16 ≤ v4.b && v4.b ≤ 31) || (v4.a == 192 && v4.b == 168)

def isLinkLocal (v4 : Ipv4Addr) : Bool := v4.a == 169 && v4.b == 254

def isUnspecified (v4 : Ipv4Addr) : Bool := v4 == ⟨0, 0, 0, 0⟩

def isBroadcast (v4 : Ipv4Addr) : Bool := v4 == ⟨255, 255, 255, 255⟩

def isDocumentation (v4 : Ipv4Addr) : Bool :=
  (v4.a == 192 && v4.b == 0 && v4.c == 2) || (v4.a == 198 && v4.b == 51 && v4.c == 100) ||
    (v4.a == 203 && v4.b == 0 && v4.c == 113)

def isMulticast (v4 : Ipv4Addr) : Bool := 224 ≤ v4.a && v4.a ≤ 239

end Ipv4Addr

namespace Ipv6Addr

def isLoopback (v6 : Ipv6Addr) : Bool := v6.segments == [0, 0, 0, 0, 0, 0, 0, 1]

def isUnspecified (v6 : Ipv6Addr) : Bool := v6.segments == [0, 0, 0, 0, 0, 0, 0, 0]

/-- `segments()[0]`. -/
def seg0 (v6 : Ipv6Addr) : UInt16 := v6.segments.headD 0

def isMulticast (v6 : Ipv6Addr) : Bool := v6.seg0 &&& 0xff00 == 0xff00

/-- `to_ipv4_mapped`. -/
def toIpv4Mapped (v6 : Ipv6Addr) : Option Ipv4Addr :=
  match v6.segments with
  | [0, 0, 0, 0, 0, 0xffff, ab, cd] =>
      some ⟨(ab >>> 8).toUInt8, ab.toUInt8, (cd >>> 8).toUInt8, cd.toUInt8⟩
  | _ => none

end Ipv6Addr

/-! ### The parser -/

/-- `char::to_digit`, up to radix 16. -/
def toDigit (radix : Nat) (c : Char) : Option Nat := (toDigit16 c).filter fun d => d < radix

def isDigit (radix : Nat) (c : Char) : Bool := (toDigit radix c).isSome

/-- The number that digits spell. -/
def digitsValue (radix : Nat) (digits : List Char) : Nat :=
  digits.foldl (fun n c => n * radix + (toDigit radix c).getD 0) 0

/-- `read_number` of a type that holds the numbers below `bound`. -/
def readNumber (radix maxDigits : Nat) (allowZeroPrefix : Bool) (bound : Nat) (s : List Char) :
    Option (Nat × List Char) :=
  let digits := s.takeWhile (isDigit radix)
  if maxDigits < digits.length then none
  else if digits.isEmpty then none
  else if !allowZeroPrefix && digits.head? == some '0' && 1 < digits.length then none
  else if digitsValue radix digits < bound then
    some (digitsValue radix digits, s.dropWhile (isDigit radix))
  else none

/-- `read_given_char`. -/
def readGivenChar (target : Char) : List Char → Option (List Char)
  | c :: rest => if c = target then some rest else none
  | [] => none

/-- `read_separator`: before all but the first item. -/
def readSeparator {α : Type} (sep : Char) (index : Nat)
    (inner : List Char → Option (α × List Char)) (s : List Char) : Option (α × List Char) :=
  if index = 0 then inner s else (readGivenChar sep s).bind inner

/-- One number of `read_ipv4_addr`. -/
def readOctet (s : List Char) : Option (Nat × List Char) := readNumber 10 3 false 256 s

/-- `read_ipv4_addr`. -/
def readIpv4Addr (s : List Char) : Option ((Nat × Nat × Nat × Nat) × List Char) := do
  let (a, s) ← readOctet s
  let s ← readGivenChar '.' s
  let (b, s) ← readOctet s
  let s ← readGivenChar '.' s
  let (c, s) ← readOctet s
  let s ← readGivenChar '.' s
  let (d, s) ← readOctet s
  return ((a, b, c, d), s)

/-- One group of `read_ipv6_addr`. -/
def readGroup (s : List Char) : Option (Nat × List Char) := readNumber 16 4 true 65536 s

/-- `read_groups`: the groups, whether an IPv4 address came last, and what is left.  The
first argument is the number of groups that may still come. -/
def readGroups : Nat → Nat → List Char → List Nat × Bool × List Char
  | 0, _, s => ([], false, s)
  | left + 1, i, s =>
      -- an embedded IPv4 address fills two groups
      match if 1 ≤ left then readSeparator ':' i readIpv4Addr s else none with
      | some ((a, b, c, d), s) => ([a * 256 + b, c * 256 + d], true, s)
      | none =>
          match readSeparator ':' i readGroup s with
          | none => ([], false, s)
          | some (group, s) =>
              let (groups, v4, s) := readGroups left (i + 1) s
              (group :: groups, v4, s)

/-- `read_ipv6_addr`. -/
def readIpv6Addr (s : List Char) : Option (List Nat × List Char) :=
  let (head, headV4, s) := readGroups 8 0 s
  if head.length = 8 then some (head, s)
  else if headV4 then none
  else do
    let s ← readGivenChar ':' s
    let s ← readGivenChar ':' s
    let (tail, _, s) := readGroups (8 - (head.length + 1)) 0 s
    return (head ++ List.replicate (8 - head.length - tail.length) 0 ++ tail, s)

def Ipv4Addr.ofOctets (octets : Nat × Nat × Nat × Nat) : Ipv4Addr :=
  ⟨octets.1.toUInt8, octets.2.1.toUInt8, octets.2.2.1.toUInt8, octets.2.2.2.toUInt8⟩

def Ipv6Addr.ofGroups (groups : List Nat) : Option Ipv6Addr :=
  if h : (groups.map Nat.toUInt16).length = 8 then some ⟨groups.map Nat.toUInt16, h⟩ else none

/-- `read_ip_addr`. -/
def readIpAddr (s : List Char) : Option (IpAddr × List Char) :=
  match readIpv4Addr s with
  | some (octets, s) => some (.v4 (Ipv4Addr.ofOctets octets), s)
  | none =>
      match readIpv6Addr s with
      | none => none
      | some (groups, s) => (Ipv6Addr.ofGroups groups).map fun addr => (.v6 addr, s)

/-- `IpAddr::from_str`: nothing may be left. -/
def parseIpAddr (s : List Char) : Option IpAddr :=
  match readIpAddr s with
  | some (addr, []) => some addr
  | _ => none

example : (parseIpAddr "::ffff:127.0.0.1".toList).isSome = true := by decide

end Rust
end Artifacts
