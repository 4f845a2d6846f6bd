import DDAG.Lib.Strings

/-!
# Addresses

The parts of the Go packages `net` and `net/netip` that read addresses.  Which texts are
addresses and which ranges hold them is a parameter, `Netip`, since the development needs no
more of it.  `ipv4` are the addresses of version 4.
-/

/-- What `netip.ParseAddr` reads, and `Prefix.Contains`. -/
structure Netip where
  Addr : Type
  Range : Type
  parseAddr : List Char → Option Addr
  contains : Range → Addr → Bool

namespace Netip

def isAddr (net : Netip) (s : List Char) : Bool := (net.parseAddr s).isSome

/-! ## Host and port -/

/-- The text before and after the last rune `sep`. -/
def cutLast (s : List Char) (sep : Char) : Option (List Char × List Char) :=
  (Strings.cut s.reverse sep).map fun parts => (parts.2.reverse, parts.1.reverse)

def hasBracket (s : List Char) : Bool := s.contains '[' || s.contains ']'

/-- `net.SplitHostPort`, without the texts of its errors. -/
def splitHostPort (hostport : List Char) : Option (List Char × List Char) :=
  match cutLast hostport ':' with
  | none => none
  | some ('[' :: rest, port) =>
      -- the first closing bracket stands right before the last colon
      match Strings.cut rest ']' with
      | some (host, []) => if host.contains '[' || hasBracket port then none else some (host, port)
      | _ => none
  | some (host, port) =>
      if host.contains ':' || hasBracket host || hasBracket port then none else some (host, port)

/-! ## Version 4 -/

/-- A decimal number of one byte, without leading zeros. -/
def parseOctet (s : List Char) : Option Nat :=
  if 1 < s.length ∧ s.head? = some '0' then none else (Strings.digitsValue s).filter (· ≤ 255)

def parseIPv4 (s : List Char) : Option Nat :=
  match (Strings.split s '.').mapM parseOctet with
  | some [a, b, c, d] => some (((a * 256 + b) * 256 + c) * 256 + d)
  | _ => none

/-- Addresses of version 4, and ranges with a number of leading bits in common. -/
def ipv4 : Netip where
  Addr := Nat
  Range := Nat × Nat
  parseAddr := parseIPv4
  contains r a := a / 2 ^ (32 - r.2) = r.1 / 2 ^ (32 - r.2)

example : parseIPv4 "10.1.2.3".toList = some 167838211 ∧ parseIPv4 "10.01.2.3".toList = none ∧
    parseIPv4 "10.1.2".toList = none ∧ parseIPv4 "10.1.2.256".toList = none := by
  decide +kernel

example : splitHostPort "10.1.2.3:80".toList = some ("10.1.2.3".toList, "80".toList) ∧
    splitHostPort "[::1]:80".toList = some ("::1".toList, "80".toList) ∧
    splitHostPort "::1".toList = none ∧ splitHostPort "[::1]".toList = none := by
  decide +kernel

end Netip
