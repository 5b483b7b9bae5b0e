import Dns.Wire.Reader
import Dns.Text.Decimal

/-!
# Network addresses

Addresses are octets of a fixed number. Four of them are written in decimal with dots between them.
Sixteen are written as eight numbers of 16 bits in hexadecimal with colons between them, where the
longest run of zeros (the first one of those, if it is at least two long) shrinks to `::`. An
address that only wraps one of four octets shows it in its own form behind `::ffff:`.
-/

set_option autoImplicit false

namespace Dns

/-- An address of four octets. -/
structure Ipv4 where
  octets : Octets
  length_octets : octets.length = 4
  deriving DecidableEq

/-- An address of sixteen octets. -/
structure Ipv6 where
  octets : Octets
  length_octets : octets.length = 16
  deriving DecidableEq

/-- Exactly `count` octets, as a value that is made of so many. -/
def Reader.exactly {α : Type} (count : Nat) (make : (o : Octets) → o.length = count → α) :
    Reader α := fun message pos =>
  if h : pos + count ≤ message.size then
    .ok (make (message.extract pos (pos + count)).toList (by
      simp only [Array.length_toList, Array.size_extract]
      omega)) (pos + count)
  else .error .shortInput pos

def dottedText (octets : Octets) : List Char :=
  List.intercalate ['.'] (octets.map fun b => Decimal.numeral b.toNat)

def hexNumeral (n : Nat) : List Char := Nat.toDigits 16 n

namespace Ipv4

def ofOctets? (octets : Octets) : Option Ipv4 :=
  if h : octets.length = 4 then some ⟨octets, h⟩ else none

def ofUInt32 (n : UInt32) : Ipv4 := ⟨Octets.ofNat 4 n.toNat, Octets.length_ofNat 4 n.toNat⟩

def read : Reader Ipv4 := Reader.exactly 4 Ipv4.mk

def text (a : Ipv4) : String := String.ofList (dottedText a.octets)

end Ipv4

namespace Ipv6

def ofOctets? (octets : Octets) : Option Ipv6 :=
  if h : octets.length = 16 then some ⟨octets, h⟩ else none

def read : Reader Ipv6 := Reader.exactly 16 Ipv6.mk

/-- Numbers of 16 bits. -/
def groupsOf : Octets → List Nat
  | a :: b :: rest => (a.toNat * 256 + b.toNat) :: groupsOf rest
  | _ => []

def leadingZeros (groups : List Nat) : Nat := (groups.takeWhile (· == 0)).length

/-- Place and length of the first run of zeros that no other run exceeds. -/
def longestRun (groups : List Nat) : Nat × Nat :=
  (List.range groups.length).foldl
    (fun best i =>
      let length := leadingZeros (groups.drop i)
      -- Of runs of one length the first one stays.
      if best.2 < length then (i, length) else best)
    (0, 0)

def colonText (groups : List Nat) : List Char :=
  List.intercalate [':'] (groups.map hexNumeral)

def textChars (a : Ipv6) : List Char :=
  if a.octets.take 12 = List.replicate 10 0 ++ [0xff, 0xff] then
    "::ffff:".toList ++ dottedText (a.octets.drop 12)
  else
    let groups := groupsOf a.octets
    let (place, length) := longestRun groups
    if 1 < length then
      colonText (groups.take place) ++ [':', ':'] ++ colonText (groups.drop (place + length))
    else colonText groups

def text (a : Ipv6) : String := String.ofList a.textChars

end Ipv6

end Dns
