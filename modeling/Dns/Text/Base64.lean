import Dns.Octets

/-!
# Base64

Three octets become four characters of an alphabet of 64, and an incomplete group at the end is
filled up with `=`. Reading is strict, so that every string of octets has exactly one text: the
padding has to be there, and the bits that it leaves over have to be zero.

Groups are cut off from the front, and one of fewer than three octets can only be the last. The
reader takes four characters at a time in the same way and keeps what it has found in reverse order.
-/

set_option autoImplicit false

namespace Dns.Base64

/-- The character of a number below 64. -/
def digit (n : Nat) : Char :=
  if n < 26 then Char.ofNat (65 + n)
  else if n < 52 then Char.ofNat (71 + n)
  else if n < 62 then Char.ofNat (n - 4)
  else if n = 62 then '+' else '/'

def value? (c : Char) : Option Nat :=
  if 'A' ≤ c ∧ c ≤ 'Z' then some (c.toNat - 65)
  else if 'a' ≤ c ∧ c ≤ 'z' then some (c.toNat - 71)
  else if '0' ≤ c ∧ c ≤ '9' then some (c.toNat + 4)
  else if c = '+' then some 62
  else if c = '/' then some 63
  else none

def group (a b c : UInt8) : List Char :=
  let n := (a.toNat * 256 + b.toNat) * 256 + c.toNat
  [digit (n / 262144), digit (n / 4096 % 64), digit (n / 64 % 64), digit (n % 64)]

/-- The characters of an incomplete group of one octet. -/
def group₁ (a : UInt8) : List Char :=
  [digit (a.toNat / 4), digit (a.toNat % 4 * 16), '=', '=']

/-- The characters of an incomplete group of two octets. -/
def group₂ (a b : UInt8) : List Char :=
  let n := a.toNat * 256 + b.toNat
  [digit (n / 1024), digit (n / 16 % 64), digit (n % 16 * 4), '=']

def groups : Octets → List (List Char)
  | a :: b :: c :: rest => group a b c :: groups rest
  | [a, b] => [group₂ a b]
  | [a] => [group₁ a]
  | [] => []

def encode (octets : Octets) : List Char := (groups octets).flatten

/-- Octets behind those in `found`, which come last one first. -/
def decodeFrom (found : Octets) : List Char → Option Octets
  | [] => some found.reverse
  | [w, x, '=', '='] => do
    let n := (← value? w) * 64 + (← value? x)
    -- Four bits belong to no octet.
    if n % 16 = 0 then some ((UInt8.ofNat (n / 16) :: found).reverse) else none
  | [w, x, y, '='] => do
    let n := ((← value? w) * 64 + (← value? x)) * 64 + (← value? y)
    -- Two bits belong to no octet.
    if n % 4 = 0 then some ((UInt8.ofNat (n / 4) :: UInt8.ofNat (n / 1024) :: found).reverse)
    else none
  | w :: x :: y :: z :: rest =>
    match value? w, value? x, value? y, value? z with
    | some w, some x, some y, some z =>
      let n := ((w * 64 + x) * 64 + y) * 64 + z
      decodeFrom (UInt8.ofNat n :: UInt8.ofNat (n / 256) :: UInt8.ofNat (n / 65536) :: found) rest
    | _, _, _, _ => none
  | _ => none

def decode? (text : List Char) : Option Octets := decodeFrom [] text

end Dns.Base64
