import Dns.Octets

/-!
# SipHash-1-3

A short keyed hash of 64 bits. Here its key is zero and it serves as a fingerprint: one round for
every word of eight octets (least significant octet first), three rounds at the end, where the last
word also carries the number of octets in its highest octet.
-/

set_option autoImplicit false

namespace Dns.SipHash

structure State where
  v0 : UInt64
  v1 : UInt64
  v2 : UInt64
  v3 : UInt64

def rotateLeft (x : UInt64) (n : UInt64) : UInt64 := (x <<< n) ||| (x >>> (64 - n))

def initial : State :=
  ⟨0x736f6d6570736575, 0x646f72616e646f6d, 0x6c7967656e657261, 0x7465646279746573⟩

def round (s : State) : State :=
  let v0 := s.v0 + s.v1
  let v1 := rotateLeft s.v1 13 ^^^ v0
  let v0 := rotateLeft v0 32
  let v2 := s.v2 + s.v3
  let v3 := rotateLeft s.v3 16 ^^^ v2
  let v0 := v0 + v3
  let v3 := rotateLeft v3 21 ^^^ v0
  let v2 := v2 + v1
  let v1 := rotateLeft v1 17 ^^^ v2
  let v2 := rotateLeft v2 32
  ⟨v0, v1, v2, v3⟩

def absorb (s : State) (word : UInt64) : State :=
  let s := round { s with v3 := s.v3 ^^^ word }
  { s with v0 := s.v0 ^^^ word }

/-- The word of octets, least significant octet first. -/
def word (octets : Octets) : UInt64 := UInt64.ofNat (Octets.toNat octets.reverse)

/-- The hash of the rest of a text of `length` octets. -/
def finish (length : Nat) (s : State) (rest : Octets) : UInt64 :=
  -- The last word has the length in its highest octet.
  let s := absorb s (word rest ||| (UInt64.ofNat length <<< 56))
  let s := round (round (round { s with v2 := s.v2 ^^^ 0xff }))
  s.v0 ^^^ s.v1 ^^^ s.v2 ^^^ s.v3

/-- Takes up all whole words and finishes with what is left. -/
def absorbAll (length : Nat) (s : State) : Octets → UInt64
  | a :: b :: c :: d :: e :: f :: g :: h :: rest =>
    absorbAll length (absorb s (word [a, b, c, d, e, f, g, h])) rest
  | rest => finish length s rest

/-- The hash of octets under the zero key. -/
def hash (octets : Octets) : UInt64 := absorbAll octets.length initial octets

end Dns.SipHash
