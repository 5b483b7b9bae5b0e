import Dns.Hash.Blocks

/-!
# SHA-256

Blocks of 64 octets, eight words of 32 bits, sixty-four rounds.
-/

set_option autoImplicit false

namespace Dns.Hash.Sha256

structure State where
  a : UInt32
  b : UInt32
  c : UInt32
  d : UInt32
  e : UInt32
  f : UInt32
  g : UInt32
  h : UInt32

def constants : Array UInt32 := #[
  0x428a2f98, 0x71374491, 0xb5c0fbcf, 0xe9b5dba5, 0x3956c25b, 0x59f111f1, 0x923f82a4, 0xab1c5ed5,
  0xd807aa98, 0x12835b01, 0x243185be, 0x550c7dc3, 0x72be5d74, 0x80deb1fe, 0x9bdc06a7, 0xc19bf174,
  0xe49b69c1, 0xefbe4786, 0x0fc19dc6, 0x240ca1cc, 0x2de92c6f, 0x4a7484aa, 0x5cb0a9dc, 0x76f988da,
  0x983e5152, 0xa831c66d, 0xb00327c8, 0xbf597fc7, 0xc6e00bf3, 0xd5a79147, 0x06ca6351, 0x14292967,
  0x27b70a85, 0x2e1b2138, 0x4d2c6dfc, 0x53380d13, 0x650a7354, 0x766a0abb, 0x81c2c92e, 0x92722c85,
  0xa2bfe8a1, 0xa81a664b, 0xc24b8b70, 0xc76c51a3, 0xd192e819, 0xd6990624, 0xf40e3585, 0x106aa070,
  0x19a4c116, 0x1e376c08, 0x2748774c, 0x34b0bcb5, 0x391c0cb3, 0x4ed8aa4a, 0x5b9cca4f, 0x682e6ff3,
  0x748f82ee, 0x78a5636f, 0x84c87814, 0x8cc70208, 0x90befffa, 0xa4506ceb, 0xbef9a3f7, 0xc67178f2]

def rotateRight (x n : UInt32) : UInt32 := (x >>> n) ||| (x <<< (32 - n))

def words (block : Octets) : Array UInt32 :=
  ((pieces 4 block).map fun w => UInt32.ofNat (Octets.toNat w)).toArray

/-- The word that the schedule has behind the words so far, of which `i` are no longer needed. -/
def nextWord (w : Array UInt32) (i : Nat) : UInt32 :=
  let x := w.getD (i + 1) 0
  let y := w.getD (i + 14) 0
  let small := rotateRight x 7 ^^^ rotateRight x 18 ^^^ (x >>> 3)
  let large := rotateRight y 17 ^^^ rotateRight y 19 ^^^ (y >>> 10)
  w.getD i 0 + small + w.getD (i + 9) 0 + large

/-- The words that a block is stretched to, one for every round. -/
def schedule (block : Octets) : Array UInt32 :=
  (List.range 48).foldl (fun w i => w.push (nextWord w i)) (words block)

def round (w : Array UInt32) (s : State) (i : Nat) : State :=
  let high := rotateRight s.e 6 ^^^ rotateRight s.e 11 ^^^ rotateRight s.e 25
  let choice := (s.e &&& s.f) ^^^ ((~~~s.e) &&& s.g)
  let t := s.h + high + choice + constants.getD i 0 + w.getD i 0
  let low := rotateRight s.a 2 ^^^ rotateRight s.a 13 ^^^ rotateRight s.a 22
  let majority := (s.a &&& s.b) ^^^ (s.a &&& s.c) ^^^ (s.b &&& s.c)
  ⟨t + low + majority, s.a, s.b, s.c, s.d + t, s.e, s.f, s.g⟩

def compress (s : State) (block : Octets) : State :=
  let t := (List.range 64).foldl (round (schedule block)) s
  ⟨s.a + t.a, s.b + t.b, s.c + t.c, s.d + t.d, s.e + t.e, s.f + t.f, s.g + t.g, s.h + t.h⟩

def State.octets (s : State) : Octets :=
  [s.a, s.b, s.c, s.d, s.e, s.f, s.g, s.h].flatMap fun word => Octets.ofNat 4 word.toNat

@[simp] theorem State.length_octets (s : State) : s.octets.length = 32 := by
  simp [State.octets]

def digest (start : State) (message : Octets) : State :=
  (blocks 64 8 message).foldl compress start

def initial : State :=
  ⟨0x6a09e667, 0xbb67ae85, 0x3c6ef372, 0xa54ff53a,
   0x510e527f, 0x9b05688c, 0x1f83d9ab, 0x5be0cd19⟩

def hash (message : Octets) : Octets := (digest initial message).octets

@[simp] theorem length_hash (message : Octets) : (hash message).length = 32 := by
  simp [hash]

end Dns.Hash.Sha256
