import Dns.Hash.Blocks

/-!
# SHA-1

Blocks of 64 octets, five words of 32 bits, eighty rounds in four groups of twenty.
-/

set_option autoImplicit false

namespace Dns.Hash.Sha1

structure State where
  a : UInt32
  b : UInt32
  c : UInt32
  d : UInt32
  e : UInt32

def initial : State := ⟨0x67452301, 0xEFCDAB89, 0x98BADCFE, 0x10325476, 0xC3D2E1F0⟩

def rotateLeft (x n : UInt32) : UInt32 := (x <<< n) ||| (x >>> (32 - n))

def words (block : Octets) : Array UInt32 :=
  ((pieces 4 block).map fun w => UInt32.ofNat (Octets.toNat w)).toArray

/-- The eighty words that a block is stretched to. -/
def schedule (block : Octets) : Array UInt32 :=
  (List.range 64).foldl
    (fun w i => w.push
      (rotateLeft (w.getD (i + 13) 0 ^^^ w.getD (i + 8) 0 ^^^ w.getD (i + 2) 0 ^^^ w.getD i 0) 1))
    (words block)

/-- The mixing function and the constant of round `i`. -/
def mix (i : Nat) (b c d : UInt32) : UInt32 × UInt32 :=
  if i < 20 then ((b &&& c) ||| ((~~~b) &&& d), 0x5A827999)
  else if i < 40 then (b ^^^ c ^^^ d, 0x6ED9EBA1)
  else if i < 60 then ((b &&& c) ||| (b &&& d) ||| (c &&& d), 0x8F1BBCDC)
  else (b ^^^ c ^^^ d, 0xCA62C1D6)

def round (w : Array UInt32) (s : State) (i : Nat) : State :=
  let (f, k) := mix i s.b s.c s.d
  ⟨rotateLeft s.a 5 + f + s.e + k + w.getD i 0, s.a, rotateLeft s.b 30, s.c, s.d⟩

def compress (s : State) (block : Octets) : State :=
  let t := (List.range 80).foldl (round (schedule block)) s
  ⟨s.a + t.a, s.b + t.b, s.c + t.c, s.d + t.d, s.e + t.e⟩

def State.octets (s : State) : Octets :=
  Octets.ofNat 4 s.a.toNat ++ Octets.ofNat 4 s.b.toNat ++ Octets.ofNat 4 s.c.toNat
    ++ Octets.ofNat 4 s.d.toNat ++ Octets.ofNat 4 s.e.toNat

def hash (message : Octets) : Octets :=
  ((blocks 64 8 message).foldl compress initial).octets

@[simp] theorem length_hash (message : Octets) : (hash message).length = 20 := by
  simp [hash, State.octets]

end Dns.Hash.Sha1
