import Dns.Hash.Sha1
import Dns.Hash.Sha256
import Dns.Hash.Sha512

/-!
# Keyed hashes

`Hash` names the four hash functions that messages are signed with, and `MacFunction` is what
signing needs of them: a function of hash, secret and octets whose answer has the length of the
hash. Nothing about signatures depends on how that function works, so signing and checking take it
as a parameter; `hmac` is the one in use.

That the answer has the length of the hash is part of `MacFunction`. Signatures are cut from it, and
whoever cuts has to know that there is enough to cut from.
-/

set_option autoImplicit false

namespace Dns

/-- The hash functions for signatures. -/
inductive Hash where
  | sha1
  | sha256
  | sha384
  | sha512
  deriving DecidableEq, Repr

namespace Hash

def length : Hash → Nat
  | sha1 => 20
  | sha256 => 32
  | sha384 => 48
  | sha512 => 64

def blockLength : Hash → Nat
  | sha1 | sha256 => 64
  | sha384 | sha512 => 128

def apply : Hash → Octets → Octets
  | sha1 => Sha1.hash
  | sha256 => Sha256.hash
  | sha384 => Sha512.hash384
  | sha512 => Sha512.hash

@[simp] theorem length_apply (h : Hash) (message : Octets) :
    (h.apply message).length = h.length := by
  cases h <;> simp [apply, length]

end Hash

/-- A keyed hash for every hash function. -/
structure MacFunction where
  /-- The keyed hash of octets under a secret. -/
  mac : Hash → (secret message : Octets) → Octets
  /-- It is as long as the hash. -/
  length_mac : ∀ hash secret message, (mac hash secret message).length = hash.length

namespace MacFunction

/-- The secret brought to the length of a block: hashed if it is longer, filled up with zeros. -/
def blockKey (hash : Hash) (secret : Octets) : Octets :=
  let short := if hash.blockLength < secret.length then hash.apply secret else secret
  short ++ List.replicate (hash.blockLength - short.length) 0

/-- HMAC: the hash under an outer key of the hash under an inner key. -/
def hmac : MacFunction where
  mac hash secret message :=
    let key := blockKey hash secret
    hash.apply (key.map (· ^^^ 0x5c) ++ hash.apply (key.map (· ^^^ 0x36) ++ message))
  length_mac hash secret message := by simp

end MacFunction

end Dns
