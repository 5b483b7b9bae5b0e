import Dns.Rdata.Tsig
import Dns.Tsig.Algorithm

/-!
# Keys

A key is a secret that two parties share, with the algorithm that it is used for and an absolute
name by which records refer to it. Keys are equal if all three are.

Since the name is absolute by the type, whoever signs does not have to complete it, and the room
that a signature needs is known from the key alone (`Key.reserveLength`). It is counted with the
name in full; where the name is compressed, less is used.
-/

set_option autoImplicit false

namespace Dns

/-- Why there is no such key. -/
inductive NewKeyError where
  | relativeName
  deriving DecidableEq, Repr

def NewKeyError.message : NewKeyError → String
  | .relativeName => "key name must be absolute"

instance : ToString NewKeyError := ⟨NewKeyError.message⟩

/-- A shared secret. -/
structure Key where
  name : Name
  algorithm : Algorithm
  secret : Octets
  absolute : name.absolute = true
  deriving DecidableEq

namespace Key

def ofParts (name : Name) (algorithm : Algorithm) (secret : Octets) : Except NewKeyError Key :=
  if absolute : name.absolute = true then .ok { name, algorithm, secret, absolute }
  else .error .relativeName

/-- A key with a fresh secret as long as the hash of its algorithm, and that secret. -/
def generate (name : Name) (algorithm : Algorithm) (random : (length : Nat) → Octets) :
    Except NewKeyError (Key × Octets) := do
  let secret := random algorithm.nativeLength
  return (← ofParts name algorithm secret, secret)

/-- Keys are equal if their secrets, their algorithms and, up to letter case, their names are. -/
instance : BEq Key :=
  ⟨fun a b => a.name == b.name && decide (a.algorithm = b.algorithm) && a.secret == b.secret⟩

def algorithmName (k : Key) : Name := k.algorithm.name

def macLength (k : Key) : Nat := k.algorithm.macLength

/-- The number of octets to reserve for a TSIG record without other data: the owner, ten octets up
to the data, the name of the algorithm, sixteen octets of numbers and the signature. -/
def reserveLength (k : Key) : Nat :=
  k.name.wireLength + 10 + k.algorithmName.wireLength + 16 + k.macLength

end Key

end Dns
