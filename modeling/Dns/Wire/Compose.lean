import Dns.Octets

/-!
# Composing data

Composing gives the octets to append, or says why there are none. Nothing is written before all of
it is known, and so a failure leaves the message as it was.

Many parts of a message are preceded by their own length. Such a part can be too long for its
length to be written down, which is one of the four ways in which composing fails.

Numbers of fixed width cannot fail, and they are functions to octets (`Wire.uint16` and the like).
What can fail gives an `Except` with the reason. The reasons are the same for all data, so that a
caller who composes many things has one type of error.
-/

set_option autoImplicit false

namespace Dns

/-- Why data have no wire form. -/
inductive ComposeError where
  /-- A relative name, and no absolute origin to complete it with. -/
  | needAbsoluteName
  /-- Data longer than the length in front of them can say. -/
  | longData
  /-- A name of more than 255 octets after its completion. -/
  | longName
  /-- A serial number of another width than 32 bits. -/
  | serialWidth
  deriving DecidableEq, Repr

def ComposeError.message : ComposeError → String
  | .needAbsoluteName => "relative name without origin"
  | .longData => "data too long"
  | .longName => "domain name too long"
  | .serialWidth => "serial number is not 32 bits wide"

instance : ToString ComposeError := ⟨ComposeError.message⟩

namespace Wire

def uint8 (n : UInt8) : Octets := [n]

def uint16 (n : UInt16) : Octets := Octets.ofNat 2 n.toNat

def uint32 (n : UInt32) : Octets := Octets.ofNat 4 n.toNat

def uint64 (n : UInt64) : Octets := Octets.ofNat 8 n.toNat

@[simp] theorem length_uint16 (n : UInt16) : (uint16 n).length = 2 := Octets.length_ofNat 2 _

@[simp] theorem length_uint32 (n : UInt32) : (uint32 n).length = 4 := Octets.length_ofNat 4 _

@[simp] theorem length_uint64 (n : UInt64) : (uint64 n).length = 8 := Octets.length_ofNat 8 _

/-- Data after their length in 16 bits. -/
def lengthPrefixed (data : Octets) : Except ComposeError Octets :=
  if data.length < 65536 then .ok (Octets.ofNat 2 data.length ++ data) else .error .longData

end Wire

end Dns
