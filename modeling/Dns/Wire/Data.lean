import Dns.Wire.Compose
import Dns.Wire.Reader

/-!
# Data behind a length of 16 bits

Where octets of any number up to 65535 are part of something larger, their number comes before
them in 16 bits.

The limit is part of the type, and so the number can always be written. `Data.readExactly` reads as
many octets as the number says or none.
-/

set_option autoImplicit false

namespace Dns

/-- Octets whose number fits into 16 bits. -/
structure Data where
  octets : Octets
  short : octets.length < 65536
  deriving DecidableEq

namespace Data

def empty : Data := ⟨[], by decide⟩

instance : Inhabited Data := ⟨empty⟩

/-- These octets, if they are not too many. -/
def ofOctets (octets : Octets) : Except ComposeError Data :=
  if h : octets.length < 65536 then .ok ⟨octets, h⟩ else .error .longData

def zeros (length : UInt16) : Data :=
  ⟨List.replicate length.toNat 0, by simpa using length.toNat_lt⟩

def wire (d : Data) : Octets := Octets.ofNat 2 d.octets.length ++ d.octets

def readExactly (length : UInt16) : Reader Data := fun message pos =>
  if pos + length.toNat ≤ message.size then
    .ok ⟨(message.extract pos (pos + length.toNat)).toList, by
      have := length.toNat_lt
      simp only [Array.length_toList, Array.size_extract]
      omega⟩ (pos + length.toNat)
  else .error .shortInput pos

def read : Reader Data := do readExactly (← Reader.uint16)

end Data

end Dns
