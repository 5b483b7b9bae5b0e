import Dns.Text.Decimal
import Dns.Wire.Compose
import Dns.Wire.Reader

/-!
# Times of signatures

The time of a signature is the number of seconds since 1970 and travels in 48 bits. A number of 64
bits is cut to its lowest 48 bits when it becomes a time.

The type has room for 64 bits, and nothing in it keeps a time below 48. Two of the ways to come by a
time do, by cutting it and by reading six octets. When it is written, only the lowest 48 bits are.

Nearness is told by adding to either side and not by subtracting, so that no difference can be
negative.
-/

set_option autoImplicit false

namespace Dns

structure Time48 where
  seconds : UInt64
  deriving DecidableEq, Repr

namespace Time48

def max : UInt64 := 0xFFFFFFFFFFFF

/-- The time given by the lowest 48 bits of a number. -/
def ofUInt64 (n : UInt64) : Time48 := ⟨n &&& max⟩

def wire (t : Time48) : Octets := Octets.ofNat 6 t.seconds.toNat

def read : Reader Time48 := do return ⟨UInt64.ofNat (← Reader.number 6)⟩

/-- Whether a time is at most `fudge` seconds away from another. -/
def within (t other : Time48) (fudge : Nat) : Bool :=
  decide (t.seconds.toNat ≤ other.seconds.toNat + fudge)
    && decide (other.seconds.toNat ≤ t.seconds.toNat + fudge)

def order (a b : Time48) : Ordering := compare a.seconds b.seconds

def text (t : Time48) : String := String.ofList (Decimal.numeral t.seconds.toNat)

instance : ToString Time48 := ⟨text⟩

end Time48

end Dns
