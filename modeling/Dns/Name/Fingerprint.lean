import Dns.Name.Basic
import Dns.Hash.SipHash

/-!
# Fingerprints of names

A fingerprint is a number that equal names share, whatever their letter case, and that different
names share only by accident. It depends on nothing but the octets that stand for the name when it
is hashed.

The hash has a fixed key, and so the fingerprint of a name is the same wherever it is computed. It
is no protection against names that were chosen to have the same one; it is asked only to tell names
apart quickly (`FrozenName`).
-/

set_option autoImplicit false

namespace Dns.Name

def fingerprint (n : Name) : UInt64 := SipHash.hash n.hashOctets

theorem fingerprint_eq_of_beq {a b : Name} (h : (a == b) = true) :
    a.fingerprint = b.fingerprint := by
  rw [fingerprint, fingerprint, ← hashOctets_canonical a, ← hashOctets_canonical b,
    beq_iff_canonical.mp h]

end Dns.Name
