import Dns.Octets

/-!
# Blocks of a message to be hashed

The secure hash functions work on blocks of a fixed length. A message is brought to a whole number
of blocks by one octet `0x80`, then zeros, then the length of the message in bits.

The padding is always there, also behind a message that is a whole number of blocks already, and so
two messages of which one is the beginning of the other are never brought to the same blocks.
-/

set_option autoImplicit false

namespace Dns.Hash

/-- Cuts octets into pieces of `size` octets; the last one may be shorter. -/
def pieces (size : Nat) (octets : Octets) : List Octets :=
  if _done : size = 0 ∨ octets = [] then []
  else octets.take size :: pieces size (octets.drop size)
termination_by octets.length
decreasing_by
  simp only [not_or] at _done
  have : 0 < octets.length := List.length_pos_iff.mpr _done.2
  simp only [List.length_drop]
  omega

/-- The padding behind a message of `length` octets, its length taking up `width` octets. -/
def padding (block width length : Nat) : Octets :=
  0x80 :: List.replicate ((block - (length + 1 + width) % block) % block) 0
    ++ Octets.ofNat width (8 * length)

def blocks (block width : Nat) (message : Octets) : List Octets :=
  pieces block (message ++ padding block width message.length)

end Dns.Hash
