import Dns.Wire.Reader
import Dns.Wire.Compose
import Dns.Text.Decimal

/-!
# Character strings

A character string is up to 255 octets of any value, preceded by their number in one octet. In text
it stands in quotes; a quote and a backslash are escaped by a backslash, and an octet that is no
printable ASCII character becomes a backslash and three decimal digits.

The limit is part of the type, and so writing cannot fail. In reading, the length octet is taken
first and stays taken if the content is not all there.
-/

set_option autoImplicit false

namespace Dns

/-- A string of at most 255 octets. -/
structure CharString where
  octets : Octets
  short : octets.length < 256
  deriving DecidableEq

namespace CharString

/-- The string of these octets, if they are not too many. -/
def ofOctets? (octets : Octets) : Option CharString :=
  if h : octets.length < 256 then some ⟨octets, h⟩ else none

/-- The length in one octet, then the content. -/
def wire (s : CharString) : Octets := UInt8.ofNat s.octets.length :: s.octets

/-- Composes octets as a character string, if they can be one. -/
def compose (octets : Octets) : Except ComposeError Octets :=
  match ofOctets? octets with
  | some s => .ok s.wire
  | none => .error .longData

theorem length_extract_lt (message : Array UInt8) (pos : Nat) (n : UInt8) :
    (message.extract (pos + 1) (pos + 1 + n.toNat)).toList.length < 256 := by
  have := n.toNat_lt
  simp only [Array.length_toList, Array.size_extract]
  omega

/-- Reads a character string. If its content is cut short, reading stands behind the length. -/
def read : Reader CharString := fun message pos =>
  match message[pos]? with
  | none => .error .shortInput pos
  | some n =>
    if pos + 1 + n.toNat ≤ message.size then
      .ok ⟨(message.extract (pos + 1) (pos + 1 + n.toNat)).toList, length_extract_lt message pos n⟩
        (pos + 1 + n.toNat)
    else .error .shortInput (pos + 1)

def octetText (b : UInt8) : List Char :=
  if b = 34 ∨ b = 92 then ['\\', Char.ofNat b.toNat]
  else if 32 ≤ b ∧ b ≤ 126 then [Char.ofNat b.toNat]
  else '\\' :: Decimal.threeDigits b.toNat

def text (s : CharString) : String :=
  String.ofList ('"' :: s.octets.flatMap octetText ++ ['"'])

end CharString

end Dns
