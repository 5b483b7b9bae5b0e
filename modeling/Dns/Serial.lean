import Dns.Text.Decimal
import Dns.Wire.Compose
import Dns.Wire.Reader

/-!
# Serial numbers

A serial number lives on a circle: its width `bits` says how many values there are before counting
starts over. On a circle "larger" only makes sense locally. A number counts as smaller than those
less than half the circle ahead of it and as larger than those less than half the circle behind;
the number exactly opposite is neither. For the same reason only steps of less than half the circle
can be added or subtracted.

In records serial numbers have 32 bits, and only those have a wire form.
-/

set_option autoImplicit false

namespace Dns

/-- Why an operation on serial numbers has no result. -/
inductive SerialError where
  | notComparable
  | deltaOutOfRange
  /-- A width of no bits, or of more than 64. -/
  | badWidth (bits : Nat)
  deriving DecidableEq, Repr

def SerialError.message : SerialError → String
  | .notComparable => "serial numbers of different widths"
  | .deltaOutOfRange => "serial number delta out of range"
  | .badWidth bits => "invalid serial number width " ++ String.ofList (Decimal.numeral bits)

instance : ToString SerialError := ⟨SerialError.message⟩

/-- A serial number of up to 64 bits. -/
structure Serial where
  value : Nat
  bits : Nat
  bits_pos : 0 < bits
  bits_le : bits ≤ 64
  value_lt : value < Nat.pow 2 bits
  deriving DecidableEq

namespace Serial

def modulus (s : Serial) : Nat := Nat.pow 2 s.bits

/-- The number of this width that a value stands for after all full turns. -/
def withValue (s : Serial) (value : Nat) : Serial :=
  { s with value := value % Nat.pow 2 s.bits, value_lt := Nat.mod_lt _ (Nat.two_pow_pos _) }

/-- The serial number of a width that a value stands for after all full turns. -/
def ofWidth (value bits : Nat) : Except SerialError Serial :=
  if h : 0 < bits ∧ bits ≤ 64 then
    .ok ⟨value % Nat.pow 2 bits, bits, h.1, h.2, Nat.mod_lt _ (Nat.two_pow_pos _)⟩
  else .error (.badWidth bits)

def ofUInt32 (value : UInt32) : Serial :=
  ⟨value.toNat, 32, by decide, by decide, value.toNat_lt⟩

instance : Inhabited Serial := ⟨ofUInt32 0⟩

/-! ## Order

The distance forward decides: less than half the circle is ahead, more than half is behind. At
exactly half both would hold, and so neither does. -/

/-- The distance from one number forward to another. -/
def forward (a b : Serial) : Nat := (b.value + a.modulus - a.value) % a.modulus

/-- Compares numbers of one width; there is no order between opposite numbers. -/
def compare? (a b : Serial) : Except SerialError (Option Ordering) :=
  if a.bits ≠ b.bits then .error .notComparable
  else if a.value = b.value then .ok (some .eq)
  else
    let half := a.modulus / 2
    if a.forward b < half then .ok (some .lt)
    else if half < a.forward b then .ok (some .gt)
    else .ok none

/-- The order of two numbers where there is one. -/
def partialCompare (a b : Serial) : Option Ordering :=
  match compare? a b with
  | .ok order => order
  | .error _ => none

def less (a b : Serial) : Bool := a.partialCompare b == some .lt

/-- Whether a number is smaller or the same. -/
def lessOrEqual (a b : Serial) : Bool :=
  a.partialCompare b == some .lt || a.partialCompare b == some .eq

/-! ## Steps

The largest step is one less than half the circle, and with it the number that is reached compares
to the one before as the sign of the step says. For a single bit no step is possible but that of
length zero. -/

def maxDelta (s : Serial) : Nat := s.modulus / 2 - 1

/-- The number some steps further on, or back if they are negative. -/
def add (s : Serial) (delta : Int) : Except SerialError Serial :=
  if s.maxDelta < delta.natAbs then .error .deltaOutOfRange
  else .ok (s.withValue ((s.value + delta) % s.modulus).toNat)

/-- The number some steps back, or further on if they are negative. -/
def sub (s : Serial) (delta : Int) : Except SerialError Serial :=
  if s.maxDelta < delta.natAbs then .error .deltaOutOfRange
  else .ok (s.withValue ((s.value - delta) % s.modulus).toNat)

/-! ## Text and wire form -/

def text (s : Serial) : String := String.ofList (Decimal.numeral s.value)

instance : ToString Serial := ⟨text⟩

/-- The serial number of 32 bits with a decimal value. -/
def ofText (text : String) : Except Decimal.NumeralError Serial := do
  return ofUInt32 (.ofNat (← Decimal.read (Nat.pow 2 32) text.toList))

def compose (s : Serial) : Except ComposeError Octets :=
  if s.bits = 32 then .ok (Octets.ofNat 4 s.value) else .error .serialWidth

def read : Reader Serial := do return ofUInt32 (← Reader.uint32)

end Serial

end Dns
