/-!
# Decimal numerals

Numbers are written in decimal with no leading zero, and read with two liberties: one plus sign may
stand in front, and leading zeros are harmless. A reader always has a limit, because every number
in the text forms fits a fixed width.

When a numeral is wrong in two ways the leftmost fault counts: digits are taken one after the other,
each is checked to be a digit first and to stay below the limit second (`readDigits`).
-/

set_option autoImplicit false

namespace Dns.Decimal

/-- Why a text is no numeral. -/
inductive NumeralError where
  | empty
  /-- A character that is no digit, or a sign with nothing behind it. -/
  | invalidDigit
  | overflow
  deriving DecidableEq, Repr

def digit? (c : Char) : Option Nat :=
  if '0' ≤ c ∧ c ≤ '9' then some (c.toNat - 48) else none

def digitChar (n : Nat) : Char := Char.ofNat (48 + n % 10)

/-- Digits after the number `acc` has been read, all below `limit`. -/
def readDigits (limit : Nat) : (acc : Nat) → List Char → Except NumeralError Nat
  | acc, [] => .ok acc
  | acc, c :: rest =>
    match digit? c with
    | none => .error .invalidDigit
    | some d =>
      -- More digits would not bring the number back below the limit.
      if acc * 10 + d < limit then readDigits limit (acc * 10 + d) rest else .error .overflow

/-- A numeral below `limit`: an optional plus sign and at least one digit. -/
def read (limit : Nat) : List Char → Except NumeralError Nat
  | [] => .error .empty
  | ['+'] => .error .invalidDigit
  | '+' :: rest => readDigits limit 0 rest
  | text => readDigits limit 0 text

/-- The same as a partial function, for texts where any fault means the same. -/
def read? (limit : Nat) (text : List Char) : Option Nat :=
  (read limit text).toOption

def numeral (n : Nat) : List Char := Nat.toDigits 10 n

/-- Exactly three digits, as escapes in names and character strings have them. -/
def threeDigits (n : Nat) : List Char :=
  [digitChar (n / 100), digitChar (n / 10), digitChar n]

end Dns.Decimal
