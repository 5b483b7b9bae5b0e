import Dns.Iana.Registry
import Dns.Wire.Compose
import Dns.Wire.Reader

/-!
# Types of registered numbers

`Registered` says of a type that its values are the numbers of so many octets, some of them with a
mnemonic. The rest is the same for all such types: how a value is written in text and in messages,
and how it is read again. They differ in the registry, in the width, in the style in which numbers
are written and in what messages call them.

A number without a mnemonic is a value like any other. Therefore `number` and `ofNumber` go between
values and all numbers of the width, and the registry is asked for texts only. In messages a value
is its number in so many octets, and reading it cannot fail but for want of octets.
-/

set_option autoImplicit false

namespace Dns

/-- How numbers are written. -/
inductive NumberStyle where
  /-- A number without mnemonic comes after a word. -/
  | worded (word : String)
  /-- A number stands alone, or in parentheses behind its mnemonic. -/
  | plain

/-- A type whose values are numbers, some of which have a mnemonic. -/
class Registered (α : Type) where
  width : Nat
  number : α → Nat
  /-- The value of a number below `256 ^ width`; of other numbers the last octets count. -/
  ofNumber : Nat → α
  registry : Registry
  style : NumberStyle
  typeName : String
  /-- What messages call the values. -/
  title : String

namespace Registered

variable {α : Type} [Registered α]

/-! ## Text

The style is a matter of the type and is looked up in the instance, and one function serves all
types. -/

def mnemonic? (c : α) : Option String := (registry α).mnemonic? (number c)

/-- The value with a mnemonic, whatever its case. -/
def ofMnemonic? (text : String) : Option α :=
  ((registry α).ofMnemonic? text.toList).map ofNumber

def text (c : α) : String :=
  match style α with
  | .worded word => (registry α).wordedText word.toList (number c)
  | .plain => (registry α).plainText (number c)

def numberOfText? (α : Type) [Registered α] (text : String) : Option Nat :=
  match style α with
  | .worded word => (registry α).ofWordedText? (Nat.pow 256 (width α)) word.toList text.toList
  | .plain => (registry α).ofPlainText? (Nat.pow 256 (width α)) text.toList

def ofText (text : String) : Except CodeError α :=
  match numberOfText? α text with
  | some n => .ok (ofNumber n)
  | none => .error ⟨title α⟩

/-- The text of a value with the name of its type. -/
def qualifiedText (c : α) : String := (registry α).qualifiedText (typeName α) (number c)

/-! ## Wire form -/

def wire (c : α) : Octets := Octets.ofNat (width α) (number c)

theorem length_wire (c : α) : (wire c).length = width α := Octets.length_ofNat _ _

def read : Reader α := do return ofNumber (← Reader.number (width α))

end Registered

end Dns
