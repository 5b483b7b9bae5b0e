import Dns.Iana.Registered

/-!
# Classes

The name space has one part for every kind of network. Two more values are asked for and never
stored: `NONE` and `ANY`, the latter being the class of every TSIG record.

In an OPT record the field of the class is a size, and any number may stand there. So a class is any
number of 16 bits, and `CLASS7` is as good a class as `IN`.
-/

set_option autoImplicit false

namespace Dns

/-- A class of the domain name system. -/
structure Class where
  code : UInt16
  deriving DecidableEq, Hashable, Repr

namespace Class

/-! ## Values with a mnemonic -/

def internet : Class := ⟨1⟩

def chaos : Class := ⟨3⟩

def hesiod : Class := ⟨4⟩

def noClass : Class := ⟨254⟩

def any : Class := ⟨255⟩

def registry : Registry where
  entries := [
    (1, "IN"), (3, "CH"), (4, "HS"), (254, "NONE"), (255, "ANY")]

instance : Registered Class where
  width := 2
  number c := c.code.toNat
  ofNumber n := ⟨.ofNat n⟩
  registry := registry
  style := .worded "CLASS"
  typeName := "Class"
  title := "class"

/-! ## Text and wire form -/

def ofText (text : String) : Except CodeError Class := Registered.ofText text

def text (c : Class) : String := Registered.text c

instance : ToString Class := ⟨text⟩

def wire (c : Class) : Octets := Registered.wire c

def read : Reader Class := Registered.read

end Class

end Dns
