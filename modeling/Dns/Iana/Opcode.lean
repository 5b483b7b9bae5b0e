import Dns.Iana.Registered

/-!
# Opcodes

The opcode is the kind of request, four bits in the flags of a message.

The type has eight bits, since opcodes also come from texts and from JSON, where nothing restricts
them to four. In the flags only the lowest four bits count.
-/

set_option autoImplicit false

namespace Dns

/-- The kind of a request. -/
structure Opcode where
  code : UInt8
  deriving DecidableEq, Hashable, Repr

namespace Opcode

/-! ## Values with a mnemonic -/

def query : Opcode := ⟨0⟩

def iquery : Opcode := ⟨1⟩

/-- A question for the status of a server. -/
def status : Opcode := ⟨2⟩

def notify : Opcode := ⟨4⟩

def update : Opcode := ⟨5⟩

def registry : Registry where
  entries := [
    (0, "QUERY"), (1, "IQUERY"), (2, "STATUS"), (4, "NOTIFY"), (5, "UPDATE")]

instance : Registered Opcode where
  width := 1
  number c := c.code.toNat
  ofNumber n := ⟨.ofNat n⟩
  registry := registry
  style := .plain
  typeName := "Opcode"
  title := "opcode"

/-! ## Text and wire form -/

def ofText (text : String) : Except CodeError Opcode := Registered.ofText text

def text (c : Opcode) : String := Registered.text c

instance : ToString Opcode := ⟨text⟩

def wire (c : Opcode) : Octets := Registered.wire c

def read : Reader Opcode := Registered.read

end Opcode

end Dns
