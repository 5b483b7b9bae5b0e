import Dns.Iana.Registered

/-!
# Response codes

The response code is what came of a request, the low four bits in the flags of a message.
-/

set_option autoImplicit false

namespace Dns

/-- What came of a request. -/
structure Rcode where
  code : UInt8
  deriving DecidableEq, Hashable, Repr

namespace Rcode

/-! ## Values with a mnemonic -/

def noError : Rcode := ⟨0⟩

def formErr : Rcode := ⟨1⟩

def servFail : Rcode := ⟨2⟩

def nxDomain : Rcode := ⟨3⟩

def notImp : Rcode := ⟨4⟩

def refused : Rcode := ⟨5⟩

def yxDomain : Rcode := ⟨6⟩

def yxRrset : Rcode := ⟨7⟩

def nxRrset : Rcode := ⟨8⟩

def notAuth : Rcode := ⟨9⟩

def notZone : Rcode := ⟨10⟩

def registry : Registry where
  entries := [
    (0, "NOERROR"), (1, "FORMERR"), (2, "SERVFAIL"), (3, "NXDOMAIN"), (4, "NOTIMP"),
    (5, "REFUSED"), (6, "YXDOMAIN"), (7, "YXRRSET"), (8, "NXRRSET"), (9, "NOTAUTH"),
    (10, "NOTZONE")]

instance : Registered Rcode where
  width := 1
  number c := c.code.toNat
  ofNumber n := ⟨.ofNat n⟩
  registry := registry
  style := .worded "RCODE"
  typeName := "Rcode"
  title := "response code"

/-! ## Text and wire form -/

def text (c : Rcode) : String := Registered.text c

instance : ToString Rcode := ⟨text⟩

def wire (c : Rcode) : Octets := Registered.wire c

def read : Reader Rcode := Registered.read

/-! ## In the flags of a message -/

/-- The response code in the flags of a message. -/
def ofFlags (flags : UInt16) : Rcode := ⟨(flags &&& 0x000F).toUInt8⟩

end Rcode

end Dns
