import Dns.Iana.Registered

/-!
# Option codes

The data of an OPT record are options, and every option begins with its code.
-/

set_option autoImplicit false

namespace Dns

structure OptionCode where
  code : UInt16
  deriving DecidableEq, Hashable, Repr

namespace OptionCode

/-! ## Values with a mnemonic -/

def nsid : OptionCode := ⟨3⟩

def clientSubnet : OptionCode := ⟨8⟩

def cookie : OptionCode := ⟨10⟩

def tcpKeepalive : OptionCode := ⟨11⟩

def padding : OptionCode := ⟨12⟩

def registry : Registry where
  entries := [
    (3, "NSID"), (8, "edns-client-subnet"), (10, "COOKIE"), (11, "edns-tcp-keepalive"),
    (12, "Padding")]

instance : Registered OptionCode where
  width := 2
  number c := c.code.toNat
  ofNumber n := ⟨.ofNat n⟩
  registry := registry
  style := .worded "OPT"
  typeName := "OptionCode"
  title := "option code"

/-! ## Text and wire form -/

def ofText (text : String) : Except CodeError OptionCode := Registered.ofText text

def text (c : OptionCode) : String := Registered.text c

instance : ToString OptionCode := ⟨text⟩

def wire (c : OptionCode) : Octets := Registered.wire c

def read : Reader OptionCode := Registered.read

end OptionCode

end Dns
