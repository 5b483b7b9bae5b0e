import Dns.Iana.Registered

/-!
# Error codes of signatures

A TSIG record has an error code of 16 bits, which extends the response codes.

The values below sixteen mean what they mean as response codes. Those from sixteen on are about
signatures, and a receiver that refuses one reports them in the record that it sends back.
-/

set_option autoImplicit false

namespace Dns

structure TsigRcode where
  code : UInt16
  deriving DecidableEq, Hashable, Repr

namespace TsigRcode

/-! ## Values with a mnemonic -/

def noError : TsigRcode := ⟨0⟩

def formErr : TsigRcode := ⟨1⟩

def servFail : TsigRcode := ⟨2⟩

def nxDomain : TsigRcode := ⟨3⟩

def notImp : TsigRcode := ⟨4⟩

def refused : TsigRcode := ⟨5⟩

def notAuth : TsigRcode := ⟨9⟩

def badSig : TsigRcode := ⟨16⟩

def badKey : TsigRcode := ⟨17⟩

def badTime : TsigRcode := ⟨18⟩

def badMode : TsigRcode := ⟨19⟩

def badName : TsigRcode := ⟨20⟩

def badAlg : TsigRcode := ⟨21⟩

def badTrunc : TsigRcode := ⟨22⟩

def badCookie : TsigRcode := ⟨23⟩

def registry : Registry where
  entries := [
    (0, "NOERROR"), (1, "FORMERR"), (2, "SERVFAIL"), (3, "NXDOMAIN"), (4, "NOTIMP"),
    (5, "REFUSED"), (9, "NOTAUTH"), (16, "BADSIG"), (17, "BADKEY"), (18, "BADTIME"),
    (19, "BADMODE"), (20, "BADNAME"), (21, "BADALG"), (22, "BADTRUNC"),
    (23, "BADCOOKIE")]

instance : Registered TsigRcode where
  width := 2
  number c := c.code.toNat
  ofNumber n := ⟨.ofNat n⟩
  registry := registry
  style := .plain
  typeName := "TsigRcode"
  title := "TSIG error"

/-! ## Text and wire form -/

def ofText (text : String) : Except CodeError TsigRcode := Registered.ofText text

def text (c : TsigRcode) : String := Registered.text c

instance : ToString TsigRcode := ⟨text⟩

def wire (c : TsigRcode) : Octets := Registered.wire c

def read : Reader TsigRcode := Registered.read

end TsigRcode

end Dns
