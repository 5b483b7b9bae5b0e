import Dns.Iana.Registered

/-!
# Record types

A record type says how the data of a record are to be read. Types without mnemonic exist all the
same; their data are opaque.
-/

set_option autoImplicit false

namespace Dns

structure Rtype where
  code : UInt16
  deriving DecidableEq, Hashable, Repr

namespace Rtype

/-! ## Values with a mnemonic -/

/-- An IPv4 address. -/
def a : Rtype := ⟨1⟩

def ns : Rtype := ⟨2⟩

def cname : Rtype := ⟨5⟩

def soa : Rtype := ⟨6⟩

def ptr : Rtype := ⟨12⟩

def hinfo : Rtype := ⟨13⟩

def mx : Rtype := ⟨15⟩

def txt : Rtype := ⟨16⟩

/-- An X.25 address. -/
def x25 : Rtype := ⟨19⟩

/-- An IPv6 address. -/
def aaaa : Rtype := ⟨28⟩

def opt : Rtype := ⟨41⟩

def nid : Rtype := ⟨104⟩

/-- A locator of 32 bits. -/
def l32 : Rtype := ⟨105⟩

/-- A locator of 64 bits. -/
def l64 : Rtype := ⟨106⟩

def lp : Rtype := ⟨107⟩

def tsig : Rtype := ⟨250⟩

def ixfr : Rtype := ⟨251⟩

def axfr : Rtype := ⟨252⟩

def any : Rtype := ⟨255⟩

def registry : Registry where
  entries := [
    (1, "A"), (2, "NS"), (5, "CNAME"), (6, "SOA"), (12, "PTR"), (13, "HINFO"),
    (15, "MX"), (16, "TXT"), (19, "X25"), (28, "AAAA"), (41, "OPT"), (104, "NID"),
    (105, "L32"), (106, "L64"), (107, "LP"), (250, "TSIG"), (251, "IXFR"), (252, "AXFR"),
    (255, "ANY")]

instance : Registered Rtype where
  width := 2
  number c := c.code.toNat
  ofNumber n := ⟨.ofNat n⟩
  registry := registry
  style := .worded "TYPE"
  typeName := "Rtype"
  title := "record type"

/-! ## Text and wire form -/

def ofText (text : String) : Except CodeError Rtype := Registered.ofText text

def text (c : Rtype) : String := Registered.text c

instance : ToString Rtype := ⟨text⟩

def wire (c : Rtype) : Octets := Registered.wire c

def read : Reader Rtype := Registered.read

/-! ## Pseudo types -/

/-- Whether records of the type describe the message or the query and never stand in a zone. -/
def isPseudo (c : Rtype) : Bool := c.code == 41 || (128 ≤ c.code && c.code ≤ 255)

end Rtype

end Dns
