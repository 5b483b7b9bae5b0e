import Dns.Iana.OptionCode
import Dns.Wire.Reader
import Dns.Wire.Data

/-!
# EDNS options

The data of an OPT record are options, each with a code and data whose length comes before them.
Only padding has a form of its own, for its data are zeros when written and of no interest when
read, so that its length says it all.

An option with the code of padding can be given as data of any other kind, too. It is written with
its data then, and comes back as padding of that length.
-/

set_option autoImplicit false

namespace Dns

inductive EdnsOption where
  /-- So many octets that mean nothing. -/
  | padding (length : UInt16)
  /-- Data of any other kind. -/
  | unknown (code : OptionCode) (data : Data)
  deriving DecidableEq

namespace EdnsOption

def code : EdnsOption → OptionCode
  | padding _ => OptionCode.padding
  | unknown code _ => code

def data : EdnsOption → Data
  | padding length => Data.zeros length
  | unknown _ data => data

def dataLength : EdnsOption → Nat
  | padding length => length.toNat
  | unknown _ data => data.octets.length

def wireLength (o : EdnsOption) : Nat := 4 + o.dataLength

def wire (o : EdnsOption) : Octets := o.code.wire ++ o.data.wire

def read : Reader EdnsOption := do
  let code ← OptionCode.read
  let data ← Data.read
  return if code = OptionCode.padding then padding (.ofNat data.octets.length)
    else unknown code data

def text : EdnsOption → String
  | padding length =>
    OptionCode.padding.text ++ " " ++ String.ofList (Decimal.numeral length.toNat)
  | unknown code data => code.text ++ " " ++ data.octets.hex

instance : ToString EdnsOption := ⟨text⟩

end EdnsOption

end Dns
