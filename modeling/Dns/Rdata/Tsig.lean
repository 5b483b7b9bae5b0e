import Dns.Iana.TsigRcode
import Dns.Name.Text
import Dns.Name.Wire
import Dns.Text.Base64
import Dns.Time48
import Dns.Wire.Data

/-!
# The data of a TSIG record

A TSIG record holds the signature of the message before it, with all that is needed to check it
but the secret. Its algorithm is a name, which is never compressed and keeps its letter case even
in canonical form.

The fields behind the algorithm are composed in one piece, since none of them can fail: the
signature and the other data have limits in their types, and all other fields have a fixed width. So
composing these data fails only for the name, if that is relative and cannot be completed.
-/

set_option autoImplicit false

namespace Dns

/-- A signature with what was signed besides the message. -/
structure Tsig where
  algorithm : Name
  /-- When the message was signed. -/
  time : Time48
  /-- By how many seconds clocks may differ. -/
  fudge : UInt16
  mac : Data
  /-- The identifier that the message had when it was signed. -/
  originalId : UInt16
  /-- The error that the signer reports. -/
  error : TsigRcode
  other : Data
  deriving DecidableEq

namespace Tsig

/-- Whether the time of the signature is near enough. -/
def isValidAt (t : Tsig) (now : Time48) : Bool := now.within t.time t.fudge.toNat

def wireBehindAlgorithm (t : Tsig) : Octets :=
  t.time.wire ++ Wire.uint16 t.fudge ++ t.mac.wire ++ Wire.uint16 t.originalId ++ t.error.wire
    ++ t.other.wire

/-- Composes the data; a relative algorithm name is completed with `origin`. -/
def compose (t : Tsig) (origin : Option Name) : Composer Unit := do
  t.algorithm.compose false origin false
  Composer.put t.wireBehindAlgorithm

def read : Reader Tsig := do
  let algorithm ← Name.read
  let time ← Time48.read
  let fudge ← Reader.uint16
  let mac ← Data.read
  let originalId ← Reader.uint16
  let error ← TsigRcode.read
  let other ← Data.read
  return { algorithm, time, fudge, mac, originalId, error, other }

/-- The data in the order of the wire form, the signature in base64. -/
def text (t : Tsig) : String :=
  let number (n : Nat) := String.ofList (Decimal.numeral n)
  let base64 (d : Data) := String.ofList (Base64.encode d.octets)
  t.algorithm.text ++ " " ++ t.time.text ++ " " ++ number t.fudge.toNat
    ++ " " ++ number t.mac.octets.length ++ " " ++ base64 t.mac
    ++ " " ++ number t.originalId.toNat ++ " " ++ t.error.text
    ++ " " ++ number t.other.octets.length
    ++ (if t.other.octets.isEmpty then "" else " " ++ base64 t.other)

end Tsig

end Dns
