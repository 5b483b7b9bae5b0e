import Dns.Json.Basic
import Dns.Iana.Class
import Dns.Iana.Opcode
import Dns.Iana.OptionCode
import Dns.Iana.Rtype
import Dns.Iana.TsigRcode
import Dns.Serial
import Dns.Time48

/-!
# JSON forms

Classes, record types and option codes are JSON strings with the text of the value. Opcodes, error
codes and times are JSON numbers. A serial number is an object that tells its value and its width,
in writing in this order; in reading, other members do not matter, and an array of value and width
means the same.

A time is taken as it stands, without cutting it to 48 bits.

A form is read from `Json`, which has decided already what is a text and what is a natural number,
so that here only names of members and limits are left to be checked. Writing gives texts without
blanks.
-/

set_option autoImplicit false

namespace Dns

namespace Json

def text? : Json → Option String
  | .string text => text
  | _ => none

/-- The number below `limit` that a value is. -/
def natural? (limit : Nat) : Json → Option Nat
  | .number (some n) => if n < limit then some n else none
  | _ => none

def member? (key : String) (members : List (Option String × Json)) : Option Json :=
  match members.filter (fun entry => entry.1 == some key) with
  -- A member that occurs twice is as good as none.
  | [entry] => some entry.2
  | _ => none

end Json

/-- A type whose values have a JSON form. -/
class JsonForm (α : Type) where
  /-- The value that a JSON value means. -/
  ofJson? : Json → Option α
  json : α → String

namespace Registered

variable {α : Type} [Registered α]

/-! ## Registered numbers -/

/-- The value whose text a JSON string is. -/
def ofJsonText? (json : Json) : Option α := do (ofText (← json.text?)).toOption

/-- The value whose number a JSON value is. -/
def ofJsonNumber? (json : Json) : Option α := ofNumber <$> json.natural? (Nat.pow 256 (width α))

def jsonText (c : α) : String := Json.quoted (text c)

def jsonNumber (c : α) : String := String.ofList (Decimal.numeral (number c))

end Registered

instance : JsonForm Class := ⟨Registered.ofJsonText?, Registered.jsonText⟩

instance : JsonForm Rtype := ⟨Registered.ofJsonText?, Registered.jsonText⟩

instance : JsonForm OptionCode := ⟨Registered.ofJsonText?, Registered.jsonText⟩

instance : JsonForm Opcode := ⟨Registered.ofJsonNumber?, Registered.jsonNumber⟩

instance : JsonForm TsigRcode := ⟨Registered.ofJsonNumber?, Registered.jsonNumber⟩

/-! ## Times and serial numbers -/

namespace Time48

def ofJson? (json : Json) : Option Time48 := do return ⟨.ofNat (← json.natural? (Nat.pow 2 64))⟩

def json (t : Time48) : String := t.text

instance : JsonForm Time48 := ⟨ofJson?, json⟩

end Time48

namespace Serial

/-- The serial number that JSON values for value and width mean. -/
def ofJsonParts? (value bits : Json) : Option Serial := do
  (ofWidth (← value.natural? (Nat.pow 2 64)) (← bits.natural? (Nat.pow 2 8))).toOption

/-- The serial number that a JSON value means. -/
def ofJson? : Json → Option Serial
  | .array [value, bits] => ofJsonParts? value bits
  | .object members => do
    if members.any (fun entry => entry.1.isNone) then none
    else ofJsonParts? (← Json.member? "value" members) (← Json.member? "bits" members)
  | _ => none

def json (s : Serial) : String :=
  "\x7b\"value\":" ++ s.text ++ ",\"bits\":" ++ String.ofList (Decimal.numeral s.bits) ++ "\x7d"

instance : JsonForm Serial := ⟨ofJson?, json⟩

end Serial

end Dns
