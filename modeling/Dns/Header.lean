import Dns.Iana.Opcode
import Dns.Iana.Rcode

/-!
# The header of a message

A message begins with twelve octets: its identifier, a word of flags, and the number of entries in
each of its four sections. The word of flags also holds the opcode and the response code, four bits
each; setting one part leaves all other bits alone, the unassigned one among them.

The opcode and the response code have types of their own with eight bits, of which four fit into the
word. What does not fit is dropped without a complaint, by `Header.setOpcode` and by
`Header.setRcode`; the upper part of a response code travels in the OPT record.

Identifier and flags are a `Header`, which stands for a message that is put together. The four
numbers are `Counts` and belong to whoever writes or reads the entries, for they have to be those of
the entries that are there. Sections have an order (`Section.index`), which is that of the message.
-/

set_option autoImplicit false

namespace Dns

/-! ## Flags

Each has one bit. The opcode and the response code stand between them in the same word and are not
flags. -/

/-- The bits of the flag word that have a name. -/
inductive Flag where
  /-- The message is a response. -/
  | qr
  /-- The answer is authoritative. -/
  | aa
  /-- The message was cut. -/
  | tc
  /-- Recursion is desired. -/
  | rd
  /-- Recursion is available. -/
  | ra
  /-- The data are authentic. -/
  | ad
  /-- Checking is disabled. -/
  | cd
  deriving DecidableEq, Repr

namespace Flag

def all : List Flag := [qr, aa, tc, rd, ra, ad, cd]

def mask : Flag → UInt16
  | qr => 0x8000
  | aa => 0x0400
  | tc => 0x0200
  | rd => 0x0100
  | ra => 0x0080
  | ad => 0x0020
  | cd => 0x0010

def text : Flag → String
  | qr => "QR"
  | aa => "AA"
  | tc => "TC"
  | rd => "RD"
  | ra => "RA"
  | ad => "AD"
  | cd => "CD"

/-- The flag with a name, which is in capital letters. -/
def ofText? (text : String) : Option Flag := all.find? fun flag => flag.text == text

end Flag

/-! ## Identifier and flags

Whatever is set, all other bits keep their values. The masks are those of the bits that stay. -/

/-- Identifier and flag word of a message. -/
structure Header where
  id : UInt16 := 0
  flags : UInt16 := 0
  deriving DecidableEq, Repr

namespace Header

def has (h : Header) (flag : Flag) : Bool := (h.flags &&& flag.mask) != 0

def setFlag (h : Header) (flag : Flag) (on : Bool) : Header :=
  { h with flags := if on then h.flags ||| flag.mask else h.flags &&& ~~~flag.mask }

def opcode (h : Header) : Opcode := ⟨((h.flags >>> 11) &&& 0x000F).toUInt8⟩

/-- Sets the opcode, of which the low four bits count. -/
def setOpcode (h : Header) (opcode : Opcode) : Header :=
  { h with
    flags := (h.flags &&& 0x87FF)
      ||| ((opcode.code.toUInt16 &&& (0x000F : UInt16)) <<< (11 : UInt16)) }

def rcode (h : Header) : Rcode := Rcode.ofFlags h.flags

/-- Sets the response code, of which the low four bits count. -/
def setRcode (h : Header) (rcode : Rcode) : Header :=
  { h with flags := (h.flags &&& 0xFFF0) ||| (rcode.code.toUInt16 &&& 0x000F) }

def wire (h : Header) : Octets := Wire.uint16 h.id ++ Wire.uint16 h.flags

def read : Reader Header := do
  let id ← Reader.uint16
  let flags ← Reader.uint16
  return { id, flags }

/-- Identifier, opcode, response code and the names of all flags that are set. -/
def text (h : Header) : String :=
  "id " ++ String.ofList (Decimal.numeral h.id.toNat)
    ++ " opcode " ++ h.opcode.text ++ " rcode " ++ h.rcode.text ++ " flags"
    ++ String.join ((Flag.all.filter h.has).map fun flag => " " ++ flag.text)

instance : ToString Header := ⟨text⟩

end Header

/-! ## Sections and their counts

A section is one of four everywhere, and where a part of the message is stored or counted, it is by
this type and not by a number. -/

/-- The four parts of a message behind the header, in their order. -/
inductive Section where
  | question
  | answer
  | authority
  | additional
  deriving DecidableEq, Repr

namespace Section

def all : List Section := [question, answer, authority, additional]

/-- The place of a section in the order, from zero on. -/
def index : Section → Nat
  | question => 0
  | answer => 1
  | authority => 2
  | additional => 3

def text : Section → String
  | question => "question"
  | answer => "answer"
  | authority => "authority"
  | additional => "additional"

def ofText? (text : String) : Option Section := all.find? fun part => part.text == text

end Section

structure Counts where
  question : UInt16 := 0
  answer : UInt16 := 0
  authority : UInt16 := 0
  additional : UInt16 := 0
  deriving DecidableEq, Repr

namespace Counts

def get (c : Counts) : Section → UInt16
  | .question => c.question
  | .answer => c.answer
  | .authority => c.authority
  | .additional => c.additional

def set (c : Counts) : Section → UInt16 → Counts
  | .question, n => { c with question := n }
  | .answer, n => { c with answer := n }
  | .authority, n => { c with authority := n }
  | .additional, n => { c with additional := n }

def wire (c : Counts) : Octets :=
  Wire.uint16 c.question ++ Wire.uint16 c.answer ++ Wire.uint16 c.authority
    ++ Wire.uint16 c.additional

def read : Reader Counts := do
  let question ← Reader.uint16
  let answer ← Reader.uint16
  let authority ← Reader.uint16
  let additional ← Reader.uint16
  return { question, answer, authority, additional }

end Counts

/-! ## The whole header -/

/-- The first twelve octets of a message. -/
structure HeaderSection where
  header : Header
  counts : Counts
  deriving DecidableEq, Repr

namespace HeaderSection

def length : Nat := 12

/-- The offset of the number of additional records. -/
def additionalCountOffset : Nat := 10

def wire (h : HeaderSection) : Octets := h.header.wire ++ h.counts.wire

def read : Reader HeaderSection := do
  let header ← Header.read
  let counts ← Counts.read
  return { header, counts }

end HeaderSection

end Dns
