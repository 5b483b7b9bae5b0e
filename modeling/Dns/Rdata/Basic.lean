import Dns.Edns.Option
import Dns.Rdata.Address
import Dns.Rdata.Kind
import Dns.Rdata.Tsig
import Dns.Serial
import Dns.Wire.CharString

/-!
# Record data

`RecordData` has a constructor for every record type whose data have a known form, and one for all
others. The parts carry their own limits, so that composing them fails for three reasons only: a
relative name without origin, a name too long when completed, and a serial number of another width
than 32 bits.

Equality ignores the letter case of names, the algorithm of a signature included, and nothing else.
`caseless` is the representative with small letters; `==` compares representatives, and the hash is
taken of them.
-/

set_option autoImplicit false

namespace Dns

/-- Why constructing record data fails. -/
inductive RdataError where
  /-- A character string of more than 255 octets. -/
  | longCharString
  /-- Text without any character string. -/
  | empty
  deriving DecidableEq, Repr

def RdataError.message : RdataError → String
  | .longCharString => "character string too long"
  | .empty => "no character strings"

instance : ToString RdataError := ⟨RdataError.message⟩

/-- The data of a start of authority. -/
structure Soa where
  mname : Name
  rname : Name
  serial : Serial
  refresh : UInt32
  retry : UInt32
  expire : UInt32
  minimum : UInt32
  deriving DecidableEq

inductive RecordData where
  | a (address : Ipv4)
  | ns (name : Name)
  | cname (name : Name)
  | soa (soa : Soa)
  | ptr (name : Name)
  | hinfo (cpu os : CharString)
  | mx (preference : UInt16) (exchange : Name)
  | txt (first : CharString) (rest : List CharString)
  | x25 (address : CharString)
  | aaaa (address : Ipv6)
  | opt (options : List EdnsOption)
  | nid (preference : UInt16) (nodeId : UInt64)
  | l32 (preference : UInt16) (locator : Ipv4)
  | l64 (preference : UInt16) (locator : UInt64)
  | lp (preference : UInt16) (name : Name)
  | tsig (tsig : Tsig)
  | unknown (rtype : Rtype) (octets : Octets)
  deriving DecidableEq

namespace RecordData

def kind? : RecordData → Option RdataKind
  | a .. => some .a
  | ns .. => some .ns
  | cname .. => some .cname
  | soa .. => some .soa
  | ptr .. => some .ptr
  | hinfo .. => some .hinfo
  | mx .. => some .mx
  | txt .. => some .txt
  | x25 .. => some .x25
  | aaaa .. => some .aaaa
  | opt .. => some .opt
  | nid .. => some .nid
  | l32 .. => some .l32
  | l64 .. => some .l64
  | lp .. => some .lp
  | tsig .. => some .tsig
  | unknown .. => none

/-- The type of record that the data belong to. -/
def rtype : RecordData → Rtype
  | unknown rtype _ => rtype
  | a .. => RdataKind.a.rtype
  | ns .. => RdataKind.ns.rtype
  | cname .. => RdataKind.cname.rtype
  | soa .. => RdataKind.soa.rtype
  | ptr .. => RdataKind.ptr.rtype
  | hinfo .. => RdataKind.hinfo.rtype
  | mx .. => RdataKind.mx.rtype
  | txt .. => RdataKind.txt.rtype
  | x25 .. => RdataKind.x25.rtype
  | aaaa .. => RdataKind.aaaa.rtype
  | opt .. => RdataKind.opt.rtype
  | nid .. => RdataKind.nid.rtype
  | l32 .. => RdataKind.l32.rtype
  | l64 .. => RdataKind.l64.rtype
  | lp .. => RdataKind.lp.rtype
  | tsig .. => RdataKind.tsig.rtype

theorem rtype_eq_of_kind? {d : RecordData} {kind : RdataKind} (h : d.kind? = some kind) :
    d.rtype = kind.rtype := by
  cases d <;> simp only [kind?, Option.some.injEq, reduceCtorEq] at h <;> subst h <;> rfl

/-! ## Making data from octets

Where the parts have no type with limits of its own, they are made here from plain octets, and what
fails is told by `RdataError`. Opaque data have the limit of the length field only. -/

/-- A character string, if its octets are not too many. -/
def charString (octets : Octets) : Except RdataError CharString :=
  match CharString.ofOctets? octets with
  | some s => .ok s
  | none => .error .longCharString

/-- Text from the octets of its character strings. -/
def ofStrings (strings : List Octets) : Except RdataError RecordData :=
  match strings with
  | [] => .error .empty
  | first :: rest => do
    return txt (← charString first) (← rest.mapM charString)

def ofHostInfo (cpu os : Octets) : Except RdataError RecordData := do
  return hinfo (← charString cpu) (← charString os)

/-- An X.25 address from its octets. -/
def ofX25 (address : Octets) : Except RdataError RecordData := do
  return x25 (← charString address)

/-- Opaque data of a type, if they are not too many for the length of a record. -/
def ofOpaque (rtype : Rtype) (octets : Octets) : Except ComposeError RecordData :=
  if octets.length < 65536 then .ok (unknown rtype octets) else .error .longData

/-! ## Equality

Data of two types are different whatever they contain, since their constructors are; and opaque data
are compared with their type, so that equal octets of two unknown types are different data as well.
-/

/-- The data with all names in small letters. -/
def caseless : RecordData → RecordData
  | ns name => ns name.canonical
  | cname name => cname name.canonical
  | soa s => soa { s with mname := s.mname.canonical, rname := s.rname.canonical }
  | ptr name => ptr name.canonical
  | mx preference exchange => mx preference exchange.canonical
  | lp preference name => lp preference name.canonical
  | tsig t => tsig { t with algorithm := t.algorithm.canonical }
  | data => data

@[simp] theorem caseless_caseless (d : RecordData) : d.caseless.caseless = d.caseless := by
  cases d <;> simp [caseless]

/-- Data are equal if they differ in the letter case of names at most. -/
instance : BEq RecordData := ⟨fun a b => decide (a.caseless = b.caseless)⟩

theorem beq_iff_caseless {a b : RecordData} : (a == b) = true ↔ a.caseless = b.caseless := by
  show decide _ = true ↔ _
  simp

instance : EquivBEq RecordData where
  rfl := beq_iff_caseless.mpr rfl
  symm h := beq_iff_caseless.mpr (beq_iff_caseless.mp h).symm
  trans h₁ h₂ :=
    beq_iff_caseless.mpr ((beq_iff_caseless.mp h₁).trans (beq_iff_caseless.mp h₂))

/-- The octets of all parts, for hashing only. -/
def hashOctets : RecordData → Octets
  | a address => address.octets
  | ns name => name.wire
  | cname name => name.wire
  | soa s => s.mname.wire ++ s.rname.wire ++ Octets.ofNat 8 s.serial.value
  | ptr name => name.wire
  | hinfo cpu os => cpu.wire ++ os.wire
  | mx preference exchange => Wire.uint16 preference ++ exchange.wire
  | txt first rest => first.wire ++ rest.flatMap CharString.wire
  | x25 address => address.wire
  | aaaa address => address.octets
  | opt options => options.flatMap EdnsOption.wire
  | nid preference nodeId => Wire.uint16 preference ++ Wire.uint64 nodeId
  | l32 preference locator => Wire.uint16 preference ++ locator.octets
  | l64 preference locator => Wire.uint16 preference ++ Wire.uint64 locator
  | lp preference name => Wire.uint16 preference ++ name.wire
  | tsig t => t.algorithm.wire ++ t.wireBehindAlgorithm
  | unknown _ octets => octets

instance : Hashable RecordData := ⟨fun d => hash (d.rtype.code, d.caseless.hashOctets)⟩

theorem rtype_caseless (d : RecordData) : d.caseless.rtype = d.rtype := by
  cases d <;> rfl

instance : LawfulHashable RecordData where
  hash_eq a b h := by
    have h := beq_iff_caseless.mp h
    show hash (a.rtype.code, a.caseless.hashOctets) = hash (b.rtype.code, b.caseless.hashOctets)
    rw [← rtype_caseless a, ← rtype_caseless b, h]

/-! ## Text -/

/-- A number of 64 bits as four groups of hexadecimal digits. -/
def groupsText (n : UInt64) : String :=
  let group (shift : Nat) :=
    let v := n.toNat >>> shift
    String.ofList [Octets.hexDigit (v / 4096 % 16), Octets.hexDigit (v / 256 % 16),
      Octets.hexDigit (v / 16 % 16), Octets.hexDigit (v % 16)]
  group 48 ++ ":" ++ group 32 ++ ":" ++ group 16 ++ ":" ++ group 0

/-- The text of data: their parts with blanks between them, opaque data in hexadecimal behind
their number. -/
def text (d : RecordData) : String :=
  let number (n : Nat) := String.ofList (Decimal.numeral n)
  match d with
  | a address => address.text
  | ns name => name.text
  | cname name => name.text
  | soa s =>
    s.mname.text ++ " " ++ s.rname.text ++ " " ++ s.serial.text ++ " " ++ number s.refresh.toNat
      ++ " " ++ number s.retry.toNat ++ " " ++ number s.expire.toNat
      ++ " " ++ number s.minimum.toNat
  | ptr name => name.text
  | hinfo cpu os => cpu.text ++ " " ++ os.text
  | mx preference exchange => number preference.toNat ++ " " ++ exchange.text
  | txt first rest => String.intercalate " " ((first :: rest).map CharString.text)
  | x25 address => address.text
  | aaaa address => address.text
  | opt options => String.intercalate " " (options.map EdnsOption.text)
  | nid preference nodeId => number preference.toNat ++ " " ++ groupsText nodeId
  | l32 preference locator => number preference.toNat ++ " " ++ locator.text
  | l64 preference locator => number preference.toNat ++ " " ++ groupsText locator
  | lp preference name => number preference.toNat ++ " " ++ name.text
  | tsig t => t.text
  | unknown _ octets =>
    "\\# " ++ number octets.length ++ (if octets.isEmpty then "" else " " ++ octets.hex)

instance : ToString RecordData := ⟨text⟩

end RecordData

end Dns
