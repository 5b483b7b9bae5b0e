import Dns.Edns.Option
import Dns.Record.Set

/-!
# OPT records

An OPT record belongs to a message, not to a name, and so its fields mean other things than those
of a record: its class is the size of datagrams that the sender takes, and its time to live holds
the upper part of the response code, a version and flags. Its owner is the root.

So an `OptRecord` is made of a record by giving the fields their other names, and a record of it in
the same way (`OptRecord.toRrset`, `OptRecord.ofRecord?`). The version has its own place in the
flags, and `OptRecord.forVersion` puts it there and leaves the flags around it.

How long the record is going to be has to be known before it is written, for padding fills a message
up to a multiple of some size. `wireLength` counts it with the options as they are, and
`paddedWireLength` with the header of one option more.
-/

set_option autoImplicit false

namespace Dns

/-- The options of a message. -/
structure OptRecord where
  /-- The size of datagrams that the sender takes. -/
  payloadSize : UInt16
  flags : UInt32
  options : List EdnsOption
  deriving DecidableEq

namespace OptRecord

/-- The number of octets of an OPT record without options. -/
def baseLength : Nat := 11

/-- The number of octets in front of the padding. -/
def paddingHeaderLength : Nat := 4

/-- The options for a version, which replaces the version in the flags. -/
def forVersion (version : UInt8) (flags : UInt32) (payloadSize : UInt16)
    (options : List EdnsOption) : OptRecord where
  payloadSize
  flags := (flags &&& 0xFF00FFFF) ||| (version.toUInt32 <<< (16 : UInt32))
  options

/-- The upper eight bits of the response code. -/
def extendedRcode (o : OptRecord) : UInt8 := (o.flags >>> 24).toUInt8

def version (o : OptRecord) : UInt8 := (o.flags >>> 16).toUInt8

/-- Whether the sender wants signatures of the zone. -/
def dnssecOk (o : OptRecord) : Bool := (o.flags &&& 0x8000) != 0

def dataLength (o : OptRecord) : Nat :=
  o.options.foldr (fun option length => option.wireLength + length) 0

def wireLength (o : OptRecord) : Nat := baseLength + o.dataLength

/-- The number of octets of the record with an empty padding option. -/
def paddedWireLength (o : OptRecord) : Nat := o.wireLength + paddingHeaderLength

def withOption (o : OptRecord) (option : EdnsOption) : OptRecord :=
  { o with options := o.options ++ [option] }

def toRrset (o : OptRecord) : Rrset :=
  Rrset.ofRdata Name.root ⟨o.payloadSize⟩ o.flags (.opt o.options)

/-- The options that a record has, if it is an OPT record. -/
def ofRecord? (r : Record) : Option OptRecord :=
  match r.data with
  -- Class and time to live are the size of datagrams and the flags here.
  | .opt options => some ⟨r.recordClass.code, r.ttl, options⟩
  | _ => none

def text (o : OptRecord) : String :=
  "EDNS version " ++ String.ofList (Decimal.numeral o.version.toNat)
    ++ " payload " ++ String.ofList (Decimal.numeral o.payloadSize.toNat)
    ++ " flags 0x" ++ String.ofList (hexNumeral (o.flags &&& 0xFFFF).toNat)
    ++ (if o.options.isEmpty then "" else " " ++ (RecordData.opt o.options).text)

instance : ToString OptRecord := ⟨text⟩

end OptRecord

end Dns
