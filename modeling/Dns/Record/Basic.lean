import Dns.Iana.Class
import Dns.Rdata.Wire

/-!
# Records

A record says that a name has certain data: owner, type, class, time to live, and the data behind
their length. A canonical record is composed without compression, the table being left alone, and
its names are in small letters; a class can be put in place of the record's own.

The type is not stored. It is that of the data, and so there is no record whose data are of another
type than it says. In composing, the length of the data is known only when they have been written,
since names in them may be compressed; a place is left for it and filled in afterwards
(`Composer.lengthPrefixed`).

Records are equal as their parts are: owner and data up to the case of letters, all else as it is.
The time to live counts here, other than for sets.
-/

set_option autoImplicit false

namespace Dns

/-- How records are composed. -/
structure RecordForm where
  /-- In canonical form. -/
  canonical : Bool := false
  /-- With this class in place of their own. -/
  overrideClass : Option Class := none
  deriving DecidableEq, Repr

structure Record where
  owner : Name
  recordClass : Class
  ttl : UInt32
  data : RecordData

namespace Record

/-- Records are equal if they differ in the letter case of names at most. -/
instance : BEq Record :=
  ⟨fun a b => a.owner == b.owner && a.recordClass == b.recordClass && a.ttl == b.ttl
    && a.data == b.data⟩

/-- The type of a record is that of its data. -/
def rtype (r : Record) : Rtype := r.data.rtype

/-- Composes a record. A canonical record neither uses the table nor is noted there. -/
def compose (r : Record) (compressed : Bool) (origin : Option Name) (form : RecordForm) :
    Composer Unit := do
  let compressed := compressed && !form.canonical
  r.owner.compose compressed origin form.canonical
  Composer.put r.rtype.wire
  Composer.put (form.overrideClass.getD r.recordClass).wire
  Composer.put (Wire.uint32 r.ttl)
  Composer.lengthPrefixed (r.data.compose compressed origin form.canonical)

def read : Reader Record := do
  let owner ← Name.read
  let rtype ← Rtype.read
  let recordClass ← Class.read
  let ttl ← Reader.uint32
  let length ← Reader.uint16
  let data ← RecordData.read rtype length.toNat
  return { owner, recordClass, ttl, data }

/-- A line for data with everything that belongs to them. -/
def line (owner : Name) (ttl : UInt32) (recordClass : Class) (rtype : Rtype)
    (data : RecordData) : String :=
  owner.text ++ "\t" ++ String.ofList (Decimal.numeral ttl.toNat) ++ "\t" ++ recordClass.text
    ++ "\t" ++ rtype.text ++ "\t" ++ data.text

/-- Owner, time to live, class, type and data, with tabs between them. -/
def text (r : Record) : String := line r.owner r.ttl r.recordClass r.rtype r.data

instance : ToString Record := ⟨text⟩

end Record

end Dns
