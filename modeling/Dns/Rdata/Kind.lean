import Dns.Iana.Rtype

/-!
# Record types with a form of their own

For sixteen record types the form of the data is known. The data of all other types are opaque.

An `RdataKind` stands for the form without the data. It is what a type is looked up for in reading,
and `RdataKind.ofRtype?_rtype` says that every form belongs to the type that it is found by.
-/

set_option autoImplicit false

namespace Dns

/-- The record types whose data have a known form. -/
inductive RdataKind where
  | a
  | ns
  | cname
  | soa
  | ptr
  | hinfo
  | mx
  | txt
  | x25
  | aaaa
  | opt
  | nid
  | l32
  | l64
  | lp
  | tsig
  deriving DecidableEq, Repr

namespace RdataKind

def all : List RdataKind :=
  [a, ns, cname, soa, ptr, hinfo, mx, txt, x25, aaaa, opt, nid, l32, l64, lp, tsig]

def rtype : RdataKind → Rtype
  | a => Rtype.a
  | ns => Rtype.ns
  | cname => Rtype.cname
  | soa => Rtype.soa
  | ptr => Rtype.ptr
  | hinfo => Rtype.hinfo
  | mx => Rtype.mx
  | txt => Rtype.txt
  | x25 => Rtype.x25
  | aaaa => Rtype.aaaa
  | opt => Rtype.opt
  | nid => Rtype.nid
  | l32 => Rtype.l32
  | l64 => Rtype.l64
  | lp => Rtype.lp
  | tsig => Rtype.tsig

/-- The known form of a record type's data. -/
def ofRtype? (rtype : Rtype) : Option RdataKind := all.find? fun kind => kind.rtype == rtype

theorem ofRtype?_rtype (kind : RdataKind) : ofRtype? kind.rtype = some kind := by
  cases kind <;> decide

theorem rtype_of_ofRtype? {rtype : Rtype} {kind : RdataKind} (h : ofRtype? rtype = some kind) :
    kind.rtype = rtype := by
  simpa using List.find?_some h

end RdataKind

end Dns
