import Dns.Record.Basic
import Dns.Set.Algebra

/-!
# Record sets

An `Rdataset` is an ordered set of data of one type and class with a common time to live; an
`Rrset` adds the name that owns them. Both are set-like, with the check that a member has the type
of the set.

The time to live of a set is the least one of those that its members came with. It is given when
data are added and taken over first, so that it counts even if the data are a member already; an
empty set takes whatever comes. The operations on sets as such leave it alone, and it does not
count when sets are compared.

A set is composed as its records, one for each member in the order of the members. How many there
were is part of the result, for it is the number by which the count of a section grows. A set
without members is composed as nothing.
-/

set_option autoImplicit false

namespace Dns

/-- Why data cannot join a record set. -/
inductive RecordError where
  /-- They are of another type. -/
  | incompatibleTypes
  deriving DecidableEq, Repr

def RecordError.message : RecordError → String
  | .incompatibleTypes => "record data of incompatible type"

instance : ToString RecordError := ⟨RecordError.message⟩

/-- Data of one type and class. -/
structure Rdataset where
  rtype : Rtype
  setClass : Class
  ttl : UInt32 := 0
  rdatas : OrderedSet RecordData := OrderedSet.empty

namespace Rdataset

instance : SetLike Rdataset RecordError RecordData where
  members s := s.rdatas
  withMembers s rdatas := { s with rdatas }
  check s d := if d.rtype = s.rtype then .ok () else .error .incompatibleTypes

def ofRdata (setClass : Class) (ttl : UInt32) (data : RecordData) : Rdataset where
  rtype := data.rtype
  setClass
  ttl
  rdatas := OrderedSet.empty.add data

/-- Takes over a time to live, if it is lower or there is no member yet. -/
def updateTtl (s : Rdataset) (ttl : UInt32) : Rdataset :=
  if s.rdatas.isEmpty ∨ ttl < s.ttl then { s with ttl } else s

/-- Adds data of the right type, after taking over the time to live that comes with them; says
whether they are new. -/
def add (s : Rdataset) (data : RecordData) (ttl : Option UInt32) :
    Except RecordError (Bool × Rdataset) :=
  match SetLike.check s data with
  | .error e => .error e
  | .ok _ =>
    let s := match ttl with
      | some ttl => s.updateTtl ttl
      | none => s
    -- The time to live is taken over even if the data are not new.
    .ok (!s.rdatas.contains data, { s with rdatas := s.rdatas.add data })

/-- Whether another set has the same type and class. -/
def matchesSet (a b : Rdataset) : Bool := a.rtype == b.rtype && a.setClass == b.setClass

/-- Sets are equal if type, class and members agree. -/
instance : BEq Rdataset := ⟨fun a b => a.matchesSet b && a.rdatas == b.rdatas⟩

def records (s : Rdataset) (owner : Name) : List Record :=
  s.rdatas.toList.map fun data =>
    { owner, recordClass := s.setClass, ttl := s.ttl, data }

def compose (s : Rdataset) (owner : Name) (compressed : Bool) (origin : Option Name)
    (form : RecordForm) : Composer Nat := do
  (s.records owner).forM fun r => r.compose compressed origin form
  return s.rdatas.size

theorem toList_ofRdata (setClass : Class) (ttl : UInt32) (data : RecordData) :
    (ofRdata setClass ttl data).rdatas.toList = [data] := by
  rw [ofRdata, OrderedSet.toList_add, OrderedSet.contains_eq_any]
  rfl

theorem records_ofRdata (owner : Name) (setClass : Class) (ttl : UInt32) (data : RecordData) :
    (ofRdata setClass ttl data).records owner = [⟨owner, setClass, ttl, data⟩] := by
  rw [records, toList_ofRdata]
  rfl

theorem compose_ofRdata (owner : Name) (setClass : Class) (ttl : UInt32) (data : RecordData)
    (compressed : Bool) (origin : Option Name) (form : RecordForm) :
    (ofRdata setClass ttl data).compose owner compressed origin form = do
      Record.compose ⟨owner, setClass, ttl, data⟩ compressed origin form
      return 1 := by
  have one : (ofRdata setClass ttl data).rdatas.size = 1 := by
    have length := congrArg List.length (records_ofRdata owner setClass ttl data)
    rwa [records, List.length_map] at length
  rw [compose, records_ofRdata, one]
  simp only [List.forM_eq_forM, List.forM_cons, List.forM_nil, bind_pure_unit]

def textWith (s : Rdataset) (owner : Name) : String :=
  String.intercalate "\n"
    (s.rdatas.toList.map fun data => Record.line owner s.ttl s.setClass s.rtype data)

def text (s : Rdataset) : String := s.textWith Name.empty

instance : ToString Rdataset := ⟨text⟩

end Rdataset

/-- Data of one type and class at a name. -/
structure Rrset where
  name : Name
  rdataset : Rdataset

namespace Rrset

instance : SetLike Rrset RecordError RecordData where
  members s := s.rdataset.rdatas
  withMembers s rdatas := { s with rdataset := { s.rdataset with rdatas } }
  check s d := SetLike.check s.rdataset d

def ofRdata (name : Name) (setClass : Class) (ttl : UInt32) (data : RecordData) : Rrset :=
  ⟨name, Rdataset.ofRdata setClass ttl data⟩

/-- Adds data of the right type, after taking over the time to live that comes with them; says
whether they are new. -/
def add (s : Rrset) (data : RecordData) (ttl : Option UInt32) :
    Except RecordError (Bool × Rrset) := do
  let (isNew, rdataset) ← s.rdataset.add data ttl
  return (isNew, { s with rdataset })

/-- Sets are equal if owner, type, class and members agree. -/
instance : BEq Rrset := ⟨fun a b => a.name == b.name && a.rdataset == b.rdataset⟩

def records (s : Rrset) : List Record := s.rdataset.records s.name

def compose (s : Rrset) (compressed : Bool) (origin : Option Name) (form : RecordForm) :
    Composer Nat :=
  s.rdataset.compose s.name compressed origin form

def text (s : Rrset) : String := s.rdataset.textWith s.name

instance : ToString Rrset := ⟨text⟩

end Rrset

end Dns
