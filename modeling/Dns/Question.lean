import Dns.Iana.Class
import Dns.Iana.Rtype
import Dns.Name.Text
import Dns.Name.Wire

/-!
# Questions

A question asks for the records of one type and class at a name. Its name may end in a pointer and
helps later names to do so.

A question has no time to live and no data, and it is not a record. Type and class may be values
that no record has. Whoever reads a message takes all entries of the first section for questions.
-/

set_option autoImplicit false

namespace Dns

/-- What a query asks for. -/
structure Question where
  qname : Name
  qtype : Rtype
  qclass : Class

namespace Question

/-- Questions are equal if they differ in the letter case of names at most. -/
instance : BEq Question :=
  ⟨fun a b => a.qname == b.qname && a.qtype == b.qtype && a.qclass == b.qclass⟩

def compose (q : Question) (compressed : Bool) (origin : Option Name) : Composer Unit := do
  q.qname.compose compressed origin false
  Composer.put q.qtype.wire
  Composer.put q.qclass.wire

def read : Reader Question := do
  let qname ← Name.read
  let qtype ← Rtype.read
  let qclass ← Class.read
  return { qname, qtype, qclass }

/-- Name, class and type, with tabs between them. -/
def text (q : Question) : String :=
  q.qname.text ++ "\t" ++ q.qclass.text ++ "\t" ++ q.qtype.text

instance : ToString Question := ⟨text⟩

end Question

end Dns
