import Dns.Name.Compression
import Dns.Wire.Compose

/-!
# Drafts

A draft is a message, or a part of one, that is being composed: the octets so far, and the table
with the names among them. Composing writes to the end of a draft piece by piece, and so a failure
can leave the draft with the beginning of something that will never be complete. What was there
before is still in front of it. Whoever wants to go on cuts the draft back to the length it had
then: `Draft.truncate` takes the octets away, and with them the names that stood among them, so
that the table keeps telling of octets that are there.

A length in front of data is written as zero first, and set once the data are known. Should they
fail, their octets are taken back, but the table is left to whoever cuts the draft back in the end.
-/

set_option autoImplicit false

namespace Dns

/-- Octets with the names among them. -/
structure Draft where
  octets : Array UInt8
  table : CompressionTable := CompressionTable.empty

namespace Draft

def empty : Draft := ⟨#[], CompressionTable.empty⟩

instance : Inhabited Draft := ⟨empty⟩

def size (d : Draft) : Nat := d.octets.size

def put (d : Draft) (octets : Octets) : Draft := { d with octets := d.octets ++ octets }

/-- Writes octets over those from a place on. -/
def overwrite (d : Draft) (place : Nat) (octets : Octets) : Draft :=
  { d with octets := Octets.overwrite d.octets place octets }

/-- Notes that a name is going to stand at the end. -/
def note (d : Draft) (name : Name) : Draft := { d with table := d.table.insert name d.size }

/-- The place of a name, if names may be compressed and it has one. -/
def find? (d : Draft) (compressed : Bool) (name : Name) : Option (Fin 0x4000) :=
  if compressed then d.table.get? name else none

/-- Takes away the octets from a length on. -/
def shorten (d : Draft) (length : Nat) : Draft := { d with octets := d.octets.take length }

def truncate (d : Draft) (length : Nat) : Draft := ⟨d.octets.take length, d.table.truncate length⟩

end Draft

/-- Writes to a draft; after a failure, the draft is what it had become by then. -/
abbrev Composer (α : Type) : Type := EStateM ComposeError Draft α

namespace Composer

def put (octets : Octets) : Composer Unit := fun d => .ok () (d.put octets)

/-- Adds octets that may not be there. -/
def putOrFail (octets : Except ComposeError Octets) : Composer Unit := fun d =>
  match octets with
  | .ok octets => .ok () (d.put octets)
  | .error e => .error e d

/-- Composes data after their length in 16 bits. If the data fail or are too long for that, all
octets from the length on are taken away again. -/
def lengthPrefixed (compose : Composer Unit) : Composer Unit := fun d =>
  let start := d.size
  match compose (d.put [0, 0]) with
  | .error e d => .error e (d.shorten start)
  | .ok _ d =>
    let length := d.size - (start + 2)
    if 65535 < length then .error .longData (d.shorten start)
    -- Without data, the zeros that stand there are their length.
    else if 0 < length then .ok () (d.overwrite start (Octets.ofNat 2 length))
    else .ok () d

/-- What is composed when nothing stands before it. -/
def octets (compose : Composer Unit) : Except ComposeError Octets :=
  match compose Draft.empty with
  | .ok _ d => .ok d.octets.toList
  | .error e _ => .error e

end Composer

end Dns
