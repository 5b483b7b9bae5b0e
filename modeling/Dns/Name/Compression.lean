import Dns.Name.Text
import Std.Data.HashMap

/-!
# The compression table

A name in a message may end in a pointer to an earlier place of the message where the rest of it
stands. The table remembers those places. A pointer has room for 14 bits, so only places below
`0x4000` are worth remembering, and every place in the table is one that a pointer reaches.

A name keeps the place where it was seen first.

Names are looked up up to letter case, as they are compared. A pointer then leads to the letters
that were written first, and whoever reads the message sees those; where the case of letters
matters, the table is not asked.

Entries never change. There are two ways for a table to become another one: a name is put in that
had no place, or a message is cut, and all places behind the cut are forgotten.
-/

set_option autoImplicit false

namespace Dns

/-- The places in a message at which names stand. -/
structure CompressionTable where
  positions : Std.HashMap Name (Fin 0x4000)

namespace CompressionTable

def empty : CompressionTable := ⟨∅⟩

def get? (t : CompressionTable) (name : Name) : Option (Fin 0x4000) := t.positions[name]?

def reaches (pos : Nat) : Bool := decide (pos < 0x4000)

/-- Remembers the place of a name, unless it is out of reach or the name has a place already. -/
def insert (t : CompressionTable) (name : Name) (pos : Nat) : CompressionTable :=
  if h : pos < 0x4000 then ⟨t.positions.insertIfNew name ⟨pos, h⟩⟩ else t

/-- Forgets all places from `length` on, as when a message is cut to that length. -/
def truncate (t : CompressionTable) (length : Nat) : CompressionTable :=
  ⟨t.positions.filter fun _ pos => pos.val < length⟩

def size (t : CompressionTable) : Nat := t.positions.size

def isEmpty (t : CompressionTable) : Bool := t.positions.isEmpty

/-- All names with their places, in no particular order. -/
def toList (t : CompressionTable) : List (Name × Fin 0x4000) := t.positions.toList

/-- All places with the texts of their names, in the order of the places and, at one place, of the
texts. -/
def listing (t : CompressionTable) : List (Nat × String) :=
  (t.toList.map fun (name, pos) => (pos.val, name.text)).mergeSort fun a b =>
    a.1 < b.1 || (a.1 == b.1 && a.2 ≤ b.2)

end CompressionTable

end Dns
