import Dns.Edns.OptRecord
import Dns.Header
import Dns.Question
import Dns.Record.Set

/-!
# Rendering messages

A renderer builds a message from its first section to its last. It keeps a draft of the message,
which is the octets so far and the table of the names among them, and the number of entries in
every section; the header is filled in at the end.

An addition happens as a whole or not at all. It is composed at the end of the draft; if that
fails, or if the message has become larger than it may or a section gets more entries than the
header can tell, the draft is cut back to the length it had before. Only the section that was
entered stays entered: sections come in their order, one may be left out, and none that has been
left can be entered again.

Room can be reserved for later by lowering the maximum size, and is given back all at once.
-/

set_option autoImplicit false

namespace Dns

/-- Why an addition is refused. -/
inductive RenderError where
  /-- The section comes before the present one. -/
  | formError
  | tooBig
  | countOverflow
  /-- More room is asked for than there is. -/
  | badReservation
  /-- The stated size of an OPT record is less than that of an empty one. -/
  | badOptSize
  /-- The addition has no wire form. -/
  | compose (cause : ComposeError)
  /-- The hash of a signing context is too short for the key. -/
  | shortHash
  deriving DecidableEq, Repr

def RenderError.message : RenderError → String
  | .formError => "section out of order"
  | .tooBig => "message too big"
  | .countOverflow => "too many entries in section"
  | .badReservation => "cannot reserve more than the maximum size"
  | .badOptSize => "OPT size too small"
  | .compose cause => cause.message
  | .shortHash => "hash too short"

instance : ToString RenderError := ⟨RenderError.message⟩

/-- A message in the making. -/
structure Renderer where
  id : UInt16
  flags : UInt16
  /-- The size that the message may have at present. -/
  maxSize : Nat
  /-- The name that relative names are completed with. -/
  origin : Option Name
  /-- The message so far, the header included. -/
  draft : Draft
  /-- The section entered last. -/
  part : Section
  counts : Counts
  /-- The signature of the message, once it is signed. -/
  mac : Octets
  /-- The room held back from the maximum size. -/
  reserved : Nat
  wasPadded : Bool
  /-- When signatures say that the message was signed. -/
  time : Time48

namespace Renderer

/-- What came of an operation, and the renderer after it. -/
abbrev Result (α : Type) : Type := Except RenderError α × Renderer

def start (id flags : UInt16) (maxSize : Nat) (origin : Option Name) (time : Time48) :
    Renderer where
  id
  flags
  maxSize
  origin
  draft := { octets := Array.replicate HeaderSection.length 0 }
  part := .question
  counts := {}
  mac := []
  reserved := 0
  wasPadded := false
  time

instance : Inhabited Renderer := ⟨start 0 0 0 none ⟨0⟩⟩

def octets (r : Renderer) : Array UInt8 := r.draft.octets

def table (r : Renderer) : CompressionTable := r.draft.table

def size (r : Renderer) : Nat := r.draft.size

def isEmpty (r : Renderer) : Bool := r.size == HeaderSection.length

def setFlags (flags : UInt16) (r : Renderer) : Renderer := { r with flags }

def setTime (time : Time48) (r : Renderer) : Renderer := { r with time }

/-! ## Entering sections and adding entries

`transaction` is what every addition goes through, and it is the only place where the draft grows.
What it is given composes the entries and says how many they were; everything that may go wrong with
it is undone there. -/

def enter (part : Section) (r : Renderer) : Result Unit :=
  if part.index < r.part.index then (.error .formError, r) else (.ok (), { r with part })

/-- Composes entries of a section at the end of the draft. The draft is cut back if they fail, if
the message has become too large, or if the header cannot tell their number. -/
def transaction (part : Section) (compose : (origin : Option Name) → Composer Nat)
    (r : Renderer) : Result Unit :=
  let draft := r.draft
  -- Nothing else holds the draft while it is written to.
  let r := { r with draft := Draft.empty }
  let start := draft.size
  match compose r.origin draft with
  | .error e draft => (.error (.compose e), { r with draft := draft.truncate start })
  | .ok entries draft =>
    if r.maxSize < draft.size then (.error .tooBig, { r with draft := draft.truncate start })
    else if 65535 < (r.counts.get part).toNat + entries then
      (.error .countOverflow, { r with draft := draft.truncate start })
    else
      -- Counted and kept; the sum was compared before it is cut to 16 bits.
      (.ok (), { r with
        draft
        counts := r.counts.set part (.ofNat ((r.counts.get part).toNat + entries)) })

def add (part : Section) (compose : (origin : Option Name) → Composer Nat) (r : Renderer) :
    Result Unit :=
  -- The section is entered before anything is composed, and stays entered if that fails.
  match r.enter part with
  | (.error e, r) => (.error e, r)
  | (.ok _, r) => r.transaction part compose

def addQuestion (q : Question) (r : Renderer) : Result Unit :=
  r.add .question fun origin => do
    q.compose true origin
    return 1

/-- Adds the records of a set at a name. -/
def addRdataset (part : Section) (owner : Name) (set : Rdataset)
    (form : RecordForm) (r : Renderer) : Result Unit :=
  r.add part fun origin => set.compose owner true origin form

def addRrset (part : Section) (set : Rrset) (form : RecordForm) (r : Renderer) : Result Unit :=
  r.addRdataset part set.name set.rdataset form

/-! ## Options and padding

The padding is computed before the record is composed, from sizes that the caller states. So it is
right if they are, and a record that turns out otherwise is added all the same. -/

/-- The number of octets that bring `length` octets to a multiple of `block`. -/
def paddingLength (block length : Nat) : Nat := (block - length % block) % block

/-- Adds an OPT record. With a block size `pad`, a padding option brings the message to a multiple
of it, counting `optSize` octets for this record and `tsigSize` octets for a signature to come. -/
def addOpt (o : OptRecord) (pad optSize tsigSize : Nat) (r : Renderer) : Result Unit :=
  if pad = 0 then r.addRrset .additional o.toRrset {}
  else if optSize < OptRecord.baseLength then (.error .badOptSize, r)
  else
    let length := paddingLength pad (r.size + optSize + tsigSize)
    -- The padding is an option, whose length is told in 16 bits.
    if 65535 < length then (.error (.compose .longData), r)
    else
      let padded := o.withOption (.padding (.ofNat length))
      match r.addRrset .additional padded.toRrset {} with
      | (.error e, r) => (.error e, r)
      | (.ok _, r) => (.ok (), { r with wasPadded := true })

/-- Adds an OPT record of a version without padding. -/
def addEdns (version : UInt8) (flags : UInt32) (payloadSize : UInt16)
    (options : List EdnsOption) (r : Renderer) : Result Unit :=
  r.addOpt (OptRecord.forVersion version flags payloadSize options) 0 0 0

/-! ## Header and room

The header is written over the first octets, whenever that is asked for, and may be written again.
Room that is held back is not in the message; it is a lower maximum until it is given back. -/

def writeHeader (r : Renderer) : Renderer :=
  { r with draft := r.draft.overwrite 0 (HeaderSection.wire ⟨⟨r.id, r.flags⟩, r.counts⟩) }

def reserve (room : Nat) (r : Renderer) : Result Unit :=
  if r.maxSize < room then (.error .badReservation, r)
  else (.ok (), { r with reserved := r.reserved + room, maxSize := r.maxSize - room })

/-- Gives all room back that is held back. -/
def releaseReserved (r : Renderer) : Renderer :=
  { r with maxSize := r.maxSize + r.reserved, reserved := 0 }

end Renderer

end Dns
