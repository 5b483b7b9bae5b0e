import Dns.Edns.OptRecord
import Dns.Header
import Dns.Question

/-!
# Messages

A message is its header and four sections, of which the header tells how many entries they have.
Nothing follows the last entry. A signature covers all that stands before it, and so a TSIG record
may only be the very last entry, in the additional section; the place where it starts is kept,
since this is where the signed part ends.

Sections are read one after the other, and within a section so many entries as the header tells.
What is read is kept in full, and the octets with it: a signature is checked over these and not over
what would be written again.

`Message.Progress` is what a reader of records knows so far. Whether there was a signature is asked
before the next record is read, so that nothing of a message is looked at once it is known to be
wrong; and of two faults it is the one that comes first that is told.
-/

set_option autoImplicit false

namespace Dns

structure Message where
  octets : Array UInt8
  header : HeaderSection
  question : List Question
  answer : List Record
  authority : List Record
  additional : List Record
  /-- The place of the TSIG record. -/
  tsigStart : Option Nat

namespace Message

/-- The records of a section read so far, the last one first, and the place of the TSIG record. -/
structure Progress where
  records : List Record := []
  tsigStart : Option Nat := none

/-- Takes note of a record that starts at a place of a section. -/
def Progress.note (p : Progress) (part : Section) (start : Nat) (record : Record) :
    Except ParseError Progress :=
  match record.data with
  | .tsig _ =>
    if part = .additional then .ok ⟨record :: p.records, some start⟩
    else .error (.malformed .tsigSection)
  | _ => .ok ⟨record :: p.records, p.tsigStart⟩

/-- Reads so many more records of a section. -/
def readRecords (part : Section) : (count : Nat) → Progress → Reader Progress
  | 0, p => pure p
  | count + 1, p => fun message pos =>
    -- Nothing may follow a signature, and so what would follow is not read.
    if p.tsigStart.isSome then .error (.malformed .tsigNotLast) pos
    else
      match Record.read message pos with
      | .error e stopped => .error e stopped
      | .ok record reached =>
        match p.note part pos record with
        | .error e => .error e reached
        | .ok p => readRecords part count p message reached

def readSections : Reader Message := do
  let header ← HeaderSection.read
  let question ← Reader.times header.counts.question.toNat Question.read
  let answer ← readRecords .answer header.counts.answer.toNat {}
  let authority ← readRecords .authority header.counts.authority.toNat {}
  let additional ← readRecords .additional header.counts.additional.toNat {}
  return {
    octets := ← Reader.whole
    header
    question
    answer := answer.records.reverse
    authority := authority.records.reverse
    additional := additional.records.reverse
    tsigStart := additional.tsigStart }

def ofOctets (octets : Array UInt8) : Except ParseError Message :=
  match readSections octets 0 with
  | .error e _ => .error e
  | .ok message reached =>
    -- Every entry that was announced has been read; what is left belongs to none.
    if reached < octets.size then .error (.malformed .trailingData)
    else .ok message

def sectionLength (m : Message) : Section → Nat
  | .question => m.question.length
  | .answer => m.answer.length
  | .authority => m.authority.length
  | .additional => m.additional.length

/-- The options of the message: those of the first OPT record. -/
def opt? (m : Message) : Option OptRecord := m.additional.findSome? OptRecord.ofRecord?

/-- Owner, data and place of the TSIG record. -/
def tsig? (m : Message) : Option (Name × Tsig × Nat) :=
  match m.tsigStart, m.additional.getLast? with
  | some start, some record =>
    match record.data with
    | .tsig tsig => some (record.owner, tsig, start)
    | _ => none
  | _, _ => none

end Message

end Dns
