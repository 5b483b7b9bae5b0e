import Dns.Octets

/-!
# Reading a message

A message is read from an array of octets at a position. The whole message stays in view, since a
compressed name is continued at an earlier place of it.

A `Reader` says two things whether it succeeds or fails: what it found, and where reading stands
afterwards. The position after a failure is worth keeping, for a caller may go on from there: the
primitive readers stand still when they fail, and a name that fails after it followed a pointer
stands behind that pointer.
-/

set_option autoImplicit false

namespace Dns

/-! ## What can be wrong with a message

Octets that are not there are one error, and octets that break a rule another. The rules are told
apart as far as somebody who reads a message might want to know. -/

/-- The ways in which octets that are all there break the rules of the format. -/
inductive Malformed where
  | longName
  /-- A compression pointer does not lead strictly backwards. -/
  | badPointer
  /-- A label of a type that is neither plain nor a pointer. -/
  | unknownLabelType
  /-- Record data end before or after their stated length. -/
  | dataLength
  /-- NID data that are not ten octets long. -/
  | nodeIdentifier
  /-- TXT data without any character string. -/
  | emptyText
  | tsigNotLast
  /-- A TSIG record stands in the answer or authority section. -/
  | tsigSection
  | trailingData
  deriving DecidableEq, Repr

def Malformed.message : Malformed → String
  | .longName => "long domain name"
  | .badPointer => "bad compression pointer"
  | .unknownLabelType => "unknown label type"
  | .dataLength => "record data length mismatch"
  | .nodeIdentifier => "invalid NID node identifier"
  | .emptyText => "empty TXT record"
  | .tsigNotLast => "TSIG not last"
  | .tsigSection => "TSIG outside additional section"
  | .trailingData => "trailing data"

/-- Why octets could not be read. -/
inductive ParseError where
  | shortInput
  /-- The octets break a rule of the format. -/
  | malformed (fault : Malformed)
  deriving DecidableEq, Repr

def ParseError.message : ParseError → String
  | .shortInput => "unexpected end of input"
  | .malformed fault => fault.message

instance : ToString ParseError := ⟨ParseError.message⟩

/-! ## Readers

Everything is built on `take`, which is the only reader here that takes octets out of the message.
The loop over items until a place has a number of rounds and ends for that reason; that they are
enough is a property of the items, which take an octet at least. -/

/-- What came of reading, and the position reached. -/
inductive Outcome (α : Type) where
  | ok (value : α) (pos : Nat)
  | error (cause : ParseError) (pos : Nat)
  deriving Repr, DecidableEq

namespace Outcome

variable {α β : Type}

def pos : Outcome α → Nat
  | .ok _ p => p
  | .error _ p => p

def result : Outcome α → Except ParseError α
  | .ok a _ => .ok a
  | .error e _ => .error e

/-- Result and position of a success, the error alone otherwise. -/
def toExcept : Outcome α → Except ParseError (α × Nat)
  | .ok a p => .ok (a, p)
  | .error e _ => .error e

def map (f : α → β) : Outcome α → Outcome β
  | .ok a p => .ok (f a) p
  | .error e p => .error e p

end Outcome

/-- Reads a value from a message at a position. -/
def Reader (α : Type) : Type := Array UInt8 → Nat → Outcome α

namespace Reader

variable {α β : Type}

instance : Monad Reader where
  pure a := fun _ pos => .ok a pos
  bind read next := fun message pos =>
    match read message pos with
    | .ok a pos => next a message pos
    | .error e pos => .error e pos

def fail (cause : ParseError) : Reader α := fun _ pos => .error cause pos

def whole : Reader (Array UInt8) := fun message pos => .ok message pos

def position : Reader Nat := fun _ pos => .ok pos pos

/-- Goes to a position of the message; the end is one. -/
def seek (target : Nat) : Reader Unit := fun message pos =>
  if target ≤ message.size then .ok () target else .error .shortInput pos

def take (count : Nat) : Reader Octets := fun message pos =>
  if pos + count ≤ message.size then .ok (message.extract pos (pos + count)).toList (pos + count)
  else .error .shortInput pos

def number (width : Nat) : Reader Nat := do return Octets.toNat (← take width)

def uint8 : Reader UInt8 := do return UInt8.ofNat (← number 1)

def uint16 : Reader UInt16 := do return UInt16.ofNat (← number 2)

def uint32 : Reader UInt32 := do return UInt32.ofNat (← number 4)

def uint64 : Reader UInt64 := do return UInt64.ofNat (← number 8)

/-- At most `count` items, as long as reading stands before `stop`. -/
def itemsUpTo (item : Reader α) (stop : Nat) : (count : Nat) → List α → Reader (List α)
  | 0, found => pure found.reverse
  | count + 1, found => fun message pos =>
    if pos < stop then
      match item message pos with
      | .ok a pos => itemsUpTo item stop count (a :: found) message pos
      | .error e pos => .error e pos
    else .ok found.reverse pos

/-- Items until reading has reached `stop`. No item is empty, so that there are at most as many as
there are octets before `stop`. -/
def itemsUntil (item : Reader α) (stop : Nat) : Reader (List α) := fun message pos =>
  itemsUpTo item stop (stop - pos) [] message pos

/-- Exactly `count` items, found so far in reverse. -/
def itemsAfter (item : Reader α) : (count : Nat) → List α → Reader (List α)
  | 0, found => pure found.reverse
  | count + 1, found => fun message pos =>
    match item message pos with
    | .ok a pos => itemsAfter item count (a :: found) message pos
    | .error e pos => .error e pos

def times (count : Nat) (item : Reader α) : Reader (List α) := itemsAfter item count []

/-! ## What the combinators do at a position -/

@[simp] theorem pure_apply (a : α) (message : Array UInt8) (pos : Nat) :
    (pure a : Reader α) message pos = .ok a pos := rfl

theorem bind_apply (read : Reader α) (next : α → Reader β) (message : Array UInt8) (pos : Nat) :
    (read >>= next) message pos =
      match read message pos with
      | .ok a pos => next a message pos
      | .error e pos => .error e pos := rfl

end Reader

end Dns
