import Dns.Name.Draft
import Dns.Wire.Reader

/-!
# Names in messages

## Composing

A name is written label by label. If it may be compressed, every suffix is looked up before it is
written: if it stands in the message already, a pointer to that place takes its place and ends the
name, and if not, the table learns where it is going to stand. So the longest known suffix is
replaced, and all of the name is known from then on.

## Reading

Reading follows pointers. What keeps hostile input from leading it round in circles is that every
pointer has to lead to a place before the start of the name and before the target of the pointer
followed last. This limit falls with every pointer, and between two pointers reading only moves
forward; the pair of both is the measure by which `readLabels` ends.
-/

set_option autoImplicit false

namespace Dns

namespace Name

/-! ## Composing -/

/-- The two octets that point to a place. -/
def pointer (pos : Fin 0x4000) : Octets := Octets.ofNat 2 (0xC000 + pos.val)

/-- The octets of a label that is written, in small letters if so wanted. -/
def labelWire (canonical : Bool) (l : Label) : Octets := if canonical then l.lower.wire else l.wire

def composeLabels (compressed canonical : Bool) : (labels : List Label) →
    labelsLength labels + 1 ≤ 255 → Draft → Draft
  -- The root is looked up like other names, and is never entered.
  | [], _, d =>
    match d.find? compressed root with
    | some pos => d.put (pointer pos)
    | none => d.put [0]
  | l :: rest, fits, d =>
    let here : Name := ⟨l :: rest, true, fits⟩
    match d.find? compressed here with
    | some pos => d.put (pointer pos)
    | none =>
      let d := if compressed then d.note here else d
      composeLabels compressed canonical rest (by simp at fits; omega)
        (d.put (labelWire canonical l))

/-- Composes a name, after completing it with `origin` if it is relative. If it may be
`compressed`, the names in the table are used and it is noted there. With `canonical`, labels are
written in small letters. -/
def compose (n : Name) (compressed : Bool) (origin : Option Name) (canonical : Bool) :
    Composer Unit := fun d =>
  match n.completed origin with
  | .error e => .error e d
  | .ok ⟨n, absolute⟩ =>
    .ok () (composeLabels compressed canonical n.labels (by simpa [absolute] using n.fits) d)

/-! ## Reading -/

/-- Labels with all that surrounds them when a name is read. -/
structure Walk where
  start : Nat
  /-- The place behind the first pointer, once one has been followed. -/
  resume : Option Nat
  labels : List Label
  /-- They are not longer than a name. -/
  fits : labelsLength labels ≤ 255

/-- Where reading stands if the name cannot be read to its end. -/
def Walk.back (w : Walk) : Nat := w.resume.getD w.start

/-- The label of `length` octets at `pos`. -/
def labelAt (message : Array UInt8) (pos : Nat) (length : UInt8) (positive : length ≠ 0)
    (plain : length < 64) (inside : pos + length.toNat ≤ message.size) : Label where
  octets := (message.extract pos (pos + length.toNat)).toList
  nonempty := by
    have : length.toNat ≠ 0 := fun h => positive (UInt8.toNat_inj.mp h)
    intro h
    have := congrArg List.length h
    simp only [Array.length_toList, Array.size_extract, List.length_nil] at this
    omega
  short := by
    have : length.toNat < 64 := UInt8.lt_iff_toNat_lt.mp plain
    simp only [Array.length_toList, Array.size_extract]
    omega

/-- Reads labels at `pos` until the root label, following pointers to places below `limit`. -/
def readLabels (message : Array UInt8) (limit pos : Nat) (w : Walk) : Outcome Name :=
  match message[pos]? with
  | none => .error .shortInput w.back
  | some octet =>
    if positive : octet = 0 then
      if fits : labelsLength w.labels + 1 ≤ 255 then
        .ok ⟨w.labels, true, fits⟩ (w.resume.getD (pos + 1))
      else .error (.malformed .longName) w.back
    else if plain : octet < 64 then
      if inside : pos + 1 + octet.toNat ≤ message.size then
        let labels := w.labels ++ [labelAt message (pos + 1) octet positive plain inside]
        -- The root label counts only once it is reached.
        if fits : labelsLength labels ≤ 255 then
          readLabels message limit (pos + 1 + octet.toNat) { w with labels, fits }
        else .error (.malformed .longName) w.back
      else .error .shortInput w.back
    else if octet < 192 then .error (.malformed .unknownLabelType) w.back
    else
      match message[pos + 1]? with
      | none => .error .shortInput w.back
      | some low =>
        -- Two bits mark a pointer, and the other fourteen are the place.
        let target := (octet.toNat - 192) * 256 + low.toNat
        if _backwards : target < limit then
          -- The first pointer sets the place behind the name, and later ones leave it.
          readLabels message target target { w with resume := some (w.resume.getD (pos + 2)) }
        else .error (.malformed .badPointer) w.back
termination_by (limit, message.size - pos)

def read : Reader Name := fun message pos =>
  readLabels message pos pos ⟨pos, none, [], by simp⟩

end Name

end Dns
