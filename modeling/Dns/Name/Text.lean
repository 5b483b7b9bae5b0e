import Dns.Name.Basic
import Dns.Text.Decimal

/-!
# Names as text

Labels stand one after the other with dots between them, and a dot at the end makes the name
absolute. Two names have no label to show and get a text of their own: the root is `.`, and the
relative name without labels is `@`.

A backslash takes away what an octet would mean otherwise: `\.` is a dot inside a label, and three
digits behind a backslash give an octet by its value. The writer escapes more than the reader asks
for (quotes, parentheses and the like), so that the text can stand in files where these mean
something; what is no printable ASCII character is always written by its value, so the text of a
name is ASCII and free of blanks.
-/

set_option autoImplicit false

namespace Dns

/-! ## Writing

Which octets are escaped by a backslash alone is a list of eight, and all others that are no visible
ASCII character have three digits. A letter is written as it is, in the case that it has. -/

/-- The octets that stand for themselves behind a backslash only: `.` `\` `"` `(` `)` `;` `@`
`$`. -/
def Label.special (b : UInt8) : Bool :=
  b = 46 || b = 92 || b = 34 || b = 40 || b = 41 || b = 59 || b = 64 || b = 36

/-- How an octet of a label is written. -/
def Label.octetText (b : UInt8) : List Char :=
  if special b then ['\\', Char.ofNat b.toNat]
  else if 0x21 ≤ b ∧ b ≤ 0x7E then [Char.ofNat b.toNat]
  else '\\' :: Decimal.threeDigits b.toNat

def Label.text (l : Label) : List Char := l.octets.flatMap octetText

namespace Name

def textChars (n : Name) : List Char :=
  if n.labels.isEmpty then (if n.absolute then ['.'] else ['@'])
  else List.intercalate ['.'] (n.labels.map Label.text) ++ (if n.absolute then ['.'] else [])

def text (n : Name) : String := String.ofList n.textChars

instance : ToString Name := ⟨text⟩

/-- The text of a name with the name of its type. -/
def qualifiedText (n : Name) : String := "Name(" ++ n.text ++ ")"

/-! ## Reading

The scanner goes over octets once and keeps the label that has been begun. An empty label can come
of two dots only, or of a dot at the beginning, since the end of the text ends no label that was not
begun. Lengths are not looked at before the labels are there. -/

/-- The value of an octet that is an ASCII digit. -/
def digitValue? (b : UInt8) : Option Nat :=
  if 48 ≤ b ∧ b ≤ 57 then some (b.toNat - 48) else none

def escapedOctet? (a b c : UInt8) : Option UInt8 := do
  let value := (← digitValue? a) * 100 + (← digitValue? b) * 10 + (← digitValue? c)
  if value < 256 then some (UInt8.ofNat value) else none

/-- The labels in a text, and whether an unescaped dot ends it. `current` holds the octets of the
label that has been begun, the last one first. -/
def scan : (current : Octets) → Octets → Except NameError (List Octets × Bool)
  | current, [] => .ok (if current.isEmpty then [] else [current.reverse], false)
  | current, b :: rest =>
    if b = 46 then
      if current.isEmpty then .error .emptyLabel
      else match rest with
        -- The dot is the last octet, and the name is absolute.
        | [] => .ok ([current.reverse], true)
        | next :: rest => do
          let (labels, absolute) ← scan [] (next :: rest)
          return (current.reverse :: labels, absolute)
    else if b = 92 then
      match rest with
      | [] => .error .badEscape
      | x :: rest =>
        -- A digit behind a backslash has to be the first of three.
        if (digitValue? x).isSome then
          match rest with
          | y :: z :: rest =>
            match escapedOctet? x y z with
            | some value => scan (value :: current) rest
            | none => .error .badEscape
          | _ => .error .badEscape
        else scan (x :: current) rest
    else scan (b :: current) rest

/-- The name that the octets of a text mean. -/
def ofTextOctets (text : Octets) : Except NameError Name :=
  if text = [] ∨ text = [64] then .ok empty
  else if text = [46] then .ok root
  else do
    let (labels, absolute) ← scan [] text
    ofOctets labels absolute

/-- The name that a text means; characters beyond ASCII count as their octets in UTF-8. -/
def ofText (text : String) : Except NameError Name := ofTextOctets text.toUTF8.data.toList

end Name

end Dns
