import Dns.Hash.Hmac
import Dns.Name.Text

/-!
# Algorithms of signatures

A signature is a keyed hash, in full or cut to a part of it. Every algorithm has a name of one
label, by which records refer to it.

The names are written with a hyphen between the parts, and one dot at the end is allowed in texts.
`Algorithm.name` makes the name of the same text, so that there is one table for both. A cut
signature is the beginning of the hash, and no longer than it (`Algorithm.macLength_le`).
-/

set_option autoImplicit false

namespace Dns

/-- A hash function, and whether its result is cut. -/
inductive Algorithm where
  | sha1
  | sha256
  /-- SHA-256 cut to 128 bits. -/
  | sha256Cut
  | sha384
  /-- SHA-384 cut to 192 bits. -/
  | sha384Cut
  | sha512
  /-- SHA-512 cut to 256 bits. -/
  | sha512Cut
  deriving DecidableEq, Repr

/-- A text that names no algorithm. -/
inductive AlgorithmError where
  | unknown
  deriving DecidableEq, Repr

def AlgorithmError.message : AlgorithmError → String
  | .unknown => "invalid algorithm"

instance : ToString AlgorithmError := ⟨AlgorithmError.message⟩

namespace Algorithm

def all : List Algorithm := [sha1, sha256, sha256Cut, sha384, sha384Cut, sha512, sha512Cut]

/-- The algorithm of a key whose algorithm is not told. -/
def standard : Algorithm := sha256

def hash : Algorithm → Hash
  | sha1 => .sha1
  | sha256 | sha256Cut => .sha256
  | sha384 | sha384Cut => .sha384
  | sha512 | sha512Cut => .sha512

def nativeLength (a : Algorithm) : Nat := a.hash.length

def macLength : Algorithm → Nat
  | sha256Cut => 16
  | sha384Cut => 24
  | sha512Cut => 32
  | a => a.nativeLength

theorem macLength_le (a : Algorithm) : a.macLength ≤ a.hash.length := by
  cases a <;> decide

def text : Algorithm → String
  | sha1 => "hmac-sha1"
  | sha256 => "hmac-sha256"
  | sha256Cut => "hmac-sha256-128"
  | sha384 => "hmac-sha384"
  | sha384Cut => "hmac-sha384-192"
  | sha512 => "hmac-sha512"
  | sha512Cut => "hmac-sha512-256"

instance : ToString Algorithm := ⟨text⟩

/-- The text without one dot at its end. -/
def withoutDot (text : List Char) : List Char :=
  match text.getLast? with
  | some '.' => text.dropLast
  | _ => text

/-- The algorithm that a text names, whatever its case. -/
def ofText (text : String) : Except AlgorithmError Algorithm :=
  let name := (withoutDot text.toList).map Char.toLower
  match all.find? fun a => a.text.toList.map Char.toLower == name with
  | some a => .ok a
  | none => .error .unknown

def label (a : Algorithm) : Label where
  octets := a.text.toList.map fun c => UInt8.ofNat c.toNat
  nonempty := by cases a <;> decide
  short := by cases a <;> decide

def name (a : Algorithm) : Name where
  labels := [a.label]
  absolute := true
  fits := by cases a <;> decide

def ofName? (name : Name) : Option Algorithm := all.find? fun a => a.name == name

end Algorithm

end Dns
