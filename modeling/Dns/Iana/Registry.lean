import Dns.Text.Decimal

/-!
# Registries of code points

Classes, record types, option codes and error codes are numbers, some of which have a mnemonic. A
`Registry` lists those mnemonics, and the numbers are written and read with it in two styles.

* Where a word introduces numbers without mnemonic (`CLASS7`, `TYPE65534`), every number has one
  written form, and reading accepts it and the mnemonics without regard to case.
* Where plain numbers are read, a written number with a mnemonic shows both (`NOTIFY(4)`).
-/

set_option autoImplicit false

namespace Dns

/-- The numbers with a mnemonic. -/
structure Registry where
  entries : List (Nat × String)

namespace Registry

/-- Whether two texts agree up to the case of ASCII letters. -/
def sameLetters (a b : List Char) : Bool := a.map Char.toLower == b.map Char.toLower

def mnemonic? (r : Registry) (n : Nat) : Option String := r.entries.lookup n

def ofMnemonic? (r : Registry) (text : List Char) : Option Nat :=
  (r.entries.find? fun entry => sameLetters entry.2.toList text).map Prod.fst

/-! ## Numbers introduced by a word

The mnemonics are looked up first. So a mnemonic that begins with the word would hide a number, and
there is none in the registries that are used in this way. -/

/-- The number behind the word that introduces it: at least one character, which has to be the
numeral of a number below `limit`. -/
def ofWordedNumber? (limit : Nat) (word text : List Char) : Option Nat :=
  match text.drop word.length with
  | [] => none
  | numeral =>
    if sameLetters (text.take word.length) word then Decimal.read? limit numeral else none

/-- The number that a mnemonic, or the word and a numeral, stands for. -/
def ofWordedText? (r : Registry) (limit : Nat) (word text : List Char) : Option Nat :=
  match r.ofMnemonic? text with
  | some n => some n
  | none => ofWordedNumber? limit word text

/-- The mnemonic of a number, or the word and the number. -/
def wordedText (r : Registry) (word : List Char) (n : Nat) : String :=
  match r.mnemonic? n with
  | some m => m
  | none => String.ofList (word ++ Decimal.numeral n)

/-! ## Plain numbers

What is written for a number with a mnemonic has both, and is neither a mnemonic nor a numeral. It
is for people to read. -/

/-- The number that a mnemonic or a numeral stands for. -/
def ofPlainText? (r : Registry) (limit : Nat) (text : List Char) : Option Nat :=
  match r.ofMnemonic? text with
  | some n => some n
  | none => Decimal.read? limit text

/-- The number, in parentheses behind its mnemonic if it has one. -/
def plainText (r : Registry) (n : Nat) : String :=
  match r.mnemonic? n with
  | some m => String.ofList (m.toList ++ '(' :: Decimal.numeral n ++ [')'])
  | none => String.ofList (Decimal.numeral n)

/-! ## Naming the type -/

/-- A number with the name of its type: `Rtype::SOA`, `Rtype(3)`. -/
def qualifiedText (r : Registry) (type : String) (n : Nat) : String :=
  match r.mnemonic? n with
  | some m => type ++ "::" ++ m
  | none => type ++ "(" ++ String.ofList (Decimal.numeral n) ++ ")"

end Registry

/-- Why a text names no value: all that can be told is what was sought. -/
structure CodeError where
  /-- What the numbers are, as messages call them. -/
  sought : String
  deriving DecidableEq, Repr

def CodeError.message (e : CodeError) : String := "unknown " ++ e.sought

instance : ToString CodeError := ⟨CodeError.message⟩

end Dns
