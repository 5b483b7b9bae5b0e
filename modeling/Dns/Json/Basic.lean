import Dns.Octets
import Dns.Text.Decimal

/-!
# JSON texts

A reader for JSON that keeps what the JSON forms of this library need: which numbers are plain
natural numbers, and which strings are texts at all, for a string may escape half of a surrogate
pair without its other half and then means no text. Everything else that the grammar allows is
accepted where nobody looks at it.

The grammar is the strict one: blanks are space, tab, line feed and carriage return, there is no
comma before a closing bracket, no leading zero, no control character in a string, and nothing
behind the value.
-/

set_option autoImplicit false

namespace Dns

inductive Json where
  | null
  | bool (value : Bool)
  /-- A number; its value if it is written without sign, fraction and exponent. -/
  | number (natural : Option Nat)
  /-- A string; its text if its escapes make one. -/
  | string (text : Option String)
  | array (items : List Json)
  /-- An object; all members in the order in which they stand. -/
  | object (members : List (Option String × Json))
  deriving Repr

namespace Json

def isBlank (c : Char) : Bool := c == ' ' || c == '\t' || c == '\n' || c == '\r'

/-- The text from its first character on that is no blank. -/
def skipBlanks (text : List Char) : List Char := text.dropWhile isBlank

/-- The text behind a word that it begins with. -/
def behind? : (word text : List Char) → Option (List Char)
  | [], text => some text
  | w :: word, c :: text => if w = c then behind? word text else none
  | _ :: _, [] => none

/-! ## Strings

A string is cut into pieces first, up to the quote that ends it, and only then the pieces are put
together. Thus a string with half a pair is still known to end where it ends. -/

/-- What a string is made of. -/
inductive Piece where
  | char (c : Char)
  /-- A unit of UTF-16 written by its number. -/
  | unit (n : Nat)

def hex4? (a b c d : Char) : Option Nat := do
  let high := (← Octets.hexValue? a) * 16 + (← Octets.hexValue? b)
  return (high * 16 + (← Octets.hexValue? c)) * 16 + (← Octets.hexValue? d)

def escaped? : Char → Option Char
  | '"' => some '"'
  | '\\' => some '\\'
  | '/' => some '/'
  | 'b' => some '\x08'
  | 'f' => some '\x0c'
  | 'n' => some '\n'
  | 'r' => some '\r'
  | 't' => some '\t'
  | _ => none

/-- The pieces of a string up to its closing quote, and the text behind it. -/
def pieces : List Char → Option (List Piece × List Char)
  | [] => none
  | '"' :: rest => some ([], rest)
  | '\\' :: 'u' :: a :: b :: c :: d :: rest => do
    let n ← hex4? a b c d
    let (found, rest) ← pieces rest
    return (.unit n :: found, rest)
  | '\\' :: e :: rest => do
    let c ← escaped? e
    let (found, rest) ← pieces rest
    return (.char c :: found, rest)
  | c :: rest =>
    if c.toNat < 0x20 ∨ c = '\\' then none
    else do
      let (found, rest) ← pieces rest
      return (.char c :: found, rest)

/-- The characters that pieces make: two halves of a surrogate pair make one, a single half none. -/
def assemble : List Piece → Option (List Char)
  | [] => some []
  | .char c :: rest => (assemble rest).map (c :: ·)
  | .unit high :: .unit low :: rest =>
    if 0xD800 ≤ high ∧ high < 0xDC00 then
      if 0xDC00 ≤ low ∧ low < 0xE000 then
        (assemble rest).map (Char.ofNat (0x10000 + (high - 0xD800) * 1024 + (low - 0xDC00)) :: ·)
      else none
    -- A low half comes without a high one.
    else if 0xDC00 ≤ high ∧ high < 0xE000 then none
    else (assemble (.unit low :: rest)).map (Char.ofNat high :: ·)
  | .unit n :: rest =>
    if 0xD800 ≤ n ∧ n < 0xE000 then none else (assemble rest).map (Char.ofNat n :: ·)

/-- A string behind its opening quote: its text, and what follows. -/
def readString (text : List Char) : Option (Option String × List Char) := do
  let (found, rest) ← pieces text
  return ((assemble found).map String.ofList, rest)

/-! ## Numbers

Only the integer part has a value here. Sign, fraction and exponent are checked by the grammar, and
a number that has one of them is read without a value. -/

def digits (text : List Char) : List Char := text.takeWhile fun c => (Decimal.digit? c).isSome

/-- The integer part of a number: one zero, or digits that begin with another one. -/
def integerPart? (text : List Char) : Option (List Char × List Char) :=
  match digits text with
  | [] => none
  | '0' :: _ :: _ => none
  | found => some (found, text.drop found.length)

/-- The text behind a fraction, if there is one. -/
def skipFraction? : List Char → Option (List Char)
  | '.' :: rest =>
    match digits rest with
    | [] => none
    | found => some (rest.drop found.length)
  | text => some text

/-- The text behind an exponent, if there is one. -/
def skipExponent? : List Char → Option (List Char)
  | [] => some []
  | e :: rest =>
    if e = 'e' ∨ e = 'E' then
      let rest := match rest with
        | '+' :: r => r
        | '-' :: r => r
        | r => r
      match digits rest with
      | [] => none
      | found => some (rest.drop found.length)
    else some (e :: rest)

/-- A number: its value if it is plain, and what follows. -/
def readNumber (text : List Char) : Option (Option Nat × List Char) := do
  let (negative, unsigned) := match text with
    | '-' :: rest => (true, rest)
    | rest => (false, rest)
  let (found, rest) ← integerPart? unsigned
  let behindFraction ← skipFraction? rest
  let behindAll ← skipExponent? behindFraction
  let plain := !negative && behindAll.length == rest.length
  let value := found.foldl (fun n c => n * 10 + ((Decimal.digit? c).getD 0)) 0
  return (if plain then some value else none, behindAll)

/-! ## Values

The three readers call each other, and a number of calls is allowed to them that grows with the
text. A value that is no text, array or object is a word or a number. -/

mutual

/-- A value at the beginning of a text, and what follows. Every call takes a character or descends
to a part, so that fuel beyond twice the length of the text is never used up. -/
def readValue : (fuel : Nat) → List Char → Option (Json × List Char)
  | 0, _ => none
  | fuel + 1, text =>
    match skipBlanks text with
    | '"' :: rest => (readString rest).map fun (s, rest) => (.string s, rest)
    | '[' :: rest =>
      match skipBlanks rest with
      | ']' :: rest => some (.array [], rest)
      | rest => (readItems fuel rest).map fun (items, rest) => (.array items, rest)
    | '\x7b' :: rest =>
      match skipBlanks rest with
      | '\x7d' :: rest => some (.object [], rest)
      | rest => (readMembers fuel rest).map fun (members, rest) => (.object members, rest)
    | text =>
      match behind? "null".toList text with
      | some rest => some (.null, rest)
      | none =>
        match behind? "true".toList text with
        | some rest => some (.bool true, rest)
        | none =>
          match behind? "false".toList text with
          | some rest => some (.bool false, rest)
          | none => (readNumber text).map fun (n, rest) => (.number n, rest)

/-- The items of an array up to its closing bracket. -/
def readItems : (fuel : Nat) → List Char → Option (List Json × List Char)
  | 0, _ => none
  | fuel + 1, text => do
    let (item, rest) ← readValue fuel text
    match skipBlanks rest with
    | ']' :: rest => some ([item], rest)
    | ',' :: rest => (readItems fuel rest).map fun (items, rest) => (item :: items, rest)
    | _ => none

/-- The members of an object up to its closing brace. -/
def readMembers : (fuel : Nat) → List Char → Option (List (Option String × Json) × List Char)
  | 0, _ => none
  | fuel + 1, text => do
    match skipBlanks text with
    | '"' :: rest =>
      let (key, rest) ← readString rest
      match skipBlanks rest with
      | ':' :: rest =>
        let (value, rest) ← readValue fuel rest
        match skipBlanks rest with
        | '\x7d' :: rest => some ([(key, value)], rest)
        | ',' :: rest =>
          (readMembers fuel rest).map fun (members, rest) => ((key, value) :: members, rest)
        | _ => none
      | _ => none
    | _ => none

end

def ofText? (text : String) : Option Json :=
  let chars := text.toList
  match readValue (2 * chars.length + 2) chars with
  | some (value, rest) => if (skipBlanks rest).isEmpty then some value else none
  | none => none

/-- A text as a JSON string; the texts written here have no character that needs an escape but
quotes and backslashes. -/
def quoted (text : String) : String :=
  String.ofList ('"' :: text.toList.flatMap
    (fun c => if c = '"' ∨ c = '\\' then ['\\', c] else [c]) ++ ['"'])

end Json

end Dns
