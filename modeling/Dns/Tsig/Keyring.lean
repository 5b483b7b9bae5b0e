import Dns.Text.Base64
import Dns.Text.Blank
import Dns.Tsig.Key

/-!
# Keyrings

A keyring holds keys by their names, in the order in which the names first came. A key with a name
that is there already takes the place of the old one.

A keyring can be written as text with a line for every key: name, algorithm, and the secret in
base64. In reading, the algorithm may be left out, blanks of any kind and number separate the
parts, and empty lines and lines that begin with `#` do not count. A relative name is completed
with the root.

Faults are told with the line in which they are, counted from one, and the first one ends reading.
In a line the algorithm is read before the name and the name before the secret, and of several
faults that is the order. Whether a line is a comment is seen by the first character of its first
word: a name that begins with a number sign is written as it is and then means a comment.
-/

set_option autoImplicit false

namespace Dns

inductive KeyringFault where
  /-- There are not two or three parts. -/
  | syntaxError
  | name (cause : NameError)
  | algorithm (cause : AlgorithmError)
  | base64
  | key (cause : NewKeyError)
  deriving DecidableEq, Repr

def KeyringFault.message : KeyringFault → String
  | .syntaxError => "expected two or three fields"
  | .name cause => cause.message
  | .algorithm cause => cause.message
  | .base64 => "invalid base64 secret"
  | .key cause => cause.message

/-- A fault and the line in which it is, counted from one. -/
structure KeyringError where
  line : Nat
  fault : KeyringFault
  deriving DecidableEq, Repr

def KeyringError.message (e : KeyringError) : String :=
  "line " ++ String.ofList (Decimal.numeral e.line) ++ ": " ++ e.fault.message

instance : ToString KeyringError := ⟨KeyringError.message⟩

/-- Keys in the order in which their names first came. -/
structure Keyring where
  keys : List Key
  deriving DecidableEq

namespace Keyring

def empty : Keyring := ⟨[]⟩

instance : Inhabited Keyring := ⟨empty⟩

def size (r : Keyring) : Nat := r.keys.length

def isEmpty (r : Keyring) : Bool := r.keys.isEmpty

/-- Puts a key in place of the one with its name, or behind all others; gives the one replaced. -/
def insertInto (key : Key) : List Key → Option Key × List Key
  | [] => (none, [key])
  | k :: rest =>
    if k.name == key.name then (some k, key :: rest)
    else
      let (replaced, rest) := insertInto key rest
      (replaced, k :: rest)

/-- Adds a key or replaces the one with its name; gives the one replaced, too. -/
def insert (r : Keyring) (key : Key) : Option Key × Keyring :=
  let (replaced, keys) := insertInto key r.keys
  (replaced, ⟨keys⟩)

/-- Adds or replaces keys one after the other. -/
def extend (r : Keyring) (keys : List Key) : Keyring :=
  keys.foldl (fun r key => (r.insert key).2) r

def ofList (keys : List Key) : Keyring := empty.extend keys

def get? (r : Keyring) (name : Name) : Option Key := r.keys.find? fun key => key.name == name

/-- The key with a name, or the first key if there is no name. -/
def getKey? (r : Keyring) : (name : Option Name) → Option Key
  | some name => r.get? name
  | none => r.keys.head?

/-- Keyrings are equal if they have equal keys in the same order. -/
instance : BEq Keyring := ⟨fun a b => a.keys == b.keys⟩

/-! ## Text -/

def line (key : Key) : List Char :=
  key.name.textChars ++ ' ' :: key.algorithm.text.toList ++ ' ' :: Base64.encode key.secret
    ++ ['\n']

def text (r : Keyring) : String := String.ofList (r.keys.flatMap line)

instance : ToString Keyring := ⟨text⟩

def readName (text : List Char) : Except KeyringFault Name :=
  match Name.ofText (String.ofList text) with
  | .error e => .error (.name e)
  | .ok name =>
    match name.concat Name.root with
    | .ok name => .ok name
    | .error _ => .error (.name .longName)

def readAlgorithm (text : List Char) : Except KeyringFault Algorithm :=
  match Algorithm.ofText (String.ofList text) with
  | .ok a => .ok a
  | .error e => .error (.algorithm e)

/-- The key that has these parts in its line. -/
def readKey (name : List Char) (algorithm : Option (List Char)) (secret : List Char) :
    Except KeyringFault Key := do
  let algorithm ← match algorithm with
    | some text => readAlgorithm text
    | none => .ok Algorithm.standard
  let name ← readName name
  let secret ← match Base64.decode? secret with
    | some secret => .ok secret
    | none => .error .base64
  match Key.ofParts name algorithm secret with
  | .ok key => .ok key
  | .error e => .error (.key e)

def readLine (text : List Char) : Except KeyringFault (Option Key) :=
  match Text.words text with
  | [] => .ok none
  -- Blanks in front of the sign make no difference, since the first word is looked at.
  | ('#' :: _) :: _ => .ok none
  | [name, secret] => some <$> readKey name none secret
  | [name, algorithm, secret] => some <$> readKey name (some algorithm) secret
  | _ => .error .syntaxError

/-- Adds the keys of lines, the first of which has a number. -/
def readLines (r : Keyring) (number : Nat) : List (List Char) → Except KeyringError Keyring
  | [] => .ok r
  | line :: rest =>
    match readLine line with
    | .error fault => .error ⟨number, fault⟩
    | .ok none => readLines r (number + 1) rest
    | .ok (some key) => readLines (r.insert key).2 (number + 1) rest

def ofText (text : String) : Except KeyringError Keyring :=
  readLines empty 1 (Text.lines text.toList)

end Keyring

end Dns
