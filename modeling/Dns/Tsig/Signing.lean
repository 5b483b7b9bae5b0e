import Dns.Iana.Class
import Dns.Tsig.Key

/-!
# Signing

What is signed is a string of octets made from the message, parts of the TSIG record and the key.
The first message of a stream is signed with all of these, and with the signature of the request if
there is one. Every later message is signed with the times only, after the signature of the message
before it.

Those octets are spelled out by `firstInput` and `laterInput`; a signature is their keyed hash, cut
to the length that the algorithm wants. The message identifier never counts, the record's copy of
it does in its place.

A `SigningContext` is a keyed hash that has been begun. It stays with the hash function and secret
that it was begun with, also when another key goes on with it; then it can happen that its hash is
too short for a signature of that key.
-/

set_option autoImplicit false

namespace Dns

/-- Why there is no signature. -/
inductive SigningError where
  /-- Something that is to be signed has no wire form. -/
  | compose (cause : ComposeError)
  /-- The hash of a context is shorter than a signature of the key. -/
  | shortHash
  deriving DecidableEq, Repr

/-- A keyed hash that has been begun. -/
structure SigningContext where
  hash : Hash
  secret : Octets
  /-- The octets taken up so far. -/
  input : Octets
  deriving DecidableEq

namespace SigningContext

def feed (c : SigningContext) (octets : Octets) : SigningContext :=
  { c with input := c.input ++ octets }

def result (c : SigningContext) (macs : MacFunction) : Octets := macs.mac c.hash c.secret c.input

end SigningContext

namespace Key

/-! ## What is signed

There is one function for each part, in the order in which the parts are fed to the hash. The names
of key and algorithm are in full and in small letters, whatever they look like in the message. -/

def prefixedMac (mac : Octets) : Except ComposeError Octets := Wire.lengthPrefixed mac

/-- The signature of the request, if there is one. -/
def requestInput : (requestMac : Option Octets) → Except ComposeError Octets
  | none => .ok []
  | some mac => prefixedMac mac

/-- The message with the identifier that the record has. -/
def messageInput (message : Octets) (t : Tsig) : Octets :=
  Wire.uint16 t.originalId ++ message.drop 2

def timesInput (t : Tsig) : Octets := t.time.wire ++ Wire.uint16 t.fudge

/-- What is signed of the first message of a stream. -/
def firstInput (k : Key) (message : Octets) (t : Tsig) (requestMac : Option Octets) :
    Except ComposeError Octets := do
  let request ← requestInput requestMac
  let name ← (k.name.compose false none true).octets
  let algorithm ← (t.algorithm.compose false none true).octets
  return request ++ messageInput message t ++ name ++ Class.any.wire ++ Wire.uint32 0
    ++ algorithm ++ timesInput t ++ t.error.wire ++ t.other.wire

def laterInput (message : Octets) (t : Tsig) : Octets := messageInput message t ++ timesInput t

def input (k : Key) (message : Octets) (t : Tsig) (requestMac : Option Octets) (first : Bool) :
    Except ComposeError Octets :=
  if first then k.firstInput message t requestMac else .ok (laterInput message t)

/-! ## Contexts

A context of a stream begins with the signature of the message before it, its length in front. That
signature is the one that was cut, since it is what the other side has received. -/

/-- A context that nothing has been fed to. -/
def context (k : Key) : SigningContext := ⟨k.algorithm.hash, k.secret, []⟩

/-- The context in which the message after one with this signature is signed. -/
def continuation (k : Key) (mac : Octets) : SigningContext :=
  k.context.feed (Octets.ofNat 2 mac.length ++ mac)

/-- The signature that a context gives for a key: its keyed hash, cut to the key's length. -/
def finish (k : Key) (macs : MacFunction) (c : SigningContext) : Except SigningError Octets :=
  if k.macLength ≤ c.hash.length then .ok ((c.result macs).take k.macLength)
  else .error .shortHash

/-- The signature of a message, after what the context has taken up already. -/
def macOf (k : Key) (macs : MacFunction) (c : SigningContext) (message : Octets) (t : Tsig)
    (requestMac : Option Octets) (first : Bool) : Except SigningError Octets :=
  match k.input message t requestMac first with
  | .error e => .error (.compose e)
  | .ok octets => k.finish macs (c.feed octets)

/-! ## Signatures

Both ways to sign complete a draft of the record by its time and its signature. The time is part of
what is signed, and so it is put in first. -/

def withMac (t : Tsig) (mac : Octets) : Except SigningError Tsig :=
  match Data.ofOctets mac with
  | .ok mac => .ok { t with mac }
  | .error e => .error (.compose e)

def sign (k : Key) (macs : MacFunction) (message : Octets) (draft : Tsig) (time : Time48)
    (requestMac : Option Octets) : Except SigningError Tsig := do
  let t := { draft with time }
  withMac t (← k.macOf macs k.context message t requestMac true)

/-- Signs a message of a stream at a time, the first one if there is no context; gives the context
for the next one, too. -/
def signNext (k : Key) (macs : MacFunction) (message : Octets) (draft : Tsig) (time : Time48)
    (requestMac : Option Octets) (c : Option SigningContext) :
    Except SigningError (Tsig × SigningContext) := do
  let t := { draft with time }
  -- There is a context for every message but the first.
  let mac ← k.macOf macs (c.getD k.context) message t requestMac c.isNone
  return (← withMac t mac, k.continuation mac)

end Key

/-! ## What rendering needs of a key

Rendering only calls the two functions and hands on what they give. So anything that signs can take
the place of a key, and a renderer can be reasoned about without one. -/

/-- A key as one who signs messages sees it: its names, and how it signs. `Context` is what it
carries from one message of a stream to the next, and nobody else looks into it. -/
structure SigningKey (Context : Type) where
  name : Name
  algorithmName : Name
  /-- Completes the record of a message. -/
  sign : (message : Octets) → (draft : Tsig) → Time48 → (requestMac : Option Octets) →
    Except SigningError Tsig
  /-- Completes the record of a message of a stream. -/
  signNext : (message : Octets) → (draft : Tsig) → Time48 → (requestMac : Option Octets) →
    Option Context → Except SigningError (Tsig × Context)

/-- The key for signing with some keyed hash. -/
def Key.signing (k : Key) (macs : MacFunction) : SigningKey SigningContext where
  name := k.name
  algorithmName := k.algorithmName
  sign := k.sign macs
  signNext := k.signNext macs

end Dns
