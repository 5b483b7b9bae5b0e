import Dns.Message
import Dns.Tsig.Signing

/-!
# Checking signatures

The receiver takes the TSIG record away from the message, signs what is left as the sender should
have done, and compares. Before that it looks at what the record says: an error that the sender
reports comes first, then the time, then whether name and algorithm are those of the key.

The order of these checks is visible from outside, since the first one that fails is the answer, and
some of the answers go back to the sender. The signature itself is compared last, and in full
length: one that was cut shorter than the algorithm says does not agree.

What was signed is the message without the record and with the number of additional records that it
had before (`unsignedMessage`). The identifier is not looked at. It may have been changed on the
way, and the record has the one that the message was signed with.

A message of a stream is checked in the same way, after what the context has taken up. Which context
comes next depends on the signature that was computed, which is the same as the one received.
-/

set_option autoImplicit false

namespace Dns

/-- Why a signature does not count. -/
inductive ValidationError where
  /-- There is no signature where one should be, or what it covers cannot be made out. -/
  | formErr
  | peerBadKey
  | peerBadSig
  | peerBadTime
  | peerBadTrunc
  /-- The sender reports another error. -/
  | peerError (error : TsigRcode)
  | badTime
  | badKey
  | badAlgorithm
  | badSig
  | parse (cause : ParseError)
  /-- The hash of a context is shorter than a signature of the key. -/
  | shortHash
  deriving DecidableEq, Repr

def ValidationError.message : ValidationError → String
  | .formErr => "format error"
  | .peerBadKey => "peer reported unknown key"
  | .peerBadSig => "peer failed to verify MAC"
  | .peerBadTime => "peer reported bad time"
  | .peerBadTrunc => "peer reported bad truncation"
  | .peerError error => "peer reported TSIG error " ++ error.text
  | .badTime => "bad time"
  | .badKey => "unknown key"
  | .badAlgorithm => "algorithm doesn’t match key"
  | .badSig => "bad signature"
  | .parse cause => cause.message
  | .shortHash => "hash too short"

instance : ToString ValidationError := ⟨ValidationError.message⟩

/-- A message without the TSIG record that starts at `start` and ends it: one additional record
less, and nothing from there on. -/
def unsignedMessage (message : Octets) (start : Nat) : Except ValidationError Octets :=
  if start < HeaderSection.length ∨ message.length < start then .error .formErr
  else
    let count := Octets.toNat ((message.drop HeaderSection.additionalCountOffset).take 2)
    if count = 0 then .error .formErr
    else
      .ok (message.take HeaderSection.additionalCountOffset ++ Octets.ofNat 2 (count - 1)
        ++ (message.take start).drop HeaderSection.length)

/-- What an error code that the sender reports means. -/
def ValidationError.ofReport? (error : TsigRcode) : Option ValidationError :=
  if error = TsigRcode.noError then none
  else if error = TsigRcode.badSig then some .peerBadSig
  else if error = TsigRcode.badKey then some .peerBadKey
  else if error = TsigRcode.badTime then some .peerBadTime
  else if error = TsigRcode.badTrunc then some .peerBadTrunc
  else some (.peerError error)

namespace Key

/-- What speaks against a record before its signature is looked at. -/
def objection? (k : Key) (owner : Name) (t : Tsig) (now : Time48) : Option ValidationError :=
  match ValidationError.ofReport? t.error with
  | some e => some e
  | none =>
    if !t.isValidAt now then some .badTime
    else if !(owner == k.name) then some .badKey
    else if !(t.algorithm == k.algorithmName) then some .badAlgorithm
    else none

/-- Checks a signature whose record starts at `start`. In a stream (`multi`), every message but the
first is checked after what the context has taken up, and the context for the next message
results. -/
def validate (k : Key) (macs : MacFunction) (message : Octets) (owner : Name) (t : Tsig)
    (now : Time48) (requestMac : Option Octets) (start : Nat) (c : Option SigningContext)
    (multi : Bool) : Except ValidationError (Option SigningContext) :=
  match unsignedMessage message start with
  | .error e => .error e
  | .ok unsigned =>
    match k.objection? owner t now with
    | some e => .error e
    | none =>
      -- A message by itself does not go on with what a context has taken up.
      let c := if multi then c else none
      match k.macOf macs (c.getD k.context) unsigned t requestMac c.isNone with
      | .error (.compose _) => .error .formErr
      | .error .shortHash => .error .shortHash
      | .ok expected =>
        if expected ≠ t.mac.octets then .error .badSig
        else .ok (if multi then some (k.continuation expected) else none)

/-- Reads a message and checks the signature that it ends with. -/
def validateMessage (k : Key) (macs : MacFunction) (message : Array UInt8) (now : Time48)
    (requestMac : Option Octets) (c : Option SigningContext) (multi : Bool) :
    Except ValidationError (Option SigningContext) :=
  match Message.ofOctets message with
  | .error e => .error (.parse e)
  | .ok m =>
    match m.tsig? with
    | none => .error .formErr
    | some (owner, t, start) =>
      k.validate macs message.toList owner t now requestMac start c multi

end Key

end Dns
