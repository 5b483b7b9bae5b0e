import Dns.Render.Renderer
import Dns.Tsig.Signing

/-!
# Signing rendered messages

A signature is added last, after the header has been written: it covers the octets as they stand.
Its record goes into the additional section, whose count in the header follows at once. The name of
the key may be compressed, unless the message was padded to a size that counts it in full.

There are two ways to sign. `Renderer.addTsig` signs a message by itself and takes the name of the
algorithm as it is given. `Renderer.addNextTsig` signs a message of a stream: it goes on with the
context that the message before it has left, and gives the one for the next message.

Both come down to `addTsigRecord`, which adds a record like any other, and only then touches the
count in the header and keeps the signature. So whatever goes wrong, before or in adding, leaves a
message without a signature and a header that is right for it.
-/

set_option autoImplicit false

namespace Dns

/-- Who signs a message, and what the record says besides its time, algorithm and signature. -/
structure Signer (Context : Type) where
  key : SigningKey Context
  /-- The owner of the record, as a rule the name of the key. -/
  owner : Name
  fudge : UInt16
  originalId : UInt16
  error : TsigRcode
  other : Octets
  /-- The signature of the request, if the message answers a signed one. -/
  requestMac : Option Octets

variable {Context : Type}

/-- The record that is to be signed: all parts of it but time and signature. -/
def Signer.draft (s : Signer Context) (algorithm : Name) : Except ComposeError Tsig := do
  return {
    algorithm
    time := ⟨0⟩
    fudge := s.fudge
    mac := Data.empty
    originalId := s.originalId
    error := s.error
    other := ← Data.ofOctets s.other }

namespace Renderer

def composeTsig (owner : Name) (t : Tsig) (compressed : Bool) (origin : Option Name) :
    Composer Nat := do
  owner.compose compressed origin false
  Composer.put Rtype.tsig.wire
  Composer.put Class.any.wire
  Composer.put (Wire.uint32 0)
  Composer.lengthPrefixed (t.compose none)
  return 1

/-- Adds a TSIG record and counts it in the header. -/
def addTsigRecord (owner : Name) (t : Tsig) (r : Renderer) : Result Unit :=
  let compressed := !r.wasPadded
  match r.add .additional (composeTsig owner t compressed) with
  | (.error e, r) => (.error e, r)
  | (.ok _, r) =>
    (.ok (), { r with
      draft := r.draft.overwrite HeaderSection.additionalCountOffset
        (Wire.uint16 r.counts.additional)
      mac := t.mac.octets })

/-- What an error in signing means for the message. -/
def signingError : SigningError → RenderError
  | .compose e => .compose e
  | .shortHash => .shortHash

def addTsig (s : Signer Context) (algorithm : Name) (r : Renderer) : Result Unit :=
  match s.draft algorithm with
  | .error e => (.error (.compose e), r)
  | .ok t =>
    match s.key.sign r.octets.toList t r.time s.requestMac with
    | .error e => (.error (signingError e), r)
    | .ok t => r.addTsigRecord s.owner t

/-- Signs the message as one of a stream; gives the context for the next message. -/
def addNextTsig (c : Option Context) (s : Signer Context) (r : Renderer) : Result Context :=
  match s.draft s.key.algorithmName with
  | .error e => (.error (.compose e), r)
  | .ok t =>
    match s.key.signNext r.octets.toList t r.time s.requestMac c with
    | .error e => (.error (signingError e), r)
    | .ok (t, next) =>
      match r.addTsigRecord s.owner t with
      | (.error e, r) => (.error e, r)
      | (.ok _, r) => (.ok next, r)

end Renderer

end Dns
