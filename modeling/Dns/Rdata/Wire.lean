import Dns.Rdata.Basic

/-!
# Record data in messages

The names in the data of the oldest record types may be compressed; those of `LP` and `TSIG` may
not, nor do they help to compress others. Canonical data have names in small letters, but for the
algorithm of a signature.

Data are read by the form that belongs to their type and have to end exactly where their length
says. What lies behind them in the message does not protect that end: a part that runs over it is
read all the same, and the mismatch is found afterwards.

The forms are those of `RdataKind`, and each of them is composed and read field by field, in the
same order. Where a field has limits, its type has them, and reading a field cannot give anything
beyond. Only opaque data are taken as long as they are said to be.
-/

set_option autoImplicit false

namespace Dns.RecordData

/-! ## Composing

For each name in the data there are three things to be decided: whether it may be compressed,
whether it is written in small letters, and what completes it. The caller decides all of them,
except that for `LP` and for signatures there is no compression, and for the algorithm of a
signature no small letters. -/

open Composer (put)

/-- Composes a start of authority: two names, then numbers. -/
def composeSoa (s : Soa) (compressed : Bool) (origin : Option Name) (canonical : Bool) :
    Composer Unit := do
  s.mname.compose compressed origin canonical
  s.rname.compose compressed origin canonical
  Composer.putOrFail s.serial.compose
  put (Wire.uint32 s.refresh)
  put (Wire.uint32 s.retry)
  put (Wire.uint32 s.expire)
  put (Wire.uint32 s.minimum)

/-- Composes data; those names that may be compressed at all are so if `compressed` says so. -/
def compose (d : RecordData) (compressed : Bool) (origin : Option Name) (canonical : Bool) :
    Composer Unit :=
  match d with
  | a address => put address.octets
  | ns name => name.compose compressed origin canonical
  | cname name => name.compose compressed origin canonical
  | soa s => composeSoa s compressed origin canonical
  | ptr name => name.compose compressed origin canonical
  | hinfo cpu os => do
    put cpu.wire
    put os.wire
  | mx preference exchange => do
    put (Wire.uint16 preference)
    exchange.compose compressed origin canonical
  | txt first rest => put ((first :: rest).flatMap CharString.wire)
  | x25 address => put address.wire
  | aaaa address => put address.octets
  | opt options => put (options.flatMap EdnsOption.wire)
  | nid preference nodeId => do
    put (Wire.uint16 preference)
    put (Wire.uint64 nodeId)
  | l32 preference locator => do
    put (Wire.uint16 preference)
    put locator.octets
  | l64 preference locator => do
    put (Wire.uint16 preference)
    put (Wire.uint64 locator)
  | lp preference name => do
    put (Wire.uint16 preference)
    name.compose false origin canonical
  | tsig t => t.compose origin
  | unknown _ octets => put octets

/-- The canonical wire form: no compression, names in small letters. -/
def canonicalWire (d : RecordData) (origin : Option Name) : Except ComposeError Octets :=
  (d.compose false origin true).octets

/-! ## Reading

The length is checked twice. Before anything is read, that many octets have to be there; and what
was read has to end where they end. In between, a reader knows the length only if its data have no
end of their own. -/

/-- Text until its end; there has to be some. -/
def readStrings (length : Nat) : Reader RecordData := do
  let strings ← Reader.itemsUntil CharString.read ((← Reader.position) + length)
  match strings with
  | [] => Reader.fail (.malformed .emptyText)
  | first :: rest => return txt first rest

def readNodeId (length : Nat) : Reader RecordData := do
  if length ≠ 10 then Reader.fail (.malformed .nodeIdentifier)
  else return nid (← Reader.uint16) (← Reader.uint64)

def readSoa : Reader Soa := do
  let mname ← Name.read
  let rname ← Name.read
  let serial ← Serial.read
  let refresh ← Reader.uint32
  let retry ← Reader.uint32
  let expire ← Reader.uint32
  let minimum ← Reader.uint32
  return { mname, rname, serial, refresh, retry, expire, minimum }

/-- Data of a known form and a stated length. -/
def readKind (length : Nat) : RdataKind → Reader RecordData
  | .a => a <$> Ipv4.read
  | .ns => ns <$> Name.read
  | .cname => cname <$> Name.read
  | .soa => soa <$> readSoa
  | .ptr => ptr <$> Name.read
  | .hinfo => do return hinfo (← CharString.read) (← CharString.read)
  | .mx => do return mx (← Reader.uint16) (← Name.read)
  | .txt => readStrings length
  | .x25 => x25 <$> CharString.read
  | .aaaa => aaaa <$> Ipv6.read
  | .opt => do
    return opt (← Reader.itemsUntil EdnsOption.read ((← Reader.position) + length))
  | .nid => readNodeId length
  | .l32 => do return l32 (← Reader.uint16) (← Ipv4.read)
  | .l64 => do return l64 (← Reader.uint16) (← Reader.uint64)
  | .lp => do return lp (← Reader.uint16) (← Name.read)
  | .tsig => tsig <$> Tsig.read

/-- Data of a type in the form that belongs to it. -/
def readForm (rtype : Rtype) (length : Nat) : Reader RecordData :=
  match RdataKind.ofRtype? rtype with
  | some kind => readKind length kind
  | none => unknown rtype <$> Reader.take length

/-- Reads data of a type and a stated length, which they have to have exactly. -/
def read (rtype : Rtype) (length : Nat) : Reader RecordData := fun message pos =>
  -- All of the data has to be there before any of it is read.
  if message.size - pos < length then .error .shortInput pos
  else
    match readForm rtype length message pos with
    | .error e stopped => .error e stopped
    | .ok d reached =>
      if reached = pos + length then .ok d reached
      else .error (.malformed .dataLength) reached

end Dns.RecordData
