import Dns.Proofs.Signatures

/-!
# Streams of signed messages

The first message of a stream is signed like a message of its own, and every later one together with
the signature of the one before it. Signer and receiver carry a context from one message to the
next: the signer makes it from the signature that it gave, the receiver from the signature that it
expected.

The invariant of a stream is that both carry the same context. It is kept because a message is
accepted only with the signature that was expected (`Key.validate_of_macOf_multi`), and since what
is expected is made from the octets that the signer had before it (`Renderer.SignedAs.unsigned`).
The invariant need not be written down as a relation between two states, for there is nothing else
to a state than the context: `Key.SignsStream` and `Key.AcceptsStream` are both functions of it, and
the induction in `Key.stream_accepted_after` is over the messages that are left, for any context.

In a later message the request does not count any more, and neither do the names in what is signed.
`Key.macOf_request` says the first, and it is why the receiver has to know the right signature of
the request for the first message only.

Every message of a stream is rendered by a renderer of its own, in any way that brings its header up
to date (`Renderer.Rendered`); nothing connects two messages but the context.
-/

set_option autoImplicit false

namespace Dns

/-! ## Streams -/

/-- A message that was rendered, however that was done: its header has been written, and nothing
was added since. -/
inductive Renderer.Rendered : Renderer → Prop where
  | run (id flags : UInt16) (maxSize : Nat) (origin : Option Name) (time : Time48)
    (before after : List Call)
    (documented : ∀ a ∈ Call.added before (.start id flags maxSize origin time),
      Addition.Documented a)
    (nothing : Call.added after
      (Call.run before (.start id flags maxSize origin time)).writeHeader = []) :
    Rendered (Call.run after (Call.run before (.start id flags maxSize origin time)).writeHeader)

/-- A message of a stream, with all that its signer and its receiver know of it. -/
structure StreamMessage where
  /-- The message before it is signed. -/
  renderer : Renderer
  fudge : UInt16
  originalId : UInt16
  other : Octets
  /-- The signature of the request, as the signer has it. -/
  requestMac : Option Octets
  /-- The message after it was signed. -/
  signed : Renderer
  received : Time48
  /-- The signature of the request, as the receiver has it. -/
  expectedMac : Option Octets

namespace StreamMessage

def signer (m : StreamMessage) (k : Key) (macs : MacFunction) : Signer SigningContext :=
  ⟨k.signing macs, k.name, m.fudge, m.originalId, TsigRcode.noError, m.other, m.requestMac⟩

/-- The message is received at about the time at which it was signed. -/
def InTime (m : StreamMessage) : Prop :=
  ((m.received.seconds.toNat : Int) - m.renderer.time.seconds.toNat).natAbs ≤ m.fudge.toNat

end StreamMessage

namespace Key

variable {k : Key} {macs : MacFunction}

/-- All messages are signed, each in the context that the one before it left. -/
def SignsStream (k : Key) (macs : MacFunction) : Option SigningContext → List StreamMessage → Prop
  | _, [] => True
  | c, m :: rest => ∃ next, m.renderer.addNextTsig c (m.signer k macs) = (.ok next, m.signed) ∧
      k.SignsStream macs (some next) rest

/-- All messages are accepted, each in the context that the one before it left. -/
def AcceptsStream (k : Key) (macs : MacFunction) : Option SigningContext → List StreamMessage → Prop
  | _, [] => True
  | c, m :: rest => ∃ next,
      k.validateMessage macs m.signed.octets m.received m.expectedMac c true = .ok (some next) ∧
        k.AcceptsStream macs (some next) rest

/-! ## What is left for the next message

Two facts about signing make up a step: the signature that is put into the record is the one that is
expected, and the next context is made from it alone. What passes from one message to the one behind
it is the signature, then, and nothing else. -/

/-- A record that was completed has the signature of the message in it, and the context is made
from this signature. -/
theorem signNext_ok {message : Octets} {draft t : Tsig} {time : Time48}
    {requestMac : Option Octets} {c : Option SigningContext} {next : SigningContext}
    (h : k.signNext macs message draft time requestMac c = .ok (t, next)) :
    k.macOf macs (c.getD k.context) message t requestMac c.isNone = .ok t.mac.octets ∧
      t = { draft with time, mac := t.mac } ∧ next = k.continuation t.mac.octets := by
  obtain ⟨octets, signed, h⟩ := bind_eq_ok h
  obtain ⟨t', completed, last⟩ := bind_eq_ok h
  cases last
  obtain ⟨rfl, parts⟩ := withMac_ok completed
  refine ⟨?_, parts, rfl⟩
  rw [parts]
  exact signed

/-- Without a context, a message is signed as if it were no part of a stream. -/
theorem sign_of_signNext {message : Octets} {draft t : Tsig} {time : Time48}
    {requestMac : Option Octets} {next : SigningContext}
    (h : k.signNext macs message draft time requestMac none = .ok (t, next)) :
    k.sign macs message draft time requestMac = .ok t := by
  obtain ⟨octets, signed, h⟩ := bind_eq_ok h
  obtain ⟨t', completed, last⟩ := bind_eq_ok h
  cases last
  replace signed : k.macOf macs k.context message { draft with time } requestMac true
      = .ok octets := signed
  rw [sign, signed]
  exact completed

/-- The signature of the request counts for the first message only. -/
theorem macOf_request {c : SigningContext} {message : Octets} {t : Tsig} {first : Bool}
    {requestMac expectedMac : Option Octets} (request : first = true → expectedMac = requestMac) :
    k.macOf macs c message t expectedMac first = k.macOf macs c message t requestMac first := by
  cases first with
  | true => rw [request rfl]
  | false => rfl

/-- In a stream, a record with the expected signature is accepted at the right time, and the
signature goes into the context for the next message. -/
theorem validate_of_macOf_multi {octets unsigned : Octets} {owner : Name} {t : Tsig} {now : Time48}
    {requestMac : Option Octets} {start : Nat} {c : Option SigningContext}
    (cut : unsignedMessage octets start = .ok unsigned)
    (noError : t.error = TsigRcode.noError) (inTime : t.isValidAt now = true)
    (name : (owner == k.name) = true) (algorithm : (t.algorithm == k.algorithmName) = true)
    (mac : k.macOf macs (c.getD k.context) unsigned t requestMac c.isNone = .ok t.mac.octets) :
    k.validate macs octets owner t now requestMac start c true
      = .ok (some (k.continuation t.mac.octets)) := by
  have report : ValidationError.ofReport? t.error = none := by
    rw [noError]
    rfl
  have clear : k.objection? owner t now = none := by
    simp [objection?, report, inTime, name, algorithm]
  simp only [validate, cut, clear, if_true, mac, ne_eq, not_true_eq_false, if_false]

end Key

/-! ## Signing and checking

A step is `signed_accepted`, for a message at any place in a stream, the first one included: there
is no context in front of it, and then the signature of the request has to be the same on both
sides. The contexts of the two sides are compared as they are after each message, and they are
equal. The induction is on the messages, with any two contexts that agree to begin with. -/

/-- What was rendered is shown by the renderer, and its header is up to date. -/
theorem Renderer.Rendered.shows {r : Renderer} (h : r.Rendered) :
    ∃ items, r.Shows items ∧ r.HeaderWritten := by
  obtain ⟨id, flags, maxSize, origin, time, before, after, documented, nothing⟩ := h
  obtain ⟨-, items, -, shows⟩ :=
    Call.run_shows before (start_shows id flags maxSize origin time) documented
  exact ⟨items, Call.run_headerWritten after shows.writeHeader nothing
    (writeHeader_headerWritten shows)⟩

namespace Key

variable {k : Key} {macs : MacFunction}

/-- A message that was signed in a context is accepted in this context, and both sides have the
same context after it. -/
theorem signed_accepted {m : StreamMessage} {c : Option SigningContext} {next : SigningContext}
    (rendered : m.renderer.Rendered) (time : m.renderer.time.seconds ≤ Time48.max)
    (inTime : m.InTime) (request : c = none → m.expectedMac = m.requestMac)
    (signed : m.renderer.addNextTsig c (m.signer k macs) = (.ok next, m.signed)) :
    k.validateMessage macs m.signed.octets m.received m.expectedMac c true = .ok (some next) := by
  obtain ⟨items, shows, written⟩ := rendered.shows
  obtain ⟨draft, t, drafted, completed, added⟩ := Renderer.addNextTsig_ok signed
  obtain ⟨data, -, last⟩ := bind_eq_ok drafted
  cases last
  obtain ⟨mac, parts, rfl⟩ := signNext_ok completed
  have signedAt : t.time = m.renderer.time := by rw [parts]
  have names : t.algorithm = k.algorithmName := by rw [parts]; rfl
  obtain ⟨-, owner, algorithm, signedAs, owned, equal⟩ :=
    Renderer.addTsigRecord_named shows (by rw [signedAt]; exact time) names added rfl
      fun _ _ => rfl
  -- The receiver finds the record where the signer's message ended.
  have large : HeaderSection.length ≤ m.renderer.octets.size := shows.size
  have length : HeaderSection.length = 12 := rfl
  have ⟨header, hold⟩ := written
  have first : Holds m.renderer.octets 0 (Wire.uint16 header.id) := (holds_header_iff.mp hold).1
  have first' : Holds m.signed.octets 0 (Wire.uint16 header.id) := by
    have inside : (Wire.uint16 header.id).length = 2 := Octets.length_ofNat 2 _
    refine ⟨Nat.le_trans first.1 signedAs.size, fun i hi => ?_⟩
    rw [Renderer.addTsigRecord_identifier added (by omega) (by omega), first.2 i hi]
  obtain ⟨message, read, found⟩ := signedAs.message shows written first' rfl
  -- It is expected that the context was fed with what the signer had before that.
  have content := drop_two_append (m.renderer.octets.toList.drop 2) first'
  have expected := (macOf_request fun isNone => request (Option.isNone_iff_eq_none.mp isNone)).trans
    ((macOf_congr equal content).trans mac)
  have noError : t.error = TsigRcode.noError := by rw [parts]; rfl
  have fudge : t.fudge = m.fudge := by rw [parts]; rfl
  have valid : Tsig.isValidAt { t with algorithm } m.received = true := by
    rw [Tsig.isValidAt, signedAt, fudge]
    exact Time48.within_iff.mpr inTime
  rw [validateMessage, read]
  simp only [found]
  exact validate_of_macOf_multi (signedAs.unsigned shows written) noError valid owned
    (names ▸ equal) expected

theorem stream_accepted_after {c : Option SigningContext} {stream : List StreamMessage}
    (rendered : ∀ m ∈ stream, m.renderer.Rendered)
    (time : ∀ m ∈ stream, m.renderer.time.seconds ≤ Time48.max) (inTime : ∀ m ∈ stream, m.InTime)
    (request : c = none → ∀ m ∈ stream.head?, m.expectedMac = m.requestMac)
    (signed : k.SignsStream macs c stream) : k.AcceptsStream macs c stream := by
  induction stream generalizing c with
  | nil => trivial
  | cons m rest ih =>
    obtain ⟨next, first, others⟩ := signed
    obtain ⟨rendered, renderedRest⟩ := List.forall_mem_cons.mp rendered
    obtain ⟨time, timeRest⟩ := List.forall_mem_cons.mp time
    obtain ⟨inTime, inTimeRest⟩ := List.forall_mem_cons.mp inTime
    -- Behind the first message there is a context, and the request counts no more.
    refine ⟨next, ?_, ih renderedRest timeRest inTimeRest (fun none => by cases none) others⟩
    exact signed_accepted rendered time inTime (fun none => request none m rfl) first

/-- A stream that was signed is accepted, message after message, if every message is received in
time and the receiver has the right signature of the request for the first one. And the first one
is the same as if it had been signed alone. -/
theorem stream_accepted (k : Key) (macs : MacFunction) (first : StreamMessage)
    (rest : List StreamMessage) (rendered : ∀ m ∈ first :: rest, m.renderer.Rendered)
    (time : ∀ m ∈ first :: rest, m.renderer.time.seconds ≤ Time48.max)
    (inTime : ∀ m ∈ first :: rest, m.InTime) (request : first.expectedMac = first.requestMac)
    (signed : k.SignsStream macs none (first :: rest)) :
    k.AcceptsStream macs none (first :: rest) ∧
      first.renderer.addTsig (first.signer k macs) k.algorithmName = (.ok (), first.signed) := by
  refine ⟨stream_accepted_after rendered time inTime (fun _ m mem => ?_) signed, ?_⟩
  · cases mem
    exact request
  · obtain ⟨next, alone, -⟩ := signed
    obtain ⟨draft, t, drafted, completed, added⟩ := Renderer.addNextTsig_ok alone
    exact (Renderer.addTsig_of_sign drafted (sign_of_signNext completed)).trans added

end Key

/-! ## That streams can be signed

The premise of the theorem is that a stream was signed, and this is not in vain: a key signs a
message in any context that has a hash long enough for it, and those that keys make have. Signing
then fails only where adding the record does, and for that the bounds are the same as for a message
by itself. -/

theorem Renderer.addNextTsig_of_sign {Context : Type} {c : Option Context} {next : Context}
    {s : Signer Context} {draft t : Tsig} {r r' : Renderer}
    (drafted : s.draft s.key.algorithmName = .ok draft)
    (signed : s.key.signNext r.octets.toList draft r.time s.requestMac c = .ok (t, next))
    (added : r.addTsigRecord s.owner t = (.ok (), r')) : r.addNextTsig c s = (.ok next, r') := by
  simp only [addNextTsig, drafted, signed, added]

/-- A message of a stream can be signed if one that is signed alone could be, and if the hash of
the context is long enough for the key. -/
theorem Renderer.exists_addNextTsig {r : Renderer} {c : Option SigningContext} (k : Key)
    (macs : MacFunction) (fudge originalId : UInt16) (error : TsigRcode) (other : Octets)
    (requestMac : Option Octets) (enough : k.macLength ≤ (c.getD k.context).hash.length)
    (rootless : r.draft.Rootless) (room : r.size + k.reserveLength + other.length ≤ r.maxSize)
    (few : r.counts.additional.toNat < 65535)
    (short : k.algorithmName.wireLength + 16 + k.macLength + other.length < 65536)
    (request : ∀ mac, requestMac = some mac → mac.length < 65536) :
    ∃ (mac : Data) (r' : Renderer),
      r.addNextTsig c ⟨k.signing macs, k.name, fudge, originalId, error, other, requestMac⟩
        = (.ok (k.continuation mac.octets), r') := by
  have counted : other.length < 65536 := by omega
  let draft : Tsig :=
    ⟨k.algorithmName, ⟨0⟩, fudge, Data.empty, originalId, error, ⟨other, counted⟩⟩
  have drafted : Signer.draft ⟨k.signing macs, k.name, fudge, originalId, error, other, requestMac⟩
      k.algorithmName = .ok draft := Signer.draft_of_short _ _ counted
  obtain ⟨mac, length, made⟩ := k.exists_macOf (c := c.getD k.context) macs enough
    (k.exists_input (t := { draft with time := r.time }) r.octets.toList
      k.algorithm.name_absolute request c.isNone)
  have signed : k.signNext macs r.octets.toList draft r.time requestMac c
      = .ok ({ draft with time := r.time, mac }, k.continuation mac.octets) := by
    simp only [Key.signNext, made, Bind.bind, Except.bind, Key.withMac_data]
    rfl
  obtain ⟨r', added⟩ := exists_addTsigRecord_of_key k (t := { draft with time := r.time, mac })
    rfl length rootless room few short
  exact ⟨mac, r', addNextTsig_of_sign drafted signed added⟩

/-- A stream of an answer and a message without entries, signed with a hash that is cut. -/
theorem Key.stream_accepted_answer :
    let k : Key := ⟨Name.root, .sha256Cut, [1, 2, 3], rfl⟩
    let before : List Call := [.addRdataset .answer Name.root
      (.ofRdata Class.internet 60 (.a ⟨[192, 0, 2, 1], rfl⟩)) { canonical := true }]
    let r := Call.run [] (Call.run before (.start 1 0 512 none ⟨1000⟩)).writeHeader
    let last := Call.run [] (Call.run [] (.start 2 0 512 none ⟨1500⟩)).writeHeader
    ∃ r' last', let first : StreamMessage := ⟨r, 300, 1, [], some [7], r', ⟨1300⟩, some [7]⟩
      let rest : List StreamMessage := [⟨last, 300, 2, [], some [7], last', ⟨1200⟩, none⟩]
      k.SignsStream .hmac none (first :: rest) ∧ k.AcceptsStream .hmac none (first :: rest) ∧
        first.renderer.addTsig (first.signer k .hmac) k.algorithmName = (.ok (), first.signed) := by
  intro k before r last
  have rendered : r = { Renderer.start 1 0 512 none ⟨1000⟩ with
      part := .answer
      counts := { answer := 1 }
      draft := ⟨#[0, 1, 0, 0, 0, 0, 0, 1, 0, 0, 0, 0,
        0, 0, 1, 0, 1, 0, 0, 0, 60, 0, 4, 192, 0, 2, 1], CompressionTable.empty⟩ } := by
    simp only [r, before, Call.run, List.foldl, Call.perform, Renderer.addRdataset,
      Renderer.add, Rdataset.compose_ofRdata]
    rfl
  have documented : ∀ a ∈ Call.added before (.start 1 0 512 none ⟨1000⟩),
      Addition.Documented a := by
    intro a mem
    simp only [before, Call.added, Call.entries, Call.recordsOf, Rdataset.records_ofRdata] at mem
    split at mem
    · cases List.mem_singleton.mp mem
      exact ⟨by decide, trivial⟩
    · cases mem
  have request : ∀ mac : Octets, some [7] = some mac → mac.length < 65536 := fun mac h => by
    cases h
    decide
  obtain ⟨mac, r', signed⟩ := Renderer.exists_addNextTsig (r := r) (c := none) k .hmac 300 1
    TsigRcode.noError [] (some [7]) k.algorithm.macLength_le
    (by rw [rendered]; exact Draft.rootless_of_empty _) (by rw [rendered]; decide)
    (by rw [rendered]; decide) (by decide) request
  obtain ⟨_, last', signed'⟩ := Renderer.exists_addNextTsig (r := last)
    (c := some (k.continuation mac.octets)) k .hmac 300 2 TsigRcode.noError [] (some [7])
    k.algorithm.macLength_le (Draft.rootless_of_empty _) (by decide) (by decide) (by decide) request
  refine ⟨r', last', ?_⟩
  intro first rest
  have stream : k.SignsStream .hmac none (first :: rest) := ⟨_, signed, _, signed', trivial⟩
  have built : ∀ m ∈ first :: rest, m.renderer.Rendered := by
    refine List.forall_mem_cons.mpr ⟨.run 1 0 512 none ⟨1000⟩ before [] documented rfl,
      List.forall_mem_singleton.mpr (.run 2 0 512 none ⟨1500⟩ [] [] ?_ rfl)⟩
    exact fun a mem => absurd mem List.not_mem_nil
  have time : r.time = ⟨1000⟩ := congrArg Renderer.time rendered
  have times : ∀ m ∈ first :: rest, m.renderer.time.seconds ≤ Time48.max :=
    List.forall_mem_cons.mpr ⟨by rw [show first.renderer.time = _ from time]; decide,
      List.forall_mem_singleton.mpr (show (⟨1500⟩ : Time48).seconds ≤ Time48.max by decide)⟩
  have inTime : ∀ m ∈ first :: rest, m.InTime :=
    List.forall_mem_cons.mpr ⟨by
      rw [StreamMessage.InTime, show first.renderer.time = _ from time]
      exact (show ((1300 : Int) - 1000).natAbs ≤ 300 by decide),
      List.forall_mem_singleton.mpr (show ((1200 : Int) - 1500).natAbs ≤ 300 by decide)⟩
  exact ⟨stream, stream_accepted k .hmac first rest built times inTime rfl stream⟩

/-- A record among the questions can be signed as a stream of one message, too, which cannot be
read. -/
theorem Key.stream_among_questions_rejected :
    let k : Key := ⟨Name.root, .sha1, [], rfl⟩
    let macs : MacFunction :=
      ⟨fun hash _ _ => List.replicate hash.length 0, fun _ _ _ => List.length_replicate⟩
    let before : List Call := [.addRdataset .question Name.root
      (.ofRdata Class.internet 60 (.a ⟨[192, 0, 2, 1], rfl⟩)) { canonical := true }]
    let r := (Call.run before (.start 1 0 512 none ⟨0⟩)).writeHeader
    RecordData.Documented (.a ⟨[192, 0, 2, 1], rfl⟩) ∧
    ∃ r', k.SignsStream macs none [⟨r, 300, 1, [], none, r', ⟨0⟩, none⟩] ∧
      k.validateMessage macs r'.octets ⟨0⟩ none none true = .error (.parse .shortInput) := by
  intro k macs before r
  let whole : Renderer := { Renderer.start 1 0 512 none ⟨0⟩ with
    counts := { question := 1 }
    draft := ⟨#[0, 1, 0, 0, 0, 1, 0, 0, 0, 0, 0, 0,
      0, 0, 1, 0, 1, 0, 0, 0, 60, 0, 4, 192, 0, 2, 1], CompressionTable.empty⟩ }
  have rendered : r = whole := by
    simp only [r, before, Call.run, List.foldl, Call.perform, Renderer.addRdataset,
      Renderer.add, Rdataset.compose_ofRdata]
    rfl
  let t : Tsig := ⟨k.algorithmName, ⟨0⟩, 300, Data.zeros 20, 1, TsigRcode.noError, Data.empty⟩
  have signed : k.signNext macs whole.octets.toList
      ⟨k.algorithmName, ⟨0⟩, 300, Data.empty, 1, TsigRcode.noError, Data.empty⟩ ⟨0⟩ none none
      = .ok (t, k.continuation t.mac.octets) := rfl
  have composed : Renderer.composeTsig Name.root t true none whole.draft
      = .ok 1 ⟨#[0, 1, 0, 0, 0, 1, 0, 0, 0, 0, 0, 0,
        0, 0, 1, 0, 1, 0, 0, 0, 60, 0, 4, 192, 0, 2, 1,
        0, 0, 250, 0, 255, 0, 0, 0, 0, 0, 47, 9, 104, 109, 97, 99, 45, 115, 104, 97, 49, 0,
        0, 0, 0, 0, 0, 0, 1, 44, 0, 20, 0, 0, 0, 0, 0, 0, 0, 0, 0, 0, 0, 0, 0, 0, 0, 0, 0, 0, 0, 0,
        0, 1, 0, 0, 0, 0], CompressionTable.empty⟩ := by
    cbv
  have added := Renderer.addTsigRecord_of_fits (r := whole) composed (by decide) (by decide)
  rw [rendered]
  refine ⟨trivial, _, ⟨_, Renderer.addNextTsig_of_sign rfl signed added, trivial⟩, ?_⟩
  cbv

end Dns
