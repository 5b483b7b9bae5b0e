import Dns.Proofs.Signatures

/-!
# What signed octets pin down

A signature is the keyed hash of one string of octets, and whoever accepts it has seen no more of
the message and of its record than that string. So it matters that the string can be taken apart
again. It consists of an opening, the message behind a new identifier, and a closing
(`Key.input_eq`). The opening is the same for both messages that are compared, and two closings have
the same length if the other data have. This is all that is needed: the length of the message is not
among the signed octets, and it is found from behind.

Inside the message and the closing, every field is read back from its octets, and therefore two
fields with the same octets are the same (`ReadAs.unique`).

If the lengths of the other data differ, this does not go through, and it need not: other data are
told with their length in front, but this length is found only by someone who knows where the
message ends. In practice they are empty, or six octets of time.

What is fed to the hash and what the hash makes of it are kept apart. `Key.macOf_eq_fed` says that
nothing but the octets that were fed goes into a signature, and all other statements are about these
octets; none of them depends on the hash, and none is about collisions.
-/

set_option autoImplicit false

namespace Dns

/-- An absolute name is put in small letters and written in full. -/
theorem Name.canonicalOctets_of_absolute {n : Name} (absolute : n.absolute = true) :
    (n.compose false none true).octets = .ok n.canonical.wire := by
  rw [canonicalOctets_eq, if_pos absolute]
  simp only [wire, canonical, absolute, if_true]

/-- Two messages and their records agree in all that is signed of them, be they the first of a
stream or later ones. -/
structure SignedAlike (first : Bool) (message message' : Octets) (t t' : Tsig) : Prop where
  message : message.drop 2 = message'.drop 2
  originalId : t.originalId = t'.originalId
  time : t.time = t'.time
  fudge : t.fudge = t'.fudge
  error : first = true → t.error = t'.error
  other : first = true → t.other = t'.other

namespace Key

variable {k : Key} {macs : MacFunction} {message message' : Octets} {t t' : Tsig}
  {requestMac : Option Octets} {c : Option SigningContext} {first : Bool}

/-! ## Opening, message and closing

The opening belongs to the request and is there for the first message of a stream only. The closing
begins with the names, which are the same for all messages of a key, whatever letters they came in.
Only the message has a length that is not known, and since it stands between the other two, it is
what is left when they have been taken away. -/

/-- What is signed in front of a message: the signature of the request, by the first message. -/
def openingInput (requestMac : Option Octets) (first : Bool) : Except ComposeError Octets :=
  if first then requestInput requestMac else .ok []

/-- What is signed of the key: its names, and what every record of a key has between them. -/
def namesInput (k : Key) : Octets :=
  k.name.canonical.wire ++ Class.any.wire ++ Wire.uint32 0 ++ k.algorithmName.canonical.wire

/-- What is signed behind a message. -/
def closingInput (k : Key) (t : Tsig) (first : Bool) : Octets :=
  if first then k.namesInput ++ (timesInput t ++ (t.error.wire ++ t.other.wire)) else timesInput t

theorem input_eq (algorithm : (t.algorithm == k.algorithmName) = true) :
    k.input message t requestMac first = (openingInput requestMac first).map fun opening =>
      opening ++ (messageInput message t ++ k.closingInput t first) := by
  cases first with
  | false => rfl
  | true =>
    have named := Name.canonicalOctets_of_absolute k.absolute
    have spelled : (t.algorithm.compose false none true).octets
        = .ok k.algorithmName.canonical.wire := by
      rw [Name.canonicalOctets_congr algorithm]
      exact Name.canonicalOctets_of_absolute k.algorithm.name_absolute
    simp only [input, firstInput, openingInput, closingInput, namesInput, if_true, named, spelled]
    cases requestInput requestMac with
    | error e => rfl
    | ok opening =>
      refine congrArg Except.ok ?_
      simp only [List.append_assoc]

theorem openingInput_ok_iff : (∃ opening, openingInput requestMac first = .ok opening) ↔
    (first = true → ∀ mac, requestMac = some mac → mac.length < 65536) := by
  cases first with
  | false => exact ⟨fun _ never => absurd never (by decide), fun _ => ⟨[], rfl⟩⟩
  | true =>
    cases requestMac with
    | none => exact ⟨fun _ _ _ none => absurd none (by simp), fun _ => ⟨[], rfl⟩⟩
    | some mac =>
      show (∃ opening, Wire.lengthPrefixed mac = .ok opening) ↔ _
      unfold Wire.lengthPrefixed
      by_cases short : mac.length < 65536
      · rw [if_pos short]
        exact ⟨fun _ _ mac' same => Option.some.inj same ▸ short, fun _ => ⟨_, rfl⟩⟩
      · rw [if_neg short]
        exact ⟨fun ⟨_, never⟩ => absurd never (by simp), fun all => absurd (all rfl mac rfl) short⟩

/-! ## Taking the octets apart

Two strings that are the same are cut at the same places, one field after the other, wherever the
lengths of the fields are known to agree. Names are the exception. They are not of a fixed length,
but both messages are signed with one key, and so their octets are equal beforehand and need not be
told apart. -/

theorem length_timesInput (t : Tsig) : (timesInput t).length = 8 := by
  simp only [timesInput, Time48.wire, Wire.uint16, List.length_append, Octets.length_ofNat]

theorem length_closingInput (other : t.other.octets.length = t'.other.octets.length) :
    (k.closingInput t first).length = (k.closingInput t' first).length := by
  have error : ∀ e : TsigRcode, e.wire.length = 2 := Registered.length_wire
  cases first with
  | false => exact (length_timesInput t).trans (length_timesInput t').symm
  | true =>
    simp only [closingInput, if_true, List.length_append, length_timesInput, error, Data.wire,
      Octets.length_ofNat, other]

theorem messageInput_inj (same : messageInput message t = messageInput message' t') :
    t.originalId = t'.originalId ∧ message.drop 2 = message'.drop 2 := by
  obtain ⟨number, rest⟩ :=
    List.append_inj same (by rw [Wire.length_uint16, Wire.length_uint16])
  exact ⟨(readAs_uint16 _).unique (number ▸ readAs_uint16 _), rest⟩

theorem timesInput_inj (time : t.time.seconds ≤ Time48.max) (time' : t'.time.seconds ≤ Time48.max)
    (same : timesInput t = timesInput t') : t.time = t'.time ∧ t.fudge = t'.fudge := by
  have six : ∀ t : Time48, t.wire.length = 6 := fun t => Octets.length_ofNat 6 _
  obtain ⟨times, fudges⟩ := List.append_inj same (by rw [six, six])
  exact ⟨(readAs_time48 _ time).unique (times ▸ readAs_time48 _ time'),
    (readAs_uint16 _).unique (fudges ▸ readAs_uint16 _)⟩

theorem closingInput_inj (time : t.time.seconds ≤ Time48.max)
    (time' : t'.time.seconds ≤ Time48.max)
    (same : k.closingInput t first = k.closingInput t' first) :
    t.time = t'.time ∧ t.fudge = t'.fudge ∧
      (first = true → t.error = t'.error ∧ t.other = t'.other) := by
  cases first with
  | false =>
    obtain ⟨times, fudges⟩ := timesInput_inj time time' same
    exact ⟨times, fudges, fun never => absurd never (by decide)⟩
  | true =>
    have error : ∀ e : TsigRcode, e.wire.length = 2 := Registered.length_wire
    have behind := List.append_cancel_left same
    obtain ⟨front, behind⟩ :=
      List.append_inj behind (by rw [length_timesInput, length_timesInput])
    obtain ⟨errors, others⟩ := List.append_inj behind (by rw [error, error])
    obtain ⟨times, fudges⟩ := timesInput_inj time time' front
    exact ⟨times, fudges, fun _ => ⟨(readAs_tsigRcode _).unique (errors ▸ readAs_tsigRcode _),
      (readAs_data _).unique (others ▸ readAs_data _)⟩⟩

theorem signedAlike_of_same (time : t.time.seconds ≤ Time48.max)
    (time' : t'.time.seconds ≤ Time48.max)
    (other : t.other.octets.length = t'.other.octets.length)
    (same : messageInput message t ++ k.closingInput t first
      = messageInput message' t' ++ k.closingInput t' first) :
    SignedAlike first message message' t t' := by
  -- The messages may differ in length as yet, but the closings do not.
  obtain ⟨messages, closings⟩ := List.append_inj' same (length_closingInput other)
  obtain ⟨originalId, content⟩ := messageInput_inj messages
  obtain ⟨times, fudges, rest⟩ := closingInput_inj time time' closings
  exact ⟨content, originalId, times, fudges, fun is => (rest is).1, fun is => (rest is).2⟩

theorem same_of_signedAlike (alike : SignedAlike first message message' t t') :
    messageInput message t ++ k.closingInput t first
      = messageInput message' t' ++ k.closingInput t' first := by
  have messages : messageInput message t = messageInput message' t' := by
    rw [messageInput, messageInput, alike.message, alike.originalId]
  have times : timesInput t = timesInput t' := by
    rw [timesInput, timesInput, alike.time, alike.fudge]
  cases first with
  | false => simp only [closingInput, Bool.false_eq_true, if_false, messages, times]
  | true =>
    simp only [closingInput, if_true, messages, times, alike.error rfl, alike.other rfl]

/-! ## What is fed to the hash -/

/-- The hash to which all that is signed of a message was fed. Without a context the message is the
first of its stream. -/
def fed (k : Key) (c : Option SigningContext) (message : Octets) (t : Tsig)
    (requestMac : Option Octets) : Except ComposeError SigningContext :=
  (k.input message t requestMac c.isNone).map (c.getD k.context).feed

theorem macOf_eq_fed : k.macOf macs (c.getD k.context) message t requestMac c.isNone
    = ((k.fed c message t requestMac).mapError SigningError.compose >>= k.finish macs) := by
  rw [macOf, fed]
  cases k.input message t requestMac c.isNone <;> rfl

theorem fed_ok {after : SigningContext} (algorithm : (t.algorithm == k.algorithmName) = true)
    (h : k.fed c message t requestMac = .ok after) :
    ∃ opening, openingInput requestMac c.isNone = .ok opening ∧ after.input
      = (c.getD k.context).input
        ++ (opening ++ (messageInput message t ++ k.closingInput t c.isNone)) := by
  rw [fed, input_eq algorithm] at h
  obtain ⟨octets, given, rfl⟩ := map_eq_ok h
  obtain ⟨opening, opened, rfl⟩ := map_eq_ok given
  exact ⟨opening, opened, rfl⟩

theorem parts_of_beq {k' : Key} (keys : (k' == k) = true) :
    (k'.name == k.name) = true ∧ k'.algorithm = k.algorithm ∧ k'.secret = k.secret := by
  change (k'.name == k.name && decide (k'.algorithm = k.algorithm) && k'.secret == k.secret) = true
    at keys
  simpa only [Bool.and_eq_true, decide_eq_true_eq, beq_iff_eq, and_assoc] using keys

theorem input_congr {k' : Key} {algorithm : Name} (keys : (k' == k) = true)
    (algorithms : (algorithm == t.algorithm) = true) (same : message'.drop 2 = message.drop 2) :
    k'.input message' { t with algorithm } requestMac first
      = k.input message t requestMac first := by
  cases first with
  | false => simp only [input, Bool.false_eq_true, if_false, laterInput, messageInput, same,
      timesInput]
  | true =>
    have names := Name.canonicalOctets_congr (parts_of_beq keys).1
    have own : k'.firstInput message t requestMac = k.firstInput message t requestMac := by
      rw [firstInput, firstInput, names]
    exact (firstInput_congr algorithms same).trans own

/-- Neither the identifier of a message nor the letter case of a name is among what is signed. -/
theorem fed_congr {k' : Key} {algorithm : Name} (keys : (k' == k) = true)
    (algorithms : (algorithm == t.algorithm) = true) (same : message'.drop 2 = message.drop 2) :
    k'.fed c message' { t with algorithm } requestMac = k.fed c message t requestMac := by
  obtain ⟨-, algorithm, secret⟩ := parts_of_beq keys
  have context : k'.context = k.context := by rw [Key.context, Key.context, algorithm, secret]
  rw [fed, fed, input_congr keys algorithms same, context]

/-! ## What two messages that are signed alike have in common

Both directions are of interest. What is signed determines the message, and what is not signed, the
identifier and the letters of names, makes no difference. The first is what a receiver relies on,
and the second is why a message can be forwarded under another identifier. -/

theorem fed_ok_iff (algorithm : (t.algorithm == k.algorithmName) = true) :
    (∃ after, k.fed c message t requestMac = .ok after) ↔
      (c = none → ∀ mac, requestMac = some mac → mac.length < 65536) := by
  rw [← Option.isNone_iff_eq_none, ← openingInput_ok_iff]
  constructor
  · rintro ⟨after, given⟩
    obtain ⟨opening, opened, -⟩ := fed_ok algorithm given
    exact ⟨opening, opened⟩
  · rintro ⟨opening, opened⟩
    exact ⟨_, by rw [fed, input_eq algorithm, opened]; rfl⟩

theorem fed_same_iff {after after' : SigningContext}
    (algorithm : (t.algorithm == k.algorithmName) = true)
    (algorithm' : (t'.algorithm == k.algorithmName) = true)
    (time : t.time.seconds ≤ Time48.max) (time' : t'.time.seconds ≤ Time48.max)
    (other : t.other.octets.length = t'.other.octets.length)
    (given : k.fed c message t requestMac = .ok after)
    (given' : k.fed c message' t' requestMac = .ok after') :
    after.input = after'.input ↔ SignedAlike c.isNone message message' t t' := by
  obtain ⟨opening, opened, octets⟩ := fed_ok algorithm given
  obtain ⟨opening', opened', octets'⟩ := fed_ok algorithm' given'
  obtain rfl : opening = opening' := Except.ok.inj (opened.symm.trans opened')
  rw [octets, octets', List.append_cancel_left_eq, List.append_cancel_left_eq]
  exact ⟨signedAlike_of_same time time' other, same_of_signedAlike⟩

/-- **What is signed of a message is told by the octets that are fed to the hash.** Whether there is
a context or none, and whatever the signature of the request: a signature is made of the hash that
they were fed to, and they can be fed unless the signature of the request has no length of sixteen
bits. If those of two messages are the same, then so is everything behind the identifiers, and so
are the original identifier, the time and the fudge, and in first messages the error and the other
data; and the other way around. An identifier, or a name in other letters, never makes a
difference. -/
theorem signed_octets_determine (k : Key) (requestMac : Option Octets) (c : Option SigningContext) :
    (∀ (macs : MacFunction) (message : Octets) (t : Tsig),
      k.macOf macs (c.getD k.context) message t requestMac c.isNone
        = ((k.fed c message t requestMac).mapError SigningError.compose >>= k.finish macs)) ∧
    (∀ (message : Octets) (t : Tsig), (t.algorithm == k.algorithmName) = true →
      ((∃ after, k.fed c message t requestMac = .ok after) ↔
        (c = none → ∀ mac, requestMac = some mac → mac.length < 65536))) ∧
    (∀ (message message' : Octets) (t t' : Tsig) (after after' : SigningContext),
      (t.algorithm == k.algorithmName) = true → (t'.algorithm == k.algorithmName) = true →
      t.time.seconds ≤ Time48.max → t'.time.seconds ≤ Time48.max →
      t.other.octets.length = t'.other.octets.length →
      k.fed c message t requestMac = .ok after → k.fed c message' t' requestMac = .ok after' →
      (after.input = after'.input ↔ SignedAlike c.isNone message message' t t')) ∧
    (∀ (k' : Key) (message message' : Octets) (t : Tsig) (algorithm : Name), (k' == k) = true →
      (algorithm == t.algorithm) = true → message'.drop 2 = message.drop 2 →
      k'.fed c message' { t with algorithm } requestMac = k.fed c message t requestMac) := by
  refine ⟨fun macs message t => macOf_eq_fed, fun message t algorithm => fed_ok_iff algorithm, ?_,
    ?_⟩
  · intro message message' t t' after after' algorithm algorithm' time time' other given given'
    exact fed_same_iff algorithm algorithm' time time' other given given'
  · intro k' message message' t algorithm keys algorithms same
    exact fed_congr keys algorithms same

/-- Three headers under one key: another identifier goes unnoticed, another flag does not. -/
theorem signed_octets_determine_headers :
    let k : Key := ⟨Name.root, .sha1, [], rfl⟩
    let t : Tsig := ⟨k.algorithmName, ⟨1000⟩, 300, Data.empty, 1, TsigRcode.noError, Data.empty⟩
    let query : Octets := [0, 1] ++ List.replicate 10 0
    let renamed : Octets := [0, 2] ++ List.replicate 10 0
    let answer : Octets := [0, 1, 128] ++ List.replicate 9 0
    ∃ a b c, k.fed none query t (some [7]) = .ok a ∧ k.fed none renamed t (some [7]) = .ok b ∧
      k.fed none answer t (some [7]) = .ok c ∧ a.input = b.input ∧ a.input ≠ c.input := by
  intro k t query renamed answer
  obtain ⟨-, fed, pinned, -⟩ := signed_octets_determine k (some [7]) none
  have algorithm : (t.algorithm == k.algorithmName) = true := by decide
  have short : (none : Option SigningContext) = none →
      ∀ mac : Octets, some [7] = some mac → mac.length < 65536 := by
    rintro - mac ⟨⟩
    decide
  obtain ⟨a, first⟩ := (fed query t algorithm).mpr short
  obtain ⟨b, second⟩ := (fed renamed t algorithm).mpr short
  obtain ⟨c, third⟩ := (fed answer t algorithm).mpr short
  refine ⟨a, b, c, first, second, third, ?_, fun same => ?_⟩
  · exact (pinned query renamed t t a b algorithm algorithm (by decide) (by decide) rfl first
      second).mpr ⟨rfl, rfl, rfl, rfl, fun _ => rfl, fun _ => rfl⟩
  · have alike := (pinned query answer t t a c algorithm algorithm (by decide) (by decide) rfl first
      third).mp same
    exact absurd alike.message (by decide)

end Key

end Dns
