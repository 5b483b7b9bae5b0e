import Dns.Proofs.Messages
import Dns.Proofs.Room
import Dns.Tsig.Validation

/-!
# Signed messages are validated

Signer and receiver come to the octets under a signature on different ways. The signer has the
message that was rendered, before its record was added, and writes the names of key and algorithm in
canonical form. The receiver has the message with the record: it finds the record by reading the
message, cuts the message where the record starts, takes it off the number of additional records,
and writes the names that it found, which may have come through pointers.

Both ways lead to the same octets (`Key.firstInput_congr`), but for the first two, which are the
identifier and never signed. So what is said of a message holds for it under any identifier, and
`Renderer.addTsigRecord_signedAs` is stated for any octets that differ from the rendered ones in
these two places at most.

The proof of `Key.validate_signed` has three parts.

* The message can be read, and the signature is the last record in it (`SignedAs.message`). Behind
  this is the invariant of renderers, `Renderer.Shows`, together with a header that is up to date:
  signing changes the number of additional records in the header, and none of the other numbers.
* What is left without the record is the message before it was signed (`SignedAs.unsigned`).
* The code is the same on both sides, because it is a function of octets that are the same. Nothing
  is assumed of this function but the length of its results (`MacFunction`).

That signing *succeeds* is a matter of room and of lengths, and is shown apart from all this
(`Renderer.exists_addTsig`).
-/

set_option autoImplicit false

namespace Dns

/-! ## Names in canonical form

Names in what is signed are in full and in lower case. They do not depend on a table, on an origin
or on the spelling that was found, and so a receiver can write them as the signer did. This is what
makes a signature survive a change of letter case on the way, and with it the compression of the key
name, which is read back in the letters of whatever it was compressed with. -/

namespace Name

/-- Without the table, a name is all its labels. -/
theorem composeLabels_uncompressed (canonical : Bool) (labels : List Label)
    (fits : labelsLength labels + 1 ≤ 255) (d : Draft) :
    composeLabels false canonical labels fits d
      = d.put (labels.flatMap (labelWire canonical) ++ [0]) := by
  induction labels generalizing d with
  | nil => rfl
  | cons l rest ih =>
    rw [composeLabels]
    simp only [Draft.find?, Bool.false_eq_true, if_false]
    rw [ih, List.flatMap_cons, List.append_assoc, Draft.put_put]

theorem labelWire_canonical (labels : List Label) :
    labels.flatMap (labelWire true) = (labels.map Label.lower).flatMap Label.wire := by
  rw [List.flatMap_map]
  rfl

/-- Only absolute names have canonical octets. -/
theorem canonicalOctets_eq (n : Name) : (n.compose false none true).octets
    = if n.absolute then .ok ((n.labels.map Label.lower).flatMap Label.wire ++ [0])
      else .error .needAbsoluteName := by
  unfold Composer.octets compose completed
  by_cases absolute : n.absolute = true
  · simp only [absolute, ↓reduceDIte, if_true]
    rw [composeLabels_uncompressed, labelWire_canonical]
    simp only [Draft.empty, Draft.put, Array.toList_appendList, List.nil_append]
  · simp only [absolute, ↓reduceDIte, if_false, Bool.false_eq_true]

/-- Equal names have the same canonical octets. -/
theorem canonicalOctets_congr {a b : Name} (h : (a == b) = true) :
    (a.compose false none true).octets = (b.compose false none true).octets := by
  have same : a.canonical.absolute = b.canonical.absolute :=
    congrArg Name.absolute (beq_iff_canonical.mp h)
  replace same : a.absolute = b.absolute := same
  rw [canonicalOctets_eq, canonicalOctets_eq, same, alike_of_beq h]

end Name

/-! ## Signatures as records

What is read of a signature is what was composed, up to the names and to the part of the time that
does not fit into 48 bits. `Tsig.foundAs` says this without a condition on the time; who knows that
the time fits uses `Tsig.foundAs_eq`. The time is cut where it is written. What a key puts into a
record was cut before, and so the record that is found has the very time that was signed. -/

/-- What is found of a signature: the algorithm as it was completed and of the time what fits into
48 bits. All else is found as it was. -/
def Tsig.foundAs (t : Tsig) (algorithm : Name) : Tsig :=
  { t with algorithm, time := .ofUInt64 t.time.seconds }

theorem Tsig.foundAs_eq {t : Tsig} (time : t.time.seconds ≤ Time48.max) (algorithm : Name) :
    t.foundAs algorithm = { t with algorithm } := by
  rw [foundAs, Time48.ofUInt64_eq_iff.mpr time]

theorem Tsig.compose_writes (t : Tsig) (origin : Option Name) :
    (t.compose origin).Writes (fun _ => Tsig.read) fun found =>
      ∃ algorithm, t.algorithm.Found origin algorithm ∧ found = t.foundAs algorithm := by
  refine (t.algorithm.compose_writes _ _ _).bind fun algorithm h =>
    .put (b := t.foundAs algorithm) ?_ ⟨algorithm, h, rfl⟩
  simp only [wireBehindAlgorithm, List.append_assoc]
  exact (readAs_ofUInt64 t.time).bind <| (readAs_uint16 t.fudge).bind <|
    (readAs_data t.mac).bind <| (readAs_uint16 t.originalId).bind <|
      (readAs_tsigRcode t.error).bind ((readAs_data t.other).map _)

namespace Renderer

/-- A TSIG record is read back. -/
theorem composeTsig_found {owner : Name} {t : Tsig} {compressed : Bool} {origin : Option Name}
    {fixed : Nat → Prop} {d d' : Draft} {n : Nat} (covered : ∀ i, d.size ≤ i → fixed i)
    (sound : d.Sound fixed) (run : composeTsig owner t compressed origin d = .ok n d') :
    n = 1 ∧ d.Grows d' ∧ ∃ foundOwner algorithm, owner.Found origin foundOwner ∧
      t.algorithm.Found none algorithm ∧
      Record.read.Finds fixed d'.octets
        ⟨foundOwner, Class.any, 0, .tsig (t.foundAs algorithm)⟩ d.size d'.size := by
  have form : RecordData.readForm Rtype.tsig = fun length => RecordData.readKind length .tsig :=
    funext (RecordData.readForm_of_kind? (d := .tsig t) rfl)
  have data : (t.compose none).Writes (RecordData.read Rtype.tsig) fun found =>
      ∃ algorithm, t.algorithm.Found none algorithm ∧ found = .tsig (t.foundAs algorithm) := by
    refine RecordData.data_writes ?_
    rw [form]
    refine (t.compose_writes none).map fun found h => ?_
    obtain ⟨algorithm, h, rfl⟩ := h
    exact ⟨algorithm, h, rfl⟩
  have writes : (owner.compose compressed origin false >>= fun _ =>
      Composer.put Rtype.tsig.wire >>= fun _ => Composer.put Class.any.wire >>= fun _ =>
        Composer.put (Wire.uint32 0) >>= fun _ => Composer.lengthPrefixed (t.compose none)).Writes
      (fun _ => Record.read) fun found => ∃ foundOwner algorithm, owner.Found origin foundOwner ∧
        t.algorithm.Found none algorithm ∧
        found = ⟨foundOwner, Class.any, 0, .tsig (t.foundAs algorithm)⟩ :=
    (owner.compose_writes _ _ _).bind fun foundOwner ho =>
      .putBind (readAs_rtype Rtype.tsig) <| .putBind (readAs_class Class.any) <|
        .putBind (readAs_uint32 0) <|
          .lengthPrefixed data (t.compose_built none).confined fun found ⟨algorithm, ha, same⟩ =>
            ⟨foundOwner, algorithm, ho, ha, by rw [same]⟩
  -- The composer ends with the number of records, which no reader gives back. It is taken off
  -- before the rest is read.
  rw [composeTsig_eq] at run
  obtain ⟨_, d₁, inner, last⟩ := Composer.bind_ok run
  cases last
  obtain ⟨grown, -, found, ⟨foundOwner, algorithm, ho, ha, rfl⟩, finds⟩ :=
    writes fixed d d' covered sound inner
  exact ⟨rfl, grown, foundOwner, algorithm, ho, ha, finds⟩

end Renderer

/-! ## A header that is up to date

A signature is over the message with its header, and the header is not written by itself. So it has
to be known that the numbers in it are right when the message is signed. Calls that add nothing may
stand in between; they change the numbers only by writing the header again. -/

/-- The six numbers of a header, each at its place. -/
theorem holds_header_iff {m : Array UInt8} {h : HeaderSection} :
    Holds m 0 h.wire ↔ Holds m 0 (Wire.uint16 h.header.id) ∧
      Holds m 2 (Wire.uint16 h.header.flags) ∧ Holds m 4 (Wire.uint16 h.counts.question) ∧
      Holds m 6 (Wire.uint16 h.counts.answer) ∧ Holds m 8 (Wire.uint16 h.counts.authority) ∧
      Holds m 10 (Wire.uint16 h.counts.additional) := by
  simp only [HeaderSection.wire, Header.wire, Counts.wire, holds_append, List.length_append,
    Wire.uint16, Octets.length_ofNat]
  constructor
  · rintro ⟨⟨id, flags⟩, ⟨⟨question, answer⟩, authority⟩, additional⟩
    exact ⟨id, flags, question, answer, authority, additional⟩
  · rintro ⟨id, flags, question, answer, authority, additional⟩
    exact ⟨⟨id, flags⟩, ⟨⟨question, answer⟩, authority⟩, additional⟩

namespace Renderer

variable {r r' : Renderer} {items : List (Section × Item)} {part : Section}

/-- The header has been written since the last addition. -/
def HeaderWritten (r : Renderer) : Prop :=
  ∃ header, Holds r.octets 0 (HeaderSection.wire ⟨header, r.counts⟩)

theorem counts_eq (h : r.Shows items) (g : r'.Shows items) : r'.counts = r.counts :=
  counts_ext fun part => UInt16.toNat_inj.mp ((g.counts part).trans (h.counts part).symm)

theorem writeHeader_headerWritten (h : r.Shows items) : r.writeHeader.HeaderWritten := by
  have counts : r.writeHeader.counts = r.counts := by rw [writeHeader]
  refine ⟨⟨r.id, r.flags⟩, ?_⟩
  rw [counts]
  exact holds_header h

theorem HeaderWritten.keeps (h : r.HeaderWritten) (counts : r'.counts = r.counts)
    (kept : Keeps Draft.everywhere r.octets r'.octets) : r'.HeaderWritten := by
  obtain ⟨header, hold⟩ := h
  have stands : Stands Draft.everywhere r.octets 0 (HeaderSection.wire ⟨header, r.counts⟩) :=
    ⟨hold, fun _ _ _ => trivial⟩
  exact ⟨header, counts ▸ (stands.keeps kept fun _ _ _ => trivial).holds⟩

theorem add_keeps {compose : Option Name → Composer Nat}
    (built : Composer.Built (compose r.origin))
    (run : r.add part compose = (.ok (), r')) : Keeps Draft.everywhere r.octets r'.octets := by
  obtain ⟨-, n, draft, composed, -, -, rfl⟩ := add_ok run
  exact (built.confined.grows composed).kept

end Renderer

namespace Call

open Renderer

variable {r r' : Renderer} {items : List (Section × Item)} {c : Call}

/-- Only the header is ever written over. -/
theorem perform_keeps (run : c.perform r = (.ok (), r')) (other : c ≠ .writeHeader) :
    Keeps Draft.everywhere r.octets r'.octets := by
  cases effect_of_ok run with
  | question q _ added => exact add_keeps (q.entry_built _) added
  | records part owner set form r₁ wasPadded _ added same =>
    subst same
    have kept : Keeps _ r.octets r₁.octets := add_keeps (set.compose_built _ _ _ _) added
    exact kept
  | header is => exact absurd is other
  | nothing _ draft =>
    rw [Renderer.octets, Renderer.octets, draft]
    exact .refl _ _

theorem perform_headerWritten (before : r.Shows items) (after : r'.Shows items)
    (written : r.HeaderWritten) (run : c.perform r = (.ok (), r')) : r'.HeaderWritten := by
  by_cases header : c = .writeHeader
  · subst header
    have hold := writeHeader_headerWritten before
    cases run
    exact hold
  · exact written.keeps (counts_eq before after) (perform_keeps run header)

/-- Calls that add nothing leave the header up to date. -/
theorem run_headerWritten (calls : List Call) (h : r.Shows items) (nothing : added calls r = [])
    (written : r.HeaderWritten) : (run calls r).Shows items ∧ (run calls r).HeaderWritten := by
  induction calls generalizing r with
  | nil => exact ⟨h, written⟩
  | cons c rest ih =>
    rw [added] at nothing
    have step : run (c :: rest) r = run rest (c.perform r).2 := rfl
    rw [step]
    rcases result : c.perform r with ⟨outcome, r₁⟩
    rw [result] at nothing
    -- A call that succeeds has added nothing, and one that fails has changed nothing that the
    -- header tells.
    cases outcome with
    | ok =>
      obtain ⟨none, nothing⟩ := List.append_eq_nil_iff.mp nothing
      obtain ⟨-, new, all, shows⟩ := c.perform_shows h (by simp [none]) result
      rw [none] at all
      cases all
      rw [List.append_nil] at shows
      exact ih shows nothing (perform_headerWritten h shows written result)
    | error e =>
      have same := c.perform_error h.bounded result
      refine ih (h.restored same) nothing (written.keeps same.counts ?_)
      rw [same.octets]
      exact .refl _ _

end Call

/-! ## Octets of a signed message

`Renderer.SignedAs` is about some octets, a renderer before it signed, and the record at the end.
Everything that the receiver does is derived from it, and nothing of the renderer after signing is
looked at again. Taking away the record and lowering the number gives back the octets that were
signed (`SignedAs.unsigned`), apart from the identifier, which is not looked at on either side. -/

/-- What stands at a place is what the octets from there on begin with. -/
theorem Holds.take_drop {m : Array UInt8} {p n : Nat} {o : Octets} (h : Holds m p o)
    (length : o.length = n) : (m.toList.drop p).take n = o := by
  subst length
  refine List.ext_getElem? fun i => ?_
  rw [List.getElem?_take, List.getElem?_drop, Array.getElem?_toList]
  split
  · rename_i hi
    rw [h.2 i hi, List.getElem?_eq_getElem hi]
  · rename_i hi
    rw [List.getElem?_eq_none (Nat.le_of_not_lt hi)]

theorem take_drop_congr {a b : Array UInt8} {p n : Nat}
    (h : ∀ i, p ≤ i ∧ i < p + n → a[i]? = b[i]?) :
    (a.toList.drop p).take n = (b.toList.drop p).take n := by
  refine List.ext_getElem? fun i => ?_
  rw [List.getElem?_take, List.getElem?_take, List.getElem?_drop, List.getElem?_drop,
    Array.getElem?_toList, Array.getElem?_toList]
  split
  · rw [h (p + i) (by omega)]
  · rfl

namespace Renderer

variable {r r' : Renderer} {items : List (Section × Item)} {m : Array UInt8} {record : Record}

/-- The octets are those of the renderer with a record added: all that stood behind the identifier
is there but for the number of additional records, which is one more. -/
structure SignedAs (r : Renderer) (m : Array UInt8) (record : Record) : Prop where
  size : r.octets.size ≤ m.size
  kept : ∀ i, i < r.octets.size → 2 ≤ i ∧ i < 10 ∨ HeaderSection.length ≤ i →
    m[i]? = r.octets[i]?
  count : Holds m 10 (Wire.uint16 (r.counts.additional + 1))
  room : r.counts.additional.toNat < 65535
  record : Record.read.Finds behindHeader m record r.size m.size

/-- What was signed last stands behind everything else, whatever the identifier is changed to. -/
theorem addTsigRecord_signedAs {owner : Name} {t : Tsig} (shows : r.Shows items)
    (time : t.time.seconds ≤ Time48.max) (run : r.addTsigRecord owner t = (.ok (), r'))
    (size : m.size = r'.octets.size) (same : ∀ i, 2 ≤ i → m[i]? = r'.octets[i]?) :
    r'.mac = t.mac.octets ∧ ∃ foundOwner algorithm, owner.Found r.origin foundOwner ∧
      t.algorithm.Found none algorithm ∧
      r.SignedAs m ⟨foundOwner, Class.any, 0, .tsig { t with algorithm }⟩ := by
  obtain ⟨r₁, added, rfl⟩ := addTsigRecord_ok run
  obtain ⟨-, n, draft, composed, -, few, rfl⟩ := add_ok added
  obtain ⟨rfl, grown, foundOwner, algorithm, ho, ha, finds⟩ :=
    composeTsig_found (fun i hi => Nat.le_trans shows.size hi) shows.sound composed
  rw [Tsig.foundAs_eq time] at finds
  refine ⟨rfl, foundOwner, algorithm, ho, ha, ?_⟩
  have few : r.counts.additional.toNat + 1 ≤ 65535 := few
  -- The transaction has checked that the number does not wrap around.
  have counted : UInt16.ofNat (r.counts.additional.toNat + 1) = r.counts.additional + 1 := by
    rw [UInt16.ofNat_add, UInt16.ofNat_toNat]
    rfl
  have count := Wire.length_uint16 (r.counts.additional + 1)
  have header : HeaderSection.length ≤ draft.octets.size :=
    Nat.le_trans shows.size grown.size_le
  have final : ∀ i, 2 ≤ i → m[i]? = (Octets.overwrite draft.octets 10
      (Wire.uint16 (r.counts.additional + 1)))[i]? := by
    rw [← counted]
    exact same
  have whole : m.size = draft.octets.size := size.trans (size_overwrite _ _ _)
  -- The octets 10 and 11 are written over when the record is counted.
  have others : ∀ i, 2 ≤ i ∧ i < 10 ∨ HeaderSection.length ≤ i → m[i]? = draft.octets[i]? := by
    intro i hi
    have length : HeaderSection.length = 12 := rfl
    rw [final i (by omega), getElem?_overwrite _ (by omega)]
  refine ⟨?_, fun i hi places => ?_, ?_, by omega, ?_⟩
  · rw [whole]
    exact grown.kept.1
  · rw [others i places]
    exact grown.kept.2 i hi trivial
  · have hold : Holds (Octets.overwrite draft.octets 10 (Wire.uint16 (r.counts.additional + 1))) 10
        (Wire.uint16 (r.counts.additional + 1)) :=
      holds_overwrite _ (by rw [count]; exact header)
    refine ⟨by rw [whole, count]; exact header, fun i hi => ?_⟩
    rw [final (10 + i) (by omega), hold.2 i hi]
  · rw [whole]
    exact finds.keeps ⟨Nat.le_of_eq whole.symm, fun i _ hi => others i (.inr hi)⟩ fun _ _ hi => hi

theorem SignedAs.one_more (h : r.SignedAs m record) :
    (r.counts.additional + 1).toNat = r.counts.additional.toNat + 1 := by
  have room := h.room
  rw [UInt16.toNat_add]
  exact Nat.mod_eq_of_lt (Nat.succ_lt_succ room)

theorem SignedAs.holds {p : Nat} {o : Octets} (h : r.SignedAs m record) (there : Holds r.octets p o)
    (from' : 2 ≤ p) (upTo : p + o.length ≤ 10) : Holds m p o := by
  refine ⟨Nat.le_trans there.1 h.size, fun i hi => ?_⟩
  have inside := there.1
  rw [h.kept (p + i) (by omega) (.inl ⟨by omega, by omega⟩), there.2 i hi]

/-- A message with a signature is read, and the signature is found where it starts. -/
theorem SignedAs.message {t : Tsig} {id : UInt16} (h : r.SignedAs m record)
    (shows : r.Shows items) (written : r.HeaderWritten) (first : Holds m 0 (Wire.uint16 id))
    (signature : record.data = .tsig t) :
    ∃ message, Message.ofOctets m = .ok message ∧
      message.tsig? = some (record.owner, t, r.size) := by
  obtain ⟨c, plain, rfl, counts⟩ := shows.exists_contents
  obtain ⟨header, hold⟩ := written
  obtain ⟨-, flags, question, answer, authority, -⟩ := holds_header_iff.mp hold
  -- The header of the signed message: the identifier may be another, the number of additional
  -- records is one more, and all between them is as it was.
  have wire : Holds m 0 (HeaderSection.wire
      ⟨⟨id, header.flags⟩, { r.counts with additional := r.counts.additional + 1 }⟩) := by
    refine holds_header_iff.mpr ⟨first, ?_, ?_, ?_, ?_, h.count⟩
    · exact h.holds flags (by omega) (by simp)
    · exact h.holds question (by omega) (by simp)
    · exact h.holds answer (by omega) (by simp)
    · exact h.holds authority (by omega) (by simp)
  have keeps : Keeps behindHeader r.draft.octets m :=
    ⟨h.size, fun i hi behind => h.kept i hi (.inr behind)⟩
  have old : r.counts.additional.toNat = c.additional.length := counts .additional
  have more : (r.counts.additional + 1).toNat = c.additional.length + 1 := by
    rw [h.one_more, old]
  have last : Message.readRecords .additional 1 ⟨c.additional.reverse, none⟩ m r.size
      = .ok ⟨record :: c.additional.reverse, some r.size⟩ m.size := by
    simp only [Message.readRecords, Option.isSome_none, Bool.false_eq_true, if_false,
      h.record m (.refl _ _), Message.Progress.note, signature]
    rfl
  refine ⟨_, Message.ofOctets_of_chain wire plain keeps shows.chain (counts .question)
    (counts .answer) (counts .authority) more last, ?_⟩
  simp [Message.tsig?, signature]

/-- The message without its signature is the message before it was signed, but for the
identifier. -/
theorem SignedAs.unsigned (h : r.SignedAs m record) (shows : r.Shows items)
    (written : r.HeaderWritten) : unsignedMessage m.toList r.size
      = .ok (m.toList.take 2 ++ r.octets.toList.drop 2) := by
  obtain ⟨header, hold⟩ := written
  obtain ⟨-, -, -, -, -, additional⟩ := holds_header_iff.mp hold
  have large : 12 ≤ r.octets.size := shows.size
  have size := h.size
  have count : Octets.toNat ((m.toList.drop 10).take 2) = r.counts.additional.toNat + 1 := by
    rw [h.count.take_drop (Octets.length_ofNat 2 _), Wire.uint16, Octets.toNat_ofNat, h.one_more]
    exact Nat.mod_eq_of_lt (Nat.succ_lt_succ h.room)
  have number : Octets.ofNat 2 r.counts.additional.toNat = (r.octets.toList.drop 10).take 2 :=
    (additional.take_drop (Octets.length_ofNat 2 _)).symm
  -- Both messages are taken apart at the number of additional records, which is compared alone.
  have front : (m.toList.drop 2).take 8 = (r.octets.toList.drop 2).take 8 :=
    take_drop_congr fun i hi => h.kept i (by omega) (.inl (by omega))
  have back : (m.toList.take r.size).drop 12 = r.octets.toList.drop 12 := by
    have kept : (m.toList.drop 12).take (r.size - 12)
        = (r.octets.toList.drop 12).take (r.size - 12) :=
      take_drop_congr fun i hi => h.kept i (by show i < r.size; omega) (.inr hi.1)
    rw [List.drop_take, kept, List.take_of_length_le]
    rw [List.length_drop, Array.length_toList]
    exact Nat.le_refl _
  -- What remains is to put the pieces together again.
  have head : m.toList.take 10 = m.toList.take 2 ++ (m.toList.drop 2).take 8 :=
    List.take_add (i := 2) (j := 8)
  have tail : (r.octets.toList.drop 2).take 8 ++ ((r.octets.toList.drop 10).take 2 ++
      r.octets.toList.drop 12) = r.octets.toList.drop 2 := by
    rw [show r.octets.toList.drop 12 = (r.octets.toList.drop 10).drop 2 by simp,
      List.take_append_drop, show r.octets.toList.drop 10 = (r.octets.toList.drop 2).drop 8 by simp,
      List.take_append_drop]
  have inside : ¬(r.size < HeaderSection.length ∨ m.toList.length < r.size) := by
    rw [Array.length_toList]
    exact not_or_intro (Nat.not_lt.mpr large) (Nat.not_lt.mpr size)
  have some : ¬r.counts.additional.toNat + 1 = 0 := Nat.succ_ne_zero _
  rw [unsignedMessage, if_neg inside]
  simp only [HeaderSection.additionalCountOffset, HeaderSection.length, count, some, if_false,
    Nat.add_sub_cancel, number, back, head, front]
  rw [List.append_assoc, List.append_assoc, tail]

theorem addTsigRecord_identifier {owner : Name} {t : Tsig}
    (run : r.addTsigRecord owner t = (.ok (), r')) {i : Nat} (hi : i < 2)
    (inside : i < r.octets.size) : r'.octets[i]? = r.octets[i]? := by
  obtain ⟨r₁, added, rfl⟩ := addTsigRecord_ok run
  have kept := add_keeps (composeTsig_built owner t _ _) added
  rw [← kept.2 i inside trivial]
  exact getElem?_overwrite _ (.inl (Nat.lt_of_lt_of_le hi (by decide)))

/-- Signing leaves the identifier alone. -/
theorem addTsig_identifier {Context : Type} {s : Signer Context} {algorithm : Name}
    (run : r.addTsig s algorithm = (.ok (), r')) {i : Nat} (hi : i < 2)
    (inside : i < r.octets.size) : r'.octets[i]? = r.octets[i]? := by
  obtain ⟨draft, t, -, -, run⟩ := addTsig_ok run
  exact addTsigRecord_identifier run hi inside

end Renderer

theorem drop_two_append {m : Array UInt8} {id : UInt16} (rest : Octets)
    (first : Holds m 0 (Wire.uint16 id)) : (m.toList.take 2 ++ rest).drop 2 = rest := by
  have two := Wire.length_uint16 id
  have inside := first.1
  refine List.drop_left' ?_
  rw [List.length_take, Array.length_toList]
  omega

/-! ## Octets under a signature

Here is what both sides compute. The receiver has a signature with another spelling of the names,
and these lemmas say that it makes no difference. The keyed hash is a parameter throughout, of which
nothing is known but the length of its answer. What is shown is that it is applied to the same
octets, and that is enough for the answers to be the same. -/

theorem Algorithm.macLength_lt (a : Algorithm) : a.macLength < 65536 := by
  cases a <;> decide

theorem Time48.within_iff {now t : Time48} {fudge : Nat} : now.within t fudge = true ↔
    ((now.seconds.toNat : Int) - t.seconds.toNat).natAbs ≤ fudge := by
  simp only [within, Bool.and_eq_true, decide_eq_true_eq]
  omega

namespace Key

variable {k : Key} {macs : MacFunction} {message message' : Octets} {t : Tsig}
  {requestMac : Option Octets}

/-- What is signed depends neither on the identifier in front of the message nor on the letter
case of the algorithm. -/
theorem firstInput_congr {algorithm : Name} (equal : (algorithm == t.algorithm) = true)
    (same : message'.drop 2 = message.drop 2) :
    k.firstInput message' { t with algorithm } requestMac = k.firstInput message t requestMac := by
  have input : messageInput message' { t with algorithm } = messageInput message t := by
    rw [messageInput, messageInput, same]
  simp only [firstInput, input, Name.canonicalOctets_congr equal]
  rfl

theorem macOf_congr {algorithm : Name} {c : SigningContext} {first : Bool}
    (equal : (algorithm == t.algorithm) = true) (same : message'.drop 2 = message.drop 2) :
    k.macOf macs c message' { t with algorithm } requestMac first
      = k.macOf macs c message t requestMac first := by
  cases first with
  | true => simp only [macOf, input, if_true, firstInput_congr equal same]
  | false => simp only [macOf, input, Bool.false_eq_true, if_false, laterInput, messageInput, same,
      timesInput]

theorem withMac_ok {octets : Octets} {t' : Tsig} (h : withMac t octets = .ok t') :
    t'.mac.octets = octets ∧ t' = { t with mac := t'.mac } := by
  unfold withMac Data.ofOctets at h
  split at h
  · rename_i mac short
    cases h
    split at short
    · cases short
      exact ⟨rfl, rfl⟩
    · cases short
  · cases h

/-- A record that was completed has the signature of the message in it, and is the draft
otherwise. -/
theorem sign_ok {draft : Tsig} {time : Time48}
    (h : k.sign macs message draft time requestMac = .ok t) :
    k.macOf macs k.context message t requestMac true = .ok t.mac.octets ∧
      t = { draft with time, mac := t.mac } := by
  obtain ⟨octets, signed, h⟩ := bind_eq_ok h
  obtain ⟨rfl, parts⟩ := withMac_ok h
  refine ⟨?_, parts⟩
  -- The signature itself is no part of what is signed.
  rw [parts]
  exact signed

/-- There is something to be signed if the signature of the request can be counted. -/
theorem exists_input (k : Key) (message : Octets) (absolute : t.algorithm.absolute = true)
    (request : ∀ mac, requestMac = some mac → mac.length < 65536) (first : Bool) :
    ∃ octets, k.input message t requestMac first = .ok octets := by
  cases first with
  | false => exact ⟨_, rfl⟩
  | true =>
    have counted : ∃ octets, requestInput requestMac = .ok octets := by
      cases requestMac with
      | none => exact ⟨_, rfl⟩
      | some mac => exact ⟨_, if_pos (request mac rfl)⟩
    obtain ⟨octets, counted⟩ := counted
    have names : ∀ n : Name, n.absolute = true → ∃ octets,
        (n.compose false none true).octets = .ok octets := fun n h =>
      ⟨_, (Name.canonicalOctets_eq n).trans (if_pos h)⟩
    obtain ⟨name, named⟩ := names k.name k.absolute
    obtain ⟨algorithm, spelled⟩ := names t.algorithm absolute
    simp only [input, if_true, firstInput, counted, named, spelled]
    exact ⟨_, rfl⟩

/-- A context whose hash is long enough gives a signature of the length of the key. -/
theorem exists_macOf {c : SigningContext} {first : Bool} (k : Key) (macs : MacFunction)
    (enough : k.macLength ≤ c.hash.length)
    (given : ∃ octets, k.input message t requestMac first = .ok octets) :
    ∃ mac : Data, mac.octets.length = k.macLength ∧
      k.macOf macs c message t requestMac first = .ok mac.octets := by
  obtain ⟨octets, given⟩ := given
  have length : (((c.feed octets).result macs).take k.macLength).length = k.macLength := by
    rw [List.length_take, SigningContext.result, macs.length_mac]
    exact Nat.min_eq_left enough
  have small : k.macLength < 65536 := k.algorithm.macLength_lt
  refine ⟨⟨_, length.symm ▸ small⟩, length, ?_⟩
  simp only [macOf, given]
  exact if_pos enough

theorem withMac_data (t : Tsig) (mac : Data) : withMac t mac.octets = .ok { t with mac } := by
  rw [withMac, Data.ofOctets, dif_pos mac.short]

/-- A key signs whatever it is given, if the signature of the request can be counted. -/
theorem exists_sign (k : Key) (macs : MacFunction) (message : Octets) {draft : Tsig}
    (absolute : draft.algorithm.absolute = true)
    (request : ∀ mac, requestMac = some mac → mac.length < 65536) (time : Time48) :
    ∃ mac : Data, mac.octets.length = k.macLength ∧
      k.sign macs message draft time requestMac = .ok { draft with time, mac } := by
  obtain ⟨mac, length, signed⟩ := k.exists_macOf (c := k.context) macs k.algorithm.macLength_le
    (k.exists_input (t := { draft with time }) message absolute request true)
  refine ⟨mac, length, ?_⟩
  rw [sign, signed]
  exact withMac_data _ mac

/-- A record with the signature of a message is accepted at the right time. -/
theorem validate_of_macOf {octets unsigned : Octets} {owner : Name} {now : Time48} {start : Nat}
    {c : Option SigningContext} (cut : unsignedMessage octets start = .ok unsigned)
    (noError : t.error = TsigRcode.noError) (name : (owner == k.name) = true)
    (algorithm : (t.algorithm == k.algorithmName) = true)
    (mac : k.macOf macs k.context unsigned t requestMac true = .ok t.mac.octets) :
    k.validate macs octets owner t now requestMac start c false
      = if t.isValidAt now then .ok none else .error .badTime := by
  have report : ValidationError.ofReport? t.error = none := by
    rw [noError]
    rfl
  cases inTime : t.isValidAt now with
  | false => simp [validate, cut, objection?, report, inTime]
  | true => simp [validate, cut, objection?, report, inTime, name, algorithm, mac]

end Key

/-! ## Signing and checking

First what a key puts into its record, then that there is room for it, and last the theorem. Records
among the questions are excluded by a condition, for the renderer lets them pass and the parser does
not; `signed_among_questions_rejected` is a message for which the condition is not met. -/

/-- An absolute name is found as itself. -/
theorem Name.Found.beq_of_absolute {n found : Name} {origin : Option Name}
    (h : n.Found origin found) (absolute : n.absolute = true) : (found == n) = true := by
  obtain ⟨full, completed, equal⟩ := h
  rw [absoluteName_of_absolute absolute] at completed
  cases completed
  exact equal

theorem Algorithm.name_absolute (a : Algorithm) : a.name.absolute = true := by
  cases a <;> rfl

/-- A record by a key is found with the names of the key. -/
theorem Renderer.addTsigRecord_named {k : Key} {r r' : Renderer} {items : List (Section × Item)}
    {m : Array UInt8} {t : Tsig} (shows : r.Shows items) (time : t.time.seconds ≤ Time48.max)
    (names : t.algorithm = k.algorithmName) (added : r.addTsigRecord k.name t = (.ok (), r'))
    (size : m.size = r'.octets.size) (same : ∀ i, 2 ≤ i → m[i]? = r'.octets[i]?) :
    r'.mac = t.mac.octets ∧ ∃ owner algorithm,
      r.SignedAs m ⟨owner, Class.any, 0, .tsig { t with algorithm }⟩ ∧
      (owner == k.name) = true ∧ (algorithm == t.algorithm) = true := by
  obtain ⟨sameMac, owner, algorithm, ho, ha, signedAs⟩ :=
    addTsigRecord_signedAs shows time added size same
  refine ⟨sameMac, owner, algorithm, signedAs, ho.beq_of_absolute k.absolute,
    ha.beq_of_absolute ?_⟩
  rw [names]
  exact k.algorithm.name_absolute

/-- The record that ends a signed message says what the signer said, and has the signature of
whatever differs from the message in the identifier only. -/
theorem Renderer.addTsig_signedAs {k : Key} {macs : MacFunction} {r r' : Renderer}
    {items : List (Section × Item)} {m : Array UInt8} {fudge originalId : UInt16}
    {other : Octets} {requestMac : Option Octets} (shows : r.Shows items)
    (time : r.time.seconds ≤ Time48.max)
    (signed : r.addTsig ⟨k.signing macs, k.name, fudge, originalId, TsigRcode.noError, other,
      requestMac⟩ k.algorithmName = (.ok (), r'))
    (size : m.size = r'.octets.size) (same : ∀ i, 2 ≤ i → m[i]? = r'.octets[i]?) :
    ∃ owner t, r.SignedAs m ⟨owner, Class.any, 0, .tsig t⟩ ∧ (owner == k.name) = true ∧
      (t.algorithm == k.algorithmName) = true ∧ t.error = TsigRcode.noError ∧
      t.time = r.time ∧ t.fudge = fudge ∧ r'.mac = t.mac.octets ∧
      ∀ message : Octets, message.drop 2 = r.octets.toList.drop 2 →
        k.macOf macs k.context message t requestMac true = .ok t.mac.octets := by
  obtain ⟨draft, t, drafted, completed, added⟩ := addTsig_ok signed
  obtain ⟨data, -, last⟩ := bind_eq_ok drafted
  cases last
  -- The names, the time and the signature are those of the completed draft, and the rest is as the
  -- signer gave it.
  obtain ⟨mac, parts⟩ := Key.sign_ok completed
  have signedAt : t.time = r.time := by rw [parts]
  have names : t.algorithm = k.algorithmName := by rw [parts]
  obtain ⟨sameMac, owner, algorithm, signedAs, owned, equal⟩ :=
    addTsigRecord_named shows (by rw [signedAt]; exact time) names added size same
  refine ⟨owner, _, signedAs, owned, names ▸ equal, ?_, signedAt, ?_, sameMac, ?_⟩
  · show t.error = _
    rw [parts]
  · show t.fudge = _
    rw [parts]
  · intro message content
    exact (Key.macOf_congr equal content).trans mac

theorem Signer.draft_of_short {Context : Type} (s : Signer Context) (algorithm : Name)
    (short : s.other.length < 65536) : s.draft algorithm
      = .ok ⟨algorithm, ⟨0⟩, s.fudge, Data.empty, s.originalId, s.error, ⟨s.other, short⟩⟩ := by
  simp only [Signer.draft, Data.ofOctets, short, dif_pos]
  rfl

/-- The record of a key fits if the room that is reserved for it is there. -/
theorem Renderer.exists_addTsigRecord_of_key {r : Renderer} (k : Key) {t : Tsig}
    (algorithm : t.algorithm = k.algorithmName) (length : t.mac.octets.length = k.macLength)
    (rootless : r.draft.Rootless)
    (room : r.size + k.reserveLength + t.other.octets.length ≤ r.maxSize)
    (few : r.counts.additional.toNat < 65535)
    (short : k.algorithmName.wireLength + 16 + k.macLength + t.other.octets.length < 65536) :
    ∃ r', r.addTsigRecord k.name t = (.ok (), r') := by
  have size : t.room = k.algorithmName.wireLength + 16 + k.macLength + t.other.octets.length := by
    rw [Tsig.room, length, algorithm]
  have absolute : t.algorithm.absolute = true := by
    rw [algorithm]
    exact k.algorithm.name_absolute
  refine exists_addTsigRecord k.absolute absolute (by omega) rootless ?_ few
  rw [size]
  simp only [Key.reserveLength] at room
  omega

/-- Signing succeeds if the record has the room that is reserved for it, and can be counted. -/
theorem Renderer.exists_addTsig {r : Renderer} (k : Key) (macs : MacFunction)
    (fudge originalId : UInt16) (error : TsigRcode) (other : Octets) (requestMac : Option Octets)
    (rootless : r.draft.Rootless) (room : r.size + k.reserveLength + other.length ≤ r.maxSize)
    (few : r.counts.additional.toNat < 65535)
    (short : k.algorithmName.wireLength + 16 + k.macLength + other.length < 65536)
    (request : ∀ mac, requestMac = some mac → mac.length < 65536) :
    ∃ r', r.addTsig ⟨k.signing macs, k.name, fudge, originalId, error, other, requestMac⟩
      k.algorithmName = (.ok (), r') := by
  have counted : other.length < 65536 := by omega
  let draft : Tsig :=
    ⟨k.algorithmName, ⟨0⟩, fudge, Data.empty, originalId, error, ⟨other, counted⟩⟩
  have drafted : Signer.draft ⟨k.signing macs, k.name, fudge, originalId, error, other, requestMac⟩
      k.algorithmName = .ok draft := Signer.draft_of_short _ _ counted
  obtain ⟨mac, length, signed⟩ := k.exists_sign macs r.octets.toList
    (show draft.algorithm.absolute = true from k.algorithm.name_absolute) request r.time
  obtain ⟨r', added⟩ := exists_addTsigRecord_of_key k (t := { draft with time := r.time, mac })
    rfl length rootless room few short
  exact ⟨r', (addTsig_of_sign drafted signed).trans added⟩

/-- Whatever was done to a renderer: once the header is up to date and the message is signed, the
key that signed it accepts it at the right time and only then, under any identifier. The record
that is found says who signed the message and where it ends, and what stands before it is what was
signed. -/
theorem Key.validate_signed (k : Key) (macs : MacFunction) (id flags : UInt16) (maxSize : Nat)
    (origin : Option Name) (start : Time48) (before after : List Call) (fudge originalId : UInt16)
    (other : Octets) (requestMac : Option Octets) (r r' : Renderer)
    (documented : ∀ a ∈ Call.added before (.start id flags maxSize origin start),
      Addition.Documented a)
    (nothing : Call.added after
      (Call.run before (.start id flags maxSize origin start)).writeHeader = [])
    (rendered : r = Call.run after
      (Call.run before (.start id flags maxSize origin start)).writeHeader)
    (time : r.time.seconds ≤ Time48.max)
    (signed : r.addTsig ⟨k.signing macs, k.name, fudge, originalId, TsigRcode.noError, other,
      requestMac⟩ k.algorithmName = (.ok (), r')) :
    (∀ (newId : UInt16) (now : Time48) (c : Option SigningContext),
      k.validateMessage macs (Octets.overwrite r'.octets 0 (Wire.uint16 newId)) now requestMac c
          false
        = if ((now.seconds.toNat : Int) - r.time.seconds.toNat).natAbs ≤ fudge.toNat
          then .ok none else .error .badTime) ∧
    ∃ m owner t, Message.ofOctets r'.octets = .ok m ∧ m.tsig? = some (owner, t, r.size) ∧
      (owner == k.name) = true ∧ t.mac.octets = r'.mac ∧
      unsignedMessage r'.octets.toList r.size = .ok r.octets.toList := by
  obtain ⟨-, items, -, shows⟩ :=
    Call.run_shows before (Renderer.start_shows id flags maxSize origin start) documented
  obtain ⟨shows, written⟩ := Call.run_headerWritten after shows.writeHeader nothing
    (Renderer.writeHeader_headerWritten shows)
  rw [← rendered] at shows written
  have large : HeaderSection.length ≤ r.octets.size := shows.size
  -- The first half is for a message that has been given another identifier, the second one for the
  -- message as it was rendered.
  constructor
  · intro newId now c
    have two : (Wire.uint16 newId).length = 2 := Octets.length_ofNat 2 _
    obtain ⟨owner, t, signedAs, owned, algorithm, noError, signedAt, fudged, -, mac⟩ :=
      Renderer.addTsig_signedAs shows time signed (size_overwrite (Wire.uint16 newId) r'.octets 0)
        fun i hi => getElem?_overwrite _ (.inr (by rw [two]; exact hi))
    have room : 2 ≤ r'.octets.size := by
      rw [← size_overwrite (Wire.uint16 newId) r'.octets 0]
      exact Nat.le_trans (Nat.le_trans (by decide) large) signedAs.size
    have first : Holds (Octets.overwrite r'.octets 0 (Wire.uint16 newId)) 0 (Wire.uint16 newId) :=
      holds_overwrite _ (by rw [two]; exact room)
    -- What is left of the message without its record has the content that was signed.
    obtain ⟨message, read, found⟩ := signedAs.message shows written first rfl
    have content := drop_two_append (r.octets.toList.drop 2) first
    rw [validateMessage, read]
    simp only [found]
    rw [validate_of_macOf (signedAs.unsigned shows written) noError owned algorithm
      (mac _ content), Tsig.isValidAt, signedAt, fudged]
    simp only [Time48.within_iff]
  · obtain ⟨owner, t, signedAs, owned, -, -, -, -, mac, -⟩ :=
      Renderer.addTsig_signedAs shows time signed rfl fun _ _ => rfl
    obtain ⟨header, hold⟩ := written
    have first : Holds r.octets 0 (Wire.uint16 header.id) := (holds_header_iff.mp hold).1
    have two : (Wire.uint16 header.id).length = 2 := Octets.length_ofNat 2 _
    -- Signing has not touched the identifier.
    have first' : Holds r'.octets 0 (Wire.uint16 header.id) := by
      refine ⟨Nat.le_trans first.1 signedAs.size, fun i hi => ?_⟩
      have inside := first.1
      rw [Renderer.addTsig_identifier signed (by omega) (by omega), first.2 i hi]
    obtain ⟨m, read, found⟩ := signedAs.message shows ⟨header, hold⟩ first' rfl
    refine ⟨m, owner, t, read, found, owned, mac.symm, ?_⟩
    have identifier : r'.octets.toList.take 2 = r.octets.toList.take 2 :=
      (first'.take_drop two).trans (first.take_drop two).symm
    rw [signedAs.unsigned shows ⟨header, hold⟩, identifier, List.take_append_drop]

/-- A message with an answer, signed after its header was written. -/
theorem Key.validate_signed_answer :
    let k : Key := ⟨Name.root, .sha256, [1, 2, 3], rfl⟩
    let before : List Call := [.addRdataset .answer Name.root
      (.ofRdata Class.internet 60 (.a ⟨[192, 0, 2, 1], rfl⟩)) { canonical := true }]
    let after : List Call := [.enter .additional]
    let r := Call.run after (Call.run before (.start 1 0 512 none ⟨1000⟩)).writeHeader
    ∃ r', r.addTsig ⟨k.signing .hmac, k.name, 300, 1, TsigRcode.noError, [], none⟩ k.algorithmName
        = (.ok (), r') ∧
      (∀ (newId : UInt16) (now : Time48) (c : Option SigningContext),
        k.validateMessage .hmac (Octets.overwrite r'.octets 0 (Wire.uint16 newId)) now none c false
          = if ((now.seconds.toNat : Int) - r.time.seconds.toNat).natAbs ≤ 300
            then .ok none else .error .badTime) ∧
      ∃ m owner t, Message.ofOctets r'.octets = .ok m ∧ m.tsig? = some (owner, t, r.size) ∧
        (owner == k.name) = true ∧ t.mac.octets = r'.mac ∧
        unsignedMessage r'.octets.toList r.size = .ok r.octets.toList := by
  intro k before after r
  have rendered : r = { Renderer.start 1 0 512 none ⟨1000⟩ with
      part := .additional
      counts := { answer := 1 }
      draft := ⟨#[0, 1, 0, 0, 0, 0, 0, 1, 0, 0, 0, 0,
        0, 0, 1, 0, 1, 0, 0, 0, 60, 0, 4, 192, 0, 2, 1], CompressionTable.empty⟩ } := by
    simp only [r, before, after, Call.run, List.foldl, Call.perform, Renderer.addRdataset,
      Renderer.add, Rdataset.compose_ofRdata]
    rfl
  have documented : ∀ a ∈ Call.added before (.start 1 0 512 none ⟨1000⟩),
      Addition.Documented a := by
    intro a mem
    simp only [before, Call.added, Call.entries, Call.recordsOf, Rdataset.records_ofRdata] at mem
    split at mem
    · cases List.mem_singleton.mp mem
      exact ⟨by decide, trivial⟩
    · cases mem
  have nothing : Call.added after (Call.run before (.start 1 0 512 none ⟨1000⟩)).writeHeader
      = [] := by
    simp only [after, Call.added, Call.entries]
    split <;> rfl
  obtain ⟨r', signed⟩ := Renderer.exists_addTsig (r := r) k .hmac 300 1 TsigRcode.noError [] none
    (by rw [rendered]; exact Draft.rootless_of_empty _) (by rw [rendered]; decide)
    (by rw [rendered]; decide) (by decide) (fun mac h => by cases h)
  exact ⟨r', signed, validate_signed k .hmac 1 0 512 none ⟨1000⟩ before after 300 1 [] none r r'
    documented nothing rfl (by rw [rendered]; decide) signed⟩

/-- A record among the questions can be signed, but who receives the message cannot read it. -/
theorem Key.signed_among_questions_rejected :
    let k : Key := ⟨Name.root, .sha1, [], rfl⟩
    let macs : MacFunction :=
      ⟨fun hash _ _ => List.replicate hash.length 0, fun _ _ _ => List.length_replicate⟩
    let before : List Call := [.addRdataset .question Name.root
      (.ofRdata Class.internet 60 (.a ⟨[192, 0, 2, 1], rfl⟩)) { canonical := true }]
    let r := (Call.run before (.start 1 0 512 none ⟨0⟩)).writeHeader
    RecordData.Documented (.a ⟨[192, 0, 2, 1], rfl⟩) ∧
    ∃ r', r.addTsig ⟨k.signing macs, k.name, 300, 1, TsigRcode.noError, [], none⟩ k.algorithmName
        = (.ok (), r') ∧
      k.validateMessage macs (Octets.overwrite r'.octets 0 (Wire.uint16 1)) ⟨0⟩ none none false
        = .error (.parse .shortInput) := by
  intro k macs before r
  have rendered : r = { Renderer.start 1 0 512 none ⟨0⟩ with
      counts := { question := 1 }
      draft := ⟨#[0, 1, 0, 0, 0, 1, 0, 0, 0, 0, 0, 0,
        0, 0, 1, 0, 1, 0, 0, 0, 60, 0, 4, 192, 0, 2, 1], CompressionTable.empty⟩ } := by
    simp only [r, before, Call.run, List.foldl, Call.perform, Renderer.addRdataset,
      Renderer.add, Rdataset.compose_ofRdata]
    rfl
  have signed : k.sign macs [0, 1, 0, 0, 0, 1, 0, 0, 0, 0, 0, 0,
        0, 0, 1, 0, 1, 0, 0, 0, 60, 0, 4, 192, 0, 2, 1]
      ⟨k.algorithmName, ⟨0⟩, 300, Data.empty, 1, TsigRcode.noError, Data.empty⟩ ⟨0⟩ none
      = .ok ⟨k.algorithmName, ⟨0⟩, 300, Data.zeros 20, 1, TsigRcode.noError, Data.empty⟩ := rfl
  have composed : Renderer.composeTsig Name.root
      ⟨k.algorithmName, ⟨0⟩, 300, Data.zeros 20, 1, TsigRcode.noError, Data.empty⟩ true none
      ⟨#[0, 1, 0, 0, 0, 1, 0, 0, 0, 0, 0, 0,
        0, 0, 1, 0, 1, 0, 0, 0, 60, 0, 4, 192, 0, 2, 1], CompressionTable.empty⟩
      = .ok 1 ⟨#[0, 1, 0, 0, 0, 1, 0, 0, 0, 0, 0, 0,
        0, 0, 1, 0, 1, 0, 0, 0, 60, 0, 4, 192, 0, 2, 1,
        0, 0, 250, 0, 255, 0, 0, 0, 0, 0, 47, 9, 104, 109, 97, 99, 45, 115, 104, 97, 49, 0,
        0, 0, 0, 0, 0, 0, 1, 44, 0, 20, 0, 0, 0, 0, 0, 0, 0, 0, 0, 0, 0, 0, 0, 0, 0, 0, 0, 0, 0, 0,
        0, 1, 0, 0, 0, 0], CompressionTable.empty⟩ := by
    rw [Renderer.composeTsig]
    simp only [Bind.bind, EStateM.bind, Name.compose_root (Draft.rootless_of_empty _)]
    cbv
  rw [rendered]
  refine ⟨trivial, _, (Renderer.addTsig_of_sign rfl signed).trans
    (Renderer.addTsigRecord_of_fits composed (by decide) (by decide)), ?_⟩
  cbv

end Dns
