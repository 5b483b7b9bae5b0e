import Dns.Proofs.Contents

/-!
# What a message was read from

The other direction of `Message.ofOctets_of_chain`: if a message can be read, its entries stand one
after the other behind the header (`Item.Row`), as many in every section as the header says, and
what follows them is nothing or a signature (`Message.Ending`).

A row is read from one message only, where an `Item.Chain` is read from every message that goes on
from the same octets. So a row follows from reading alone, and it is the subject of other lemmas
what else may be said of the octets that it was read from.

`Message.ofOctets_ok` is the inversion lemma of the whole parser. It gives `Message.ReadFrom`, which
has a field for each thing that an accepted message is known to fulfil. All that is proved of
accepted messages elsewhere starts from there, and the loops of the parser are not looked at again:
that they can be rendered again (`Dns.Proofs.Rerendered`), that their octets are covered without a
gap (`Dns.Proofs.Coverage`), what a signature in them is over (`Dns.Proofs.Footprints`), and what
their data look like (`Dns.Proofs.ReadData`).

The same is done for each part in turn. `Reader.bind_ok` takes a reader apart at its first step;
`Spans` says which octets a field took up; `RecordData.ReadFrom` tells, for each form of data, the
fields that it was read from; and `Question.read_ok` and `Record.read_ok` give the places between
the fields as numbers.
-/

set_option autoImplicit false

namespace Dns

/-! ## Parts of a reader that succeeded -/

namespace Reader

variable {α β : Type} {m : Array UInt8} {p q : Nat} {b : β}

theorem bind_ok {read : Reader α} {k : α → Reader β} (h : (read >>= k) m p = .ok b q) :
    ∃ a s, read m p = .ok a s ∧ k a m s = .ok b q := by
  rw [bind_apply] at h
  split at h
  · rename_i a s first
    exact ⟨a, s, first, h⟩
  · cases h

theorem map_ok {read : Reader α} {f : α → β} (h : (f <$> read) m p = .ok b q) :
    ∃ a, read m p = .ok a q ∧ f a = b := by
  obtain ⟨a, s, first, last⟩ := bind_ok (k := fun a => pure (f a)) h
  cases last
  exact ⟨a, first, rfl⟩

end Reader

/-! ## Fields that were read

A field that was read stands in the message in the form in which it would be composed. The one
exception is a name, which may have been read from anywhere, so that a reader with names in it does
not spell anything (`Reader.Spells`). Most fields say which octets they were made of and where these
end, and a range of the message that holds them is what `Spans` is. -/

/-- Octets stand in a message from a place to another. -/
structure Spans (m : Array UInt8) (p : Nat) (o : Octets) (q : Nat) : Prop where
  holds : Holds m p o
  stop : q = p + o.length

theorem Spans.append {m : Array UInt8} {p q s : Nat} {a b : Octets} (h : Spans m p a q)
    (g : Spans m q b s) : Spans m p (a ++ b) s := by
  obtain ⟨ha, rfl⟩ := h
  obtain ⟨hb, rfl⟩ := g
  exact ⟨holds_append.mpr ⟨ha, hb⟩, by rw [List.length_append, Nat.add_assoc]⟩

theorem Spans.inside {m : Array UInt8} {p q : Nat} {o : Octets} (h : Spans m p o q) :
    q ≤ m.size := by
  rw [h.stop]
  exact h.holds.1

theorem spans_extract {m : Array UInt8} {p n : Nat} (inside : p + n ≤ m.size) :
    Spans m p (m.extract p (p + n)).toList (p + n) := by
  have length : (m.extract p (p + n)).toList.length = n := by
    rw [Array.length_toList, Array.size_extract]
    omega
  refine ⟨⟨by rw [length]; exact inside, fun i hi => ?_⟩, by rw [length]⟩
  rw [← List.getElem?_eq_getElem hi, Array.getElem?_toList, Array.getElem?_extract,
    if_pos (by omega)]

/-- Whatever the reader finds, it was read from its octets. -/
def Reader.Spells {α : Type} (read : Reader α) (wire : α → Octets) : Prop :=
  ∀ {m : Array UInt8} {p q : Nat} {a : α}, read m p = .ok a q → Spans m p (wire a) q

section Fields

variable {m : Array UInt8} {p q : Nat}

theorem take_ok {count : Nat} {o : Octets} (h : Reader.take count m p = .ok o q) :
    o.length = count ∧ Spans m p o q := by
  rw [Reader.take] at h
  split at h
  · rename_i inside
    cases h
    have spans := spans_extract inside
    exact ⟨Nat.add_left_cancel spans.stop.symm, spans⟩
  · cases h

theorem number_ok {width n : Nat} (h : Reader.number width m p = .ok n q) :
    n < Nat.pow 256 width ∧ Spans m p (Octets.ofNat width n) q := by
  obtain ⟨o, s, taken, last⟩ := Reader.bind_ok h
  cases last
  obtain ⟨rfl, spans⟩ := take_ok taken
  exact ⟨Octets.toNat_lt o, by rwa [Octets.ofNat_toNat]⟩

theorem uint16_spells : Reader.uint16.Spells Wire.uint16 := by
  intro m p q a h
  obtain ⟨n, s, number, last⟩ := Reader.bind_ok h
  cases last
  obtain ⟨small, spans⟩ := number_ok number
  rwa [Wire.uint16, UInt16.toNat_ofNat', Nat.mod_eq_of_lt small]

theorem uint32_stop {a : UInt32} (h : Reader.uint32 m p = .ok a q) : q = p + 4 := by
  obtain ⟨n, s, number, last⟩ := Reader.bind_ok h
  cases last
  exact (number_ok number).2.stop

theorem registered_ok {α : Type} [Registered α] {c : α} (h : Registered.read m p = .ok c q) :
    q = p + Registered.width α ∧ q ≤ m.size := by
  obtain ⟨n, s, number, last⟩ := Reader.bind_ok h
  cases last
  have spans := (number_ok number).2
  exact ⟨by rw [spans.stop, Octets.length_ofNat], spans.inside⟩

theorem spans_octet {b : UInt8} (here : m[p]? = some b) : Spans m p [b] (p + 1) := by
  obtain ⟨inside, -⟩ := Array.getElem?_eq_some_iff.mp here
  refine ⟨⟨inside, fun i hi => ?_⟩, rfl⟩
  obtain rfl : i = 0 := Nat.lt_one_iff.mp hi
  exact here

/-- Octets behind their number in one octet. -/
theorem spans_counted {n : UInt8} (first : m[p]? = some n) (inside : p + 1 + n.toNat ≤ m.size) :
    Spans m p (UInt8.ofNat (m.extract (p + 1) (p + 1 + n.toNat)).toList.length
      :: (m.extract (p + 1) (p + 1 + n.toNat)).toList) (p + 1 + n.toNat) := by
  have content := spans_extract inside
  rw [← Nat.add_left_cancel content.stop, UInt8.ofNat_toNat]
  exact (spans_octet first).append content

theorem charString_spells : CharString.read.Spells CharString.wire := by
  intro m p q a h
  simp only [CharString.read] at h
  split at h
  · cases h
  · rename_i n first
    split at h
    · rename_i inside
      cases h
      exact spans_counted first inside
    · cases h

theorem data_spells : Data.read.Spells Data.wire := by
  intro m p q a h
  obtain ⟨n, s, number, h⟩ := Reader.bind_ok h
  have front := uint16_spells number
  simp only [Data.readExactly] at h
  split at h
  · rename_i inside
    cases h
    have content := spans_extract inside
    rw [Data.wire, ← Nat.add_left_cancel content.stop]
    exact front.append content
  · cases h

theorem exactly_ok {α : Type} {count : Nat} {make : (o : Octets) → o.length = count → α} {a : α}
    (h : Reader.exactly count make m p = .ok a q) :
    ∃ o length, a = make o length ∧ Spans m p o q := by
  rw [Reader.exactly] at h
  split at h
  · rename_i inside
    cases h
    exact ⟨_, _, rfl, spans_extract inside⟩
  · cases h

theorem header_spells : HeaderSection.read.Spells HeaderSection.wire := by
  intro m p q a h
  obtain ⟨header, s, first, h⟩ := Reader.bind_ok h
  obtain ⟨counts, t, second, last⟩ := Reader.bind_ok h
  cases last
  obtain ⟨id, _, read₁, first⟩ := Reader.bind_ok first
  obtain ⟨flags, _, read₂, last⟩ := Reader.bind_ok first
  cases last
  obtain ⟨question, _, read₃, second⟩ := Reader.bind_ok second
  obtain ⟨answer, _, read₄, second⟩ := Reader.bind_ok second
  obtain ⟨authority, _, read₅, second⟩ := Reader.bind_ok second
  obtain ⟨additional, _, read₆, last⟩ := Reader.bind_ok second
  cases last
  exact ((uint16_spells read₁).append (uint16_spells read₂)).append
    ((((uint16_spells read₃).append (uint16_spells read₄)).append
      (uint16_spells read₅)).append (uint16_spells read₆))

end Fields

/-! ## Entries that were read

Each lemma here is the inversion of one reader. In what is read of a record, only the end of the
owner is unknown; from there on every place is a number. It says what the entry is made of and where
its parts stand, so that nobody after it has to look into a reader that succeeded. -/

section Entries

variable {m : Array UInt8} {p q : Nat}

/-- Data that were read have just the length that is stated. -/
theorem RecordData.read_ok {rtype : Rtype} {length : Nat} {d : RecordData}
    (h : RecordData.read rtype length m p = .ok d q) :
    readForm rtype length m p = .ok d q ∧ q = p + length ∧ length ≤ m.size - p := by
  simp only [RecordData.read] at h
  split at h
  · cases h
  · rename_i enough
    split at h
    · cases h
    · rename_i d' reached found
      split at h
      · rename_i whole
        cases h
        exact ⟨found, whole, Nat.le_of_not_lt enough⟩
      · cases h

/-- The fields that data were read from, by the form that they have. -/
def RecordData.ReadFrom (m : Array UInt8) (length p q : Nat) : RecordData → Prop
  | a address => Ipv4.read m p = .ok address q
  | ns name => Name.read m p = .ok name q
  | cname name => Name.read m p = .ok name q
  | soa s => readSoa m p = .ok s q
  | ptr name => Name.read m p = .ok name q
  | hinfo cpu os => ∃ s, CharString.read m p = .ok cpu s ∧ CharString.read m s = .ok os q
  | mx preference exchange =>
    ∃ s, Reader.uint16 m p = .ok preference s ∧ Name.read m s = .ok exchange q
  | txt first rest => Reader.itemsUntil CharString.read (p + length) m p = .ok (first :: rest) q
  | x25 address => CharString.read m p = .ok address q
  | aaaa address => Ipv6.read m p = .ok address q
  | opt options => Reader.itemsUntil EdnsOption.read (p + length) m p = .ok options q
  | nid preference nodeId =>
    ∃ s, Reader.uint16 m p = .ok preference s ∧ Reader.uint64 m s = .ok nodeId q
  | l32 preference locator =>
    ∃ s, Reader.uint16 m p = .ok preference s ∧ Ipv4.read m s = .ok locator q
  | l64 preference locator =>
    ∃ s, Reader.uint16 m p = .ok preference s ∧ Reader.uint64 m s = .ok locator q
  | lp preference name =>
    ∃ s, Reader.uint16 m p = .ok preference s ∧ Name.read m s = .ok name q
  | tsig t => Tsig.read m p = .ok t q
  | unknown _ octets => Reader.take length m p = .ok octets q

theorem RecordData.readKind_ok {kind : RdataKind} {length : Nat} {d : RecordData}
    (h : readKind length kind m p = .ok d q) : d.kind? = some kind ∧ d.ReadFrom m length p q := by
  -- Five forms of data are two fields one after the other.
  have two : ∀ {α β : Type} {f : α → β → RecordData} {first : Reader α} {second : Reader β},
      (do return f (← first) (← second) : Reader RecordData) m p = .ok d q →
        ∃ a b s, first m p = .ok a s ∧ second m s = .ok b q ∧ f a b = d := by
    intro α β f first second h
    obtain ⟨a, s, one, h⟩ := Reader.bind_ok h
    obtain ⟨b, t, other, last⟩ := Reader.bind_ok h
    cases last
    exact ⟨a, b, s, one, other, rfl⟩
  cases kind with
  | a | ns | cname | soa | ptr | x25 | aaaa | tsig =>
    obtain ⟨_, read, rfl⟩ := Reader.map_ok h
    exact ⟨rfl, read⟩
  | hinfo | mx | l32 | l64 | lp =>
    obtain ⟨_, _, s, one, other, rfl⟩ := two h
    exact ⟨rfl, s, one, other⟩
  | txt =>
    obtain ⟨_, _, here, h⟩ := Reader.bind_ok h
    cases here
    obtain ⟨strings, s, read, last⟩ := Reader.bind_ok h
    cases strings with
    | nil => cases last
    | cons first rest =>
      cases last
      exact ⟨rfl, read⟩
  | opt =>
    obtain ⟨_, _, here, h⟩ := Reader.bind_ok h
    cases here
    obtain ⟨options, s, read, last⟩ := Reader.bind_ok h
    cases last
    exact ⟨rfl, read⟩
  | nid =>
    simp only [readKind, readNodeId] at h
    split at h
    · cases h
    · obtain ⟨_, _, s, one, other, rfl⟩ := two h
      exact ⟨rfl, s, one, other⟩

/-- Data are read as those of the form that belongs to their type. -/
theorem RecordData.readForm_ok {rtype : Rtype} {length : Nat} {d : RecordData}
    (h : readForm rtype length m p = .ok d q) :
    d.kind? = RdataKind.ofRtype? rtype ∧ d.rtype = rtype ∧ d.ReadFrom m length p q := by
  cases known : RdataKind.ofRtype? rtype with
  | none =>
    simp only [readForm, known] at h
    obtain ⟨octets, taken, rfl⟩ := Reader.map_ok h
    exact ⟨rfl, rfl, taken⟩
  | some kind =>
    simp only [readForm, known] at h
    obtain ⟨same, source⟩ := readKind_ok h
    exact ⟨same, (rtype_eq_of_kind? same).trans (RdataKind.rtype_of_ofRtype? known), source⟩

/-- The parts of a question that was read. -/
theorem Question.read_ok {x : Question} (h : Question.read m p = .ok x q) :
    ∃ s, Name.read m p = .ok x.qname s ∧ Rtype.read m s = .ok x.qtype (s + 2) ∧
      Class.read m (s + 2) = .ok x.qclass q ∧ q = s + 4 ∧ q ≤ m.size := by
  obtain ⟨qname, s, name, h⟩ := Reader.bind_ok h
  obtain ⟨qtype, _, type, h⟩ := Reader.bind_ok h
  obtain ⟨qclass, _, ofClass, last⟩ := Reader.bind_ok h
  cases last
  obtain rfl := (registered_ok type).1
  exact ⟨s, name, type, ofClass, registered_ok ofClass⟩

/-- The parts of a record that was read. -/
theorem Record.read_ok {r : Record} (h : Record.read m p = .ok r q) :
    ∃ s rtype length, Name.read m p = .ok r.owner s ∧ Rtype.read m s = .ok rtype (s + 2) ∧
      Class.read m (s + 2) = .ok r.recordClass (s + 4) ∧
      Reader.uint32 m (s + 4) = .ok r.ttl (s + 8) ∧
      Reader.uint16 m (s + 8) = .ok length (s + 10) ∧
      RecordData.readForm rtype length.toNat m (s + 10) = .ok r.data q ∧
      q = s + 10 + length.toNat ∧ q ≤ m.size := by
  obtain ⟨owner, s, name, h⟩ := Reader.bind_ok h
  obtain ⟨rtype, _, type, h⟩ := Reader.bind_ok h
  obtain ⟨recordClass, _, ofClass, h⟩ := Reader.bind_ok h
  obtain ⟨ttl, _, time, h⟩ := Reader.bind_ok h
  obtain ⟨length, _, counted, h⟩ := Reader.bind_ok h
  obtain ⟨data, _, content, last⟩ := Reader.bind_ok h
  cases last
  obtain rfl := (registered_ok type).1
  obtain rfl := (registered_ok ofClass).1
  obtain rfl := uint32_stop time
  have spans := uint16_spells counted
  obtain rfl := spans.stop
  obtain ⟨form, stop, enough⟩ := RecordData.read_ok content
  have inside := spans.inside
  exact ⟨s, rtype, length, name, type, ofClass, time, counted, form, stop, by rw [stop]; omega⟩

end Entries

/-! ## Rows of items

From one place on there is one row only, as far as the sections are the same. Two different readings
of the same octets are therefore the same reading, of which one may go on further. A row has no
opinion on whether its items are allowed where they stand. What the parser asks of sections and of
signatures is said separately, of rows that it has accepted. -/

namespace Item

variable {m : Array UInt8} {p q : Nat}

/-- The item is read from a place of the message to another. -/
def ReadAt (m : Array UInt8) (item : Item) (p q : Nat) : Prop :=
  match item with
  | question x => Question.read m p = .ok x q
  | record x => Record.read m p = .ok x q

/-- Items are read from the message one after the other. -/
def Row (m : Array UInt8) : List (Section × Item) → (p q : Nat) → Prop
  | [], p, q => p = q
  | x :: rest, p, q => ∃ s, x.2.ReadAt m p s ∧ Row m rest s q

theorem row_append {a b : List (Section × Item)} :
    Row m (a ++ b) p q ↔ ∃ s, Row m a p s ∧ Row m b s q := by
  induction a generalizing p with
  | nil => exact ⟨fun h => ⟨p, rfl, h⟩, fun ⟨s, same, h⟩ => same ▸ h⟩
  | cons x rest ih =>
    constructor
    · rintro ⟨t, first, others⟩
      obtain ⟨s, ha, hb⟩ := ih.mp others
      exact ⟨s, ⟨t, first, ha⟩, hb⟩
    · rintro ⟨s, ⟨t, first, ha⟩, hb⟩
      exact ⟨t, first, ih.mpr ⟨s, ha, hb⟩⟩

theorem Row.exists_read {items : List (Section × Item)} (h : Row m items p q)
    {x : Section × Item} (mem : x ∈ items) : ∃ s t, x.2.ReadAt m s t := by
  induction items generalizing p with
  | nil => cases mem
  | cons y rest ih =>
    obtain ⟨s, first, others⟩ := h
    rcases List.mem_cons.mp mem with rfl | mem
    · exact ⟨p, s, first⟩
    · exact ih others mem

theorem ReadAt.inside {item : Item} (h : item.ReadAt m p q) : q ≤ m.size := by
  cases item with
  | question x =>
    obtain ⟨s, -, -, -, -, inside⟩ := Question.read_ok h
    exact inside
  | record r =>
    obtain ⟨s, rtype, length, -, -, -, -, -, -, -, inside⟩ := Record.read_ok h
    exact inside

theorem Row.inside {items : List (Section × Item)} (h : Row m items p q) (start : p ≤ m.size) :
    q ≤ m.size := by
  induction items generalizing p with
  | nil => exact h ▸ start
  | cons x rest ih =>
    obtain ⟨s, first, others⟩ := h
    exact ih others first.inside

/-- At one place, one item of a section is read. -/
theorem ReadAt.unique {x y : Section × Item} {q' : Nat} (hx : x.2.ReadAt m p q)
    (hy : y.2.ReadAt m p q') (fx : Fits x) (fy : Fits y) (same : x.1 = y.1) :
    x = y ∧ q = q' := by
  obtain ⟨part, a | a⟩ := x <;> obtain ⟨part', b | b⟩ := y <;> cases same
  · have both := hx.symm.trans hy
    cases both
    exact ⟨rfl, rfl⟩
  · exact absurd fx fy
  · exact absurd fy fx
  · have both := hx.symm.trans hy
    cases both
    exact ⟨rfl, rfl⟩

/-- From one place on, one row of items of given sections is read: a row of some of these sections
is the beginning of a row of all. -/
theorem Row.goes_on {xs ys : List (Section × Item)} {q' : Nat} (hx : Row m xs p q)
    (hy : Row m ys p q') (fx : ∀ x ∈ xs, Fits x) (fy : ∀ y ∈ ys, Fits y)
    (same : xs.map Prod.fst <+: ys.map Prod.fst) : ∃ rest, ys = xs ++ rest ∧ Row m rest q q' := by
  induction xs generalizing ys p with
  | nil =>
    cases hx
    exact ⟨ys, rfl, hy⟩
  | cons x xs ih =>
    obtain _ | ⟨y, ys⟩ := ys
    · exact absurd (List.prefix_nil.mp same) (List.cons_ne_nil _ _)
    · obtain ⟨part, parts⟩ := List.cons_prefix_cons.mp same
      obtain ⟨s, first, others⟩ := hx
      obtain ⟨s', first', others'⟩ := hy
      obtain ⟨fx, fxs⟩ := List.forall_mem_cons.mp fx
      obtain ⟨fy, fys⟩ := List.forall_mem_cons.mp fy
      obtain ⟨rfl, rfl⟩ := first.unique first' fx fy part
      obtain ⟨rest, rfl, row⟩ := ih others others' fxs fys parts
      exact ⟨rest, rfl, row⟩

end Item

/-! ## Sections

The loop over the records of a section notes where a signature starts, and refuses to go on behind
one. What the loop reads is a row without signatures and an ending that has at most one. -/

section Reading

variable {m : Array UInt8} {p q : Nat}

theorem itemsAfter_question_ok {count : Nat} {found questions : List Question}
    (h : Reader.itemsAfter Question.read count found m p = .ok questions q) :
    ∃ new, questions = found.reverse ++ new ∧ new.length = count ∧
      Item.Row m (questionItems new) p q := by
  induction count generalizing found p with
  | zero =>
    cases h
    exact ⟨[], by simp, rfl, rfl⟩
  | succ count ih =>
    simp only [Reader.itemsAfter] at h
    split at h
    · rename_i x s first
      obtain ⟨new, rfl, length, row⟩ := ih h
      exact ⟨x :: new, by simp, by rw [List.length_cons, length], s, first, row⟩
    · cases h

namespace Message

theorem Progress.note_ok {before after : Progress} {part : Section} {start : Nat} {r : Record}
    (h : before.note part start r = .ok after) :
    (r.data.kind? ≠ some .tsig ∧ after = ⟨r :: before.records, before.tsigStart⟩) ∨
      (part = .additional ∧ (∃ t, r.data = .tsig t) ∧
        after = ⟨r :: before.records, some start⟩) := by
  obtain ⟨owner, recordClass, ttl, data⟩ := r
  cases data with
  | tsig t =>
    simp only [note] at h
    split at h
    · rename_i additional
      cases h
      exact .inr ⟨additional, ⟨t, rfl⟩, rfl⟩
    · cases h
  | _ =>
    cases h
    exact .inl ⟨by simp [RecordData.kind?], rfl⟩

/-- Behind a signature, no record is read. -/
theorem readRecords_behind {part : Section} {count start : Nat} {found : List Record}
    {after : Progress} (h : readRecords part count ⟨found, some start⟩ m p = .ok after q) :
    count = 0 ∧ after = ⟨found, some start⟩ ∧ q = p := by
  cases count with
  | zero =>
    cases h
    exact ⟨rfl, rfl, rfl⟩
  | succ count =>
    simp only [readRecords, Option.isSome_some, if_true] at h
    cases h

/-- What may follow the contents of a message that end at a place: nothing, or a signature. -/
inductive Ending (m : Array UInt8) (stop q : Nat) : Option Nat → List Record → Prop
  | unsigned : q = stop → Ending m stop q none []
  | signed {r : Record} {t : Tsig} : r.data = .tsig t → Record.read m stop = .ok r q →
      Ending m stop q (some stop) [r]

theorem Ending.stop_eq {stop : Nat} {start : Option Nat} (h : Ending m stop q start []) :
    q = stop := by
  cases h
  assumption

theorem Ending.inside {stop : Nat} {start : Option Nat} {last : List Record}
    (h : Ending m stop q start last) (before : stop ≤ m.size) : q ≤ m.size := by
  cases h with
  | unsigned same => exact same ▸ before
  | signed _ read =>
    have whole : Item.ReadAt m (.record _) stop q := read
    exact whole.inside

/-- The records of a section are a row, behind which there may be a signature if the section is
the last one. -/
theorem readRecords_ok {part : Section} {count : Nat} {found : List Record} {after : Progress}
    (h : readRecords part count ⟨found, none⟩ m p = .ok after q) :
    ∃ records stop last, Unsigned records ∧ Item.Row m (recordItems part records) p stop ∧
      count = records.length + last.length ∧
      after.records.reverse = found.reverse ++ (records ++ last) ∧
      Ending m stop q after.tsigStart last ∧ (part ≠ .additional → last = []) := by
  induction count generalizing found p with
  | zero =>
    cases h
    exact ⟨[], _, [], by simp [Unsigned], rfl, rfl, by simp, .unsigned rfl, fun _ => rfl⟩
  | succ count ih =>
    simp only [readRecords, Option.isSome_none, Bool.false_eq_true, if_false] at h
    split at h
    · cases h
    · rename_i r s first
      split at h
      · cases h
      · rename_i next noted
        -- A record is noted as it is or as the signature. Behind the latter reading goes on for no
        -- record at all.
        rcases Progress.note_ok noted with ⟨plain, rfl⟩ | ⟨here, ⟨t, signature⟩, rfl⟩
        · obtain ⟨records, stop, last, others, row, length, all, ending, only⟩ := ih h
          refine ⟨r :: records, stop, last, List.forall_mem_cons.mpr ⟨plain, others⟩,
            ⟨s, first, row⟩, ?_, ?_, ending, only⟩
          · rw [List.length_cons, length]
            omega
          · rw [all]
            simp
        · obtain ⟨rfl, rfl, rfl⟩ := readRecords_behind h
          exact ⟨[], _, [r], by simp [Unsigned], rfl, rfl, by simp, .signed signature first,
            fun other => absurd here other⟩

end Message

end Reading

/-! ## Messages -/

/-- What a message was read from: behind its header there is a row of entries that ends at `stop`,
and behind that a signature or nothing. -/
structure Message.ReadFrom (message : Message) (m : Array UInt8) (c : Contents) (stop : Nat)
    (last : List Record) : Prop where
  octets : message.octets = m
  header : HeaderSection.read m 0 = .ok message.header HeaderSection.length
  contents : message.contents = { c with additional := c.additional ++ last }
  plain : c.Plain
  row : Item.Row m c.items HeaderSection.length stop
  question : message.header.counts.question.toNat = c.question.length
  answer : message.header.counts.answer.toNat = c.answer.length
  authority : message.header.counts.authority.toNat = c.authority.length
  additional : message.header.counts.additional.toNat = c.additional.length + last.length
  ending : Ending m stop m.size message.tsigStart last

/-- The header tells the numbers of entries. -/
theorem Message.ReadFrom.counts {message : Message} {m : Array UInt8} {c : Contents} {stop : Nat}
    {last : List Record} (h : message.ReadFrom m c stop last) (part : Section) :
    (message.header.counts.get part).toNat = message.contents.sectionLength part := by
  rw [h.contents]
  cases part with
  | question => exact h.question
  | answer => exact h.answer
  | authority => exact h.authority
  | additional => exact h.additional.trans List.length_append.symm

theorem Message.ofOctets_ok {m : Array UInt8} {message : Message}
    (h : ofOctets m = .ok message) : ∃ c stop last, message.ReadFrom m c stop last := by
  simp only [ofOctets] at h
  split at h
  · cases h
  · rename_i found reached sections
    split at h
    · cases h
    · rename_i whole
      cases h
      obtain ⟨header, s₀, read₀, sections⟩ := Reader.bind_ok sections
      obtain ⟨question, s₁, read₁, sections⟩ := Reader.bind_ok sections
      obtain ⟨answer, s₂, read₂, sections⟩ := Reader.bind_ok sections
      obtain ⟨authority, s₃, read₃, sections⟩ := Reader.bind_ok sections
      obtain ⟨additional, s₄, read₄, sections⟩ := Reader.bind_ok sections
      cases sections
      have stop : s₀ = HeaderSection.length := by
        rw [(header_spells read₀).stop, Nat.zero_add, length_header]
      subst stop
      obtain ⟨questions, rfl, many, row₁⟩ := itemsAfter_question_ok read₁
      obtain ⟨a, _, last₁, pa, row₂, many₁, all₁, ending₁, only₁⟩ := readRecords_ok read₂
      obtain ⟨b, _, last₂, pb, row₃, many₂, all₂, ending₂, only₂⟩ := readRecords_ok read₃
      obtain ⟨c, stop, last₃, pc, row₄, many₃, all₃, ending₃, -⟩ := readRecords_ok read₄
      -- Only the last section may end with a signature, and so the others end where the next one
      -- begins.
      obtain rfl := only₁ (by decide)
      obtain rfl := only₂ (by decide)
      obtain rfl := ending₁.stop_eq
      obtain rfl := ending₂.stop_eq
      have row := Item.row_append.mpr ⟨_, row₁, Item.row_append.mpr ⟨_, row₂,
        Item.row_append.mpr ⟨_, row₃, row₄⟩⟩⟩
      have start : HeaderSection.length ≤ m.size := (header_spells read₀).inside
      have inside := ending₃.inside (row.inside start)
      obtain rfl : reached = m.size := by omega
      refine ⟨⟨question, a, b, c⟩, stop, last₃, rfl, read₀, ?_, ⟨pa, pb, pc⟩, row, many.symm, ?_,
        ?_, many₃, ending₃⟩
      · simp only [Message.contents, all₁, all₂, all₃, List.reverse_nil, List.nil_append,
          List.append_nil]
      · simpa using many₁
      · simpa using many₂

theorem Message.ReadFrom.tsig?_eq {message : Message} {m : Array UInt8} {c : Contents}
    {stop : Nat} {last : List Record} (h : message.ReadFrom m c stop last) :
    message.tsig? = none ∧ last = [] ∨ ∃ r t, last = [r] ∧ r.data = .tsig t ∧
      message.tsig? = some (r.owner, t, stop) := by
  have additional : message.additional = c.additional ++ last :=
    congrArg Contents.additional h.contents
  have ending := h.ending
  rw [Message.tsig?, additional]
  generalize message.tsigStart = start at ending
  cases ending with
  | unsigned => exact .inl ⟨rfl, rfl⟩
  | @signed r t signature =>
    refine .inr ⟨r, t, rfl, signature, ?_⟩
    simp [signature]

end Dns
