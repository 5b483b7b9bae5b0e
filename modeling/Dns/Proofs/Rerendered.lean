import Dns.Proofs.Composable
import Dns.Proofs.Messages

/-!
# Messages that are rendered again

Whatever message was read, however its names were compressed: a renderer takes all of its entries,
one call for each, and the message that results is read as one that says the same.

That no call fails is an invariant of the renderer and the entries to come (`Renderer.Ready`): the
entries are composable, there is room for all of them, none of their sections has been left, and
they are not too many for the header to tell. That the result says the same is what holds of every
run (`Call.run_shows`), and that names which are absolute are completed to themselves.

So the first half is about success and the second one about meaning, and they share no more than the
list of calls (`Message.calls`). Octet by octet the two messages need not agree: the table of the
renderer may find other pointers than those that were there, or more of them. Names are compared
without letter case for the same reason, and since the relation between entries and items is
equality of records, the comparison comes down to reading the two lists side by side.

Signatures are left out. A signature is over the octets of the message that it came with, and means
nothing for another one.
-/

set_option autoImplicit false

namespace Dns

/-! ## The calls that add entries

The calls are made of the message section by section, and of its items one by one. Both give the
same list, and the second way is the one for an induction. Each record is added as a set with a
single member, since larger sets would keep neither the records of several sets in their order nor
the spelling of those that are equal. -/

/-- Adds a record as a set of its own. -/
def Call.addRecord (part : Section) (r : Record) : Call :=
  .addRrset part (.ofRdata r.owner r.recordClass r.ttl r.data) {}

/-- The calls that add all entries of a message, one after the other. -/
def Message.calls (m : Message) : List Call :=
  m.question.map .addQuestion ++ (m.answer.map (.addRecord .answer) ++
    (m.authority.map (.addRecord .authority) ++ m.additional.map (.addRecord .additional)))

/-- All calls of a run succeed. -/
def Call.AllSucceed : List Call → Renderer → Prop
  | [], _ => True
  | c :: rest, r => (c.perform r).1 = .ok () ∧ AllSucceed rest (c.perform r).2

namespace Item

def call : Section × Item → Call
  | (_, .question q) => .addQuestion q
  | (part, .record r) => .addRecord part r

/-- The addition that the call of an item makes. -/
def addition : Section × Item → Addition
  | (part, .question q) => (part, .question q)
  | (part, .record r) => (part, .record r {})

theorem entries_call {x : Section × Item} (placed : Placed x) (r : Renderer) :
    (call x).entries r = [addition x] := by
  obtain ⟨part, q | rr⟩ := x
  · cases placed
    rfl
  · simp only [call, Call.addRecord, Call.entries, Call.recordsOf, Rrset.ofRdata,
      Rdataset.records_ofRdata]
    rfl

end Item

theorem Message.calls_eq (m : Message) : m.calls = m.contents.items.map Item.call := by
  simp only [calls, contents, Contents.items, questionItems, recordItems, List.map_append,
    List.map_map]
  rfl

/-! ## No call fails

`Ready` is about the items that are still to come and shrinks with them. For each of its clauses
there is one check in the renderer that would fail otherwise. The sections come in their order, the
data can be composed, the size is enough, and the numbers are those of a header that has been read.
-/

namespace Renderer

variable {r : Renderer} {part : Section} {room : Nat}

/-- All that adding one entry does, if the entry is composed and there is room for it. -/
theorem exists_add {compose : Option Name → Composer Unit} (later : r.part.index ≤ part.index)
    (takes : (compose r.origin).Takes room) (rootless : r.draft.Rootless)
    (fits : r.size + room ≤ r.maxSize) (few : (r.counts.get part).toNat + 1 ≤ 65535) :
    ∃ d : Draft, d.Rootless ∧ d.size ≤ r.size + room ∧
      r.add part (fun origin => do compose origin; return 1) = (.ok (), { r with
        draft := d
        part
        counts := r.counts.set part (.ofNat ((r.counts.get part).toNat + 1)) }) := by
  obtain ⟨_, d, composed, rootless', size⟩ := takes r.draft rootless
  refine ⟨d, rootless', size, ?_⟩
  refine add_of_composed later ?_ (Nat.le_trans size fits) few
  simp only [Bind.bind, EStateM.bind, composed]
  rfl

/-- The renderer can take these items one after the other. -/
structure Ready (r : Renderer) (items : List (Section × Item)) : Prop where
  rootless : r.draft.Rootless
  room : r.size + Item.room * items.length ≤ r.maxSize
  few : ∀ part, (r.counts.get part).toNat + (items.countP fun x => x.1 = part) ≤ 65535
  sorted : items.Pairwise fun a b => a.1.index ≤ b.1.index
  later : ∀ x ∈ items, r.part.index ≤ x.1.index
  placed : ∀ x ∈ items, Item.Placed x
  composable : ∀ x ∈ items, x.2.Composable

/-- The call of an item composes one entry. -/
theorem perform_call {x : Section × Item} (placed : Item.Placed x) (composable : x.2.Composable)
    (r : Renderer) : ∃ compose : Option Name → Composer Unit,
      (compose r.origin).Takes Item.room ∧
      (Item.call x).perform r = r.add x.1 fun origin => do compose origin; return 1 := by
  obtain ⟨part, q | rr⟩ := x
  · cases placed
    exact ⟨fun origin => q.compose true origin, Question.compose_takes composable _ _, rfl⟩
  · refine ⟨fun origin => rr.compose true origin {},
      Record.compose_takes composable _ _ _, ?_⟩
    simp only [Item.call, Call.addRecord, Call.perform, addRrset, addRdataset, Rrset.ofRdata,
      Rdataset.compose_ofRdata]

/-- The call of the first item succeeds, and the renderer can take the others after it. -/
theorem Ready.step {x : Section × Item} {rest : List (Section × Item)} (h : r.Ready (x :: rest)) :
    ∃ r', (Item.call x).perform r = (.ok (), r') ∧ r'.id = r.id ∧ r'.flags = r.flags ∧
      r'.Ready rest := by
  obtain ⟨placed, placedRest⟩ := List.forall_mem_cons.mp h.placed
  obtain ⟨composable, composableRest⟩ := List.forall_mem_cons.mp h.composable
  obtain ⟨first, sorted⟩ := List.pairwise_cons.mp h.sorted
  have room := h.room
  rw [List.length_cons, Nat.mul_succ] at room
  have few := h.few x.1
  simp only [List.countP_cons, decide_true, if_true] at few
  -- The room for this item is one of those that were foreseen, and its section has been counted.
  obtain ⟨compose, takes, performed⟩ := perform_call placed composable r
  obtain ⟨d, rootless, size, added⟩ := exists_add (h.later x List.mem_cons_self) takes h.rootless
    (by omega) (by omega)
  refine ⟨_, performed.trans added, rfl, rfl, rootless, ?_, fun other => ?_, sorted, first,
    placedRest, composableRest⟩
  · show d.size + _ ≤ r.maxSize
    omega
  · have before := h.few other
    rw [List.countP_cons] at before
    show ((r.counts.set x.1 _).get other).toNat + _ ≤ 65535
    rw [get_set]
    split
    · rename_i same
      subst same
      rw [UInt16.toNat_ofNat', Nat.mod_eq_of_lt (by omega)]
      omega
    · omega

/-- A renderer that can take items takes them all: their calls succeed, and nothing else is
added. -/
theorem Ready.run {items : List (Section × Item)} (h : r.Ready items) :
    Call.AllSucceed (items.map Item.call) r ∧
      Call.added (items.map Item.call) r = items.map Item.addition ∧
      (Call.run (items.map Item.call) r).id = r.id ∧
      (Call.run (items.map Item.call) r).flags = r.flags := by
  induction items generalizing r with
  | nil => exact ⟨trivial, rfl, rfl, rfl⟩
  | cons x rest ih =>
    obtain ⟨r', performed, id, flags, ready⟩ := h.step
    obtain ⟨succeed, added, id', flags'⟩ := ih ready
    have next : ((Item.call x).perform r).2 = r' := congrArg Prod.snd performed
    have step : Call.run ((x :: rest).map Item.call) r = Call.run (rest.map Item.call) r' := by
      rw [← next]
      rfl
    rw [step, List.map_cons, List.map_cons, Call.added, performed]
    refine ⟨⟨congrArg Prod.fst performed, by rw [next]; exact succeed⟩, ?_, id'.trans id,
      flags'.trans flags⟩
    simp only [Item.entries_call (h.placed x List.mem_cons_self), added]
    rfl

/-- Once its header is written, the message that shows some items is read as these items. -/
theorem Shows.message {items : List (Section × Item)} (h : r.Shows items) :
    ∃ m, Message.ofOctets r.writeHeader.octets = .ok m ∧ m.header = ⟨⟨r.id, r.flags⟩, r.counts⟩ ∧
      m.contents.items = items := by
  obtain ⟨c, plain, same, counts⟩ := h.exists_contents
  have chain := h.writeHeader.chain
  rw [← same] at chain
  obtain ⟨m, read, header, contents⟩ :=
    Message.exists_ofOctets (holds_header h) plain (.refl _ _) chain counts
  exact ⟨m, read, header, by rw [contents, same]⟩

end Renderer

/-! ## The same again

What the renderer adds for an item and what is found of it are related by completing names. Names
that were read are absolute, and so the origin that the renderer was given has no part in it. Two
entries are the same if they agree up to the letter case of names, and a compressed name is read
back in the letters that were written first. -/

namespace Item

/-- An item says the same as another one, up to the letter case of names. -/
def Same : (x y : Section × Item) → Prop
  | (part, .question q), (part', .question q') => part' = part ∧ (q' == q) = true
  | (part, .record r), (part', .record r') => part' = part ∧ (r' == r) = true
  | _, _ => False

/-- What is found for an item that was composed without fail says the same. -/
theorem same_of_found {x y : Section × Item} {origin : Option Name} (composable : x.2.Composable)
    (found : (addition x).Found origin y) : Same x y := by
  obtain ⟨part, q | r⟩ := x
  · obtain ⟨part', q' | r'⟩ := y
    · obtain ⟨same, full, completed, equal⟩ := found
      have self : q.completed origin = .ok q := by
        rw [Question.completed, Name.absoluteName_of_absolute composable]
        rfl
      rw [self] at completed
      cases completed
      exact ⟨same.symm, equal⟩
    · exact found.2
  · obtain ⟨part', q' | r'⟩ := y
    · exact found.2
    · obtain ⟨same, full, completed, equal⟩ := found
      have self : r.completed origin {} = .ok r := by
        rw [Record.completed, Name.absoluteName_of_absolute composable.1,
          composable.2.completed]
        rfl
      rw [self] at completed
      cases completed
      exact ⟨same.symm, equal⟩

theorem addition_documented {x : Section × Item} (placed : Placed x) (composable : x.2.Composable) :
    (addition x).Documented := by
  obtain ⟨part, q | r⟩ := x
  · trivial
  · exact ⟨placed.1, composable.2.documented⟩

end Item

namespace Contents

variable {c c' : Contents}

/-- The entries of all sections are the same one by one, up to the letter case of names. -/
structure Same (c c' : Contents) : Prop where
  question : List.Forall₂ (fun q q' => (q' == q) = true) c.question c'.question
  answer : List.Forall₂ (fun r r' => (r' == r) = true) c.answer c'.answer
  authority : List.Forall₂ (fun r r' => (r' == r) = true) c.authority c'.authority
  additional : List.Forall₂ (fun r r' => (r' == r) = true) c.additional c'.additional

theorem Same.sectionLength (h : c.Same c') (part : Section) :
    c'.sectionLength part = c.sectionLength part := by
  cases part with
  | question => exact h.question.length_eq.symm
  | answer => exact h.answer.length_eq.symm
  | authority => exact h.authority.length_eq.symm
  | additional => exact h.additional.length_eq.symm

/-- The entries of all sections are the same if all items are. -/
theorem same_of_items (h : List.Forall₂ Item.Same c.items c'.items) : c.Same c' := by
  have questions : List.Forall₂ (fun q q' => (q' == q) = true)
      (c.items.filterMap Item.question?) (c'.items.filterMap Item.question?) := by
    refine List.rel_filterMap (fun x y same => ?_) h
    obtain ⟨part, q | r⟩ := x <;> obtain ⟨part', q' | r'⟩ := y
    · exact .some same.2
    · exact same.elim
    · exact same.elim
    · exact .none
  have records : ∀ part, List.Forall₂ (fun r r' => (r' == r) = true)
      (c.items.filterMap (Item.recordIn? part)) (c'.items.filterMap (Item.recordIn? part)) := by
    refine fun part => List.rel_filterMap (fun x y same => ?_) h
    obtain ⟨here, q | r⟩ := x <;> obtain ⟨there, q' | r'⟩ := y
    · exact .none
    · exact same.elim
    · exact same.elim
    · obtain ⟨rfl, equal⟩ := same
      -- The same items are left out on both sides, since they have the same sections.
      simp only [Item.recordIn?]
      split
      · exact .some equal
      · exact .none
  obtain ⟨answer, authority, additional⟩ := c.filterMap_record
  obtain ⟨answer', authority', additional'⟩ := c'.filterMap_record
  refine ⟨?_, ?_, ?_, ?_⟩
  · rw [← c.filterMap_question, ← c'.filterMap_question]
    exact questions
  · rw [← answer, ← answer']
    exact records .answer
  · rw [← authority, ← authority']
    exact records .authority
  · rw [← additional, ← additional']
    exact records .additional

end Contents

/-! ## Messages that were read

The size that suffices is a generous one: four sections of 65535 entries, each as large as an entry
can be. A message of this size cannot be sent; what counts is that there is one for all messages.
How large a message has to be in truth depends on what can be compressed, and nothing about this is
claimed. -/

theorem Message.ReadFrom.sectionLength {message : Message} {m : Array UInt8} {c : Contents}
    {stop : Nat} (h : message.ReadFrom m c stop []) (part : Section) :
    (message.header.counts.get part).toNat = c.sectionLength part := by
  rw [h.counts, h.contents, List.append_nil]

/-- A renderer that was just made can take the entries of every message that was read. -/
theorem Message.ReadFrom.ready {message : Message} {m : Array UInt8} {c : Contents} {stop : Nat}
    (h : message.ReadFrom m c stop []) (id flags : UInt16) {maxSize : Nat} (origin : Option Name)
    (time : Time48) (large : 2 ^ 35 ≤ maxSize) :
    (Renderer.start id flags maxSize origin time).Ready c.items := by
  have few : ∀ part, c.sectionLength part ≤ 65535 := fun part =>
    h.sectionLength part ▸ Nat.le_of_lt_succ (UInt16.toNat_lt _)
  obtain ⟨placed, sorted⟩ := h.plain.sorted
  refine ⟨Draft.rootless_of_empty _, ?_, fun part => ?_, sorted, fun _ _ => Nat.zero_le _, placed,
    fun x mem => ?_⟩
  · -- The header has four numbers of 16 bits, and there are no more entries than these say.
    have all : c.items.length ≤ 4 * 65535 := by
      have question := few .question
      have answer := few .answer
      have authority := few .authority
      have additional := few .additional
      simp only [Contents.sectionLength] at question answer authority additional
      simp only [Contents.items, questionItems, recordItems, List.length_append, List.length_map]
      omega
    have size : (Renderer.start id flags maxSize origin time).size = 12 := by
      simp [Renderer.start, Renderer.size, Draft.size, HeaderSection.length]
    show _ ≤ maxSize
    rw [size, Item.room]
    omega
  · have zero : ((Renderer.start id flags maxSize origin time).counts.get part).toNat = 0 := by
      cases part <;> rfl
    rw [zero, Nat.zero_add, Contents.countP_items]
    exact few part
  · obtain ⟨p, q, read⟩ := h.row.exists_read mem
    exact read.composable (placed x mem)

/-- Whatever message was read that has no signature: a renderer that has room for it takes all its
entries without fail, and the message that results has the same header and the same entries. -/
theorem Message.rendered_again (octets : Array UInt8) (m : Message) (maxSize : Nat)
    (origin : Option Name) (time : Time48) (read : ofOctets octets = .ok m)
    (unsigned : m.tsig? = none) (large : 2 ^ 35 ≤ maxSize) :
    let start := Renderer.start m.header.header.id m.header.header.flags maxSize origin time
    Call.AllSucceed m.calls start ∧
      ∃ m', ofOctets (Call.run m.calls start).writeHeader.octets = .ok m' ∧
        m'.header = m.header ∧ m.contents.Same m'.contents := by
  intro start
  obtain ⟨c, stop, last, from'⟩ := ofOctets_ok read
  obtain rfl : last = [] := by
    rcases from'.tsig?_eq with ⟨-, none⟩ | ⟨r, t, -, -, some⟩
    · exact none
    · rw [unsigned] at some
      cases some
  have contents : m.contents = c := by rw [from'.contents, List.append_nil]
  have ready := from'.ready m.header.header.id m.header.header.flags origin time large
  obtain ⟨succeed, added, id, flags⟩ := ready.run
  rw [← contents, ← calls_eq] at succeed added id flags
  have documented : ∀ a ∈ Call.added m.calls start, Addition.Documented a := by
    rw [added]
    refine List.forall_mem_map.mpr fun x mem => ?_
    rw [contents] at mem
    exact Item.addition_documented (ready.placed x mem) (ready.composable x mem)
  obtain ⟨-, items, all, shows⟩ :=
    Call.run_shows m.calls (Renderer.start_shows _ _ maxSize origin time) documented
  rw [List.nil_append] at shows
  rw [added, List.forall₂_map_left_iff, contents] at all
  -- The origin has no part in it, for all names are absolute.
  have all : List.Forall₂ Item.Same m.contents.items items := by
    rw [contents]
    exact ((List.forall₂_and_left _ _).mpr ⟨ready.composable, all⟩).imp fun x y h =>
      Item.same_of_found h.1 h.2
  obtain ⟨m', read', header, rfl⟩ := shows.message
  have same := Contents.same_of_items all
  refine ⟨succeed, m', read', ?_, same⟩
  have counts : (Call.run m.calls start).counts = m.header.counts := by
    refine Renderer.counts_ext fun part => UInt16.toNat_inj.mp ?_
    rw [shows.counts, Contents.countP_items, from'.sectionLength, ← contents, same.sectionLength]
  rw [header, counts, id, flags]
  rfl

/-- A message whose answer says its names by pointers to the question. -/
theorem Message.rendered_again_pointers :
    let octets : Array UInt8 := #[0, 7, 129, 0, 0, 1, 0, 1, 0, 0, 0, 0, 1, 97, 0, 0, 2, 0, 1,
      192, 12, 0, 2, 0, 1, 0, 0, 0, 60, 0, 2, 192, 12]
    ∃ m, ofOctets octets = .ok m ∧ m.tsig? = none ∧
      let start := Renderer.start m.header.header.id m.header.header.flags (2 ^ 35) none ⟨0⟩
      Call.AllSucceed m.calls start ∧
        ∃ m', ofOctets (Call.run m.calls start).writeHeader.octets = .ok m' ∧
          m'.header = m.header ∧ m.contents.Same m'.contents := by
  intro octets
  have accepted : (ofOctets octets).map tsig? = .ok none := by cbv
  obtain ⟨m, read, unsigned⟩ := map_eq_ok accepted
  exact ⟨m, read, unsigned,
    rendered_again octets m (2 ^ 35) none ⟨0⟩ read unsigned (Nat.le_refl _)⟩

end Dns
