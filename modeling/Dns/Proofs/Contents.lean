import Dns.Message
import Dns.Proofs.Records

/-!
# The contents of a message

Items are what stands behind the header of a message: questions and records, each in a section.
`Item.Chain` says that they are read one after the other, from one place to another. If they are
sorted by their sections, they are the sections one after the other (`exists_contents`), and a
message whose header tells how many there are in each is read (`Message.ofOctets_of_chain`).

A list of items with a section each is how a *renderer* is described: it adds at the end and has one
list only. Four lists, one for each section, are how a *message* is described. Both views are
needed, and the step from one to the other is where the order of the sections matters. Nothing in
the octets marks where a section ends, so the numbers in the header have to be those of the items in
each.

A signature is not among the contents. What remains to be read where they end is left open in
`Message.ofOctets_of_chain`, so that the same theorem serves for messages with a signature and
without; `Message.exists_ofOctets` is the second case.

Two conditions say where an item may stand. `Item.Fits` is what reading needs, a question in the
first section and a record in another one. `Item.Placed` excludes signatures besides, since those
are accepted at the very end only.
-/

set_option autoImplicit false

namespace Dns

/-! ## Items -/

/-- Something that is found in a section of a message. -/
inductive Item where
  | question (q : Question)
  | record (r : Record)

namespace Item

/-- An item is read from a place to another. -/
def FindsAt (fixed : Nat → Prop) (o : Array UInt8) (item : Item) (p q : Nat) : Prop :=
  match item with
  | question x => Question.read.Finds fixed o x p q
  | record x => Record.read.Finds fixed o x p q

/-- Items are read one after the other. -/
def Chain (fixed : Nat → Prop) (o : Array UInt8) : List (Section × Item) → (p q : Nat) → Prop
  | [], p, q => p = q
  | x :: rest, p, q => ∃ s, x.2.FindsAt fixed o p s ∧ Chain fixed o rest s q

variable {fixed fixed' : Nat → Prop} {o o' : Array UInt8} {p q s : Nat}

theorem FindsAt.keeps {item : Item} (h : item.FindsAt fixed o p q) (k : Keeps fixed o o')
    (sub : ∀ i, i < o.size → fixed i → fixed' i) : item.FindsAt fixed' o' p q := by
  cases item with
  | question x => exact Reader.Finds.keeps h k sub
  | record x => exact Reader.Finds.keeps h k sub

theorem Chain.keeps {items : List (Section × Item)} (h : Chain fixed o items p q)
    (k : Keeps fixed o o') (sub : ∀ i, i < o.size → fixed i → fixed' i) :
    Chain fixed' o' items p q := by
  induction items generalizing p with
  | nil => exact h
  | cons x rest ih =>
    obtain ⟨s, first, others⟩ := h
    exact ⟨s, first.keeps k sub, ih others⟩

theorem chain_append {a b : List (Section × Item)} :
    Chain fixed o (a ++ b) p q ↔ ∃ s, Chain fixed o a p s ∧ Chain fixed o b s q := by
  induction a generalizing p with
  | nil => exact ⟨fun h => ⟨p, rfl, h⟩, fun ⟨s, same, h⟩ => same ▸ h⟩
  | cons x rest ih =>
    constructor
    · rintro ⟨t, first, others⟩
      obtain ⟨s, ha, hb⟩ := ih.mp others
      exact ⟨s, ⟨t, first, ha⟩, hb⟩
    · rintro ⟨s, ⟨t, first, ha⟩, hb⟩
      exact ⟨t, first, ih.mpr ⟨s, ha, hb⟩⟩

end Item

/-- Questions stand in their section, records in the others, and signatures nowhere. -/
def Item.Placed : Section × Item → Prop
  | (part, .question _) => part = .question
  | (part, .record r) => part ≠ .question ∧ r.data.kind? ≠ some .tsig

/-- Questions stand in their section, and records in the others. -/
def Item.Fits : Section × Item → Prop
  | (part, .question _) => part = .question
  | (part, .record _) => part ≠ .question

theorem Item.Placed.fits {x : Section × Item} (h : Item.Placed x) : Item.Fits x := by
  obtain ⟨part, y | r⟩ := x
  · exact h
  · exact h.1

/-! ## The header -/

theorem length_header (h : HeaderSection) : h.wire.length = HeaderSection.length := by
  simp only [HeaderSection.wire, Header.wire, Counts.wire, Wire.uint16, List.length_append,
    Octets.length_ofNat]
  rfl

theorem readAs_header (h : HeaderSection) : ReadAs h.wire HeaderSection.read h := by
  have first : ReadAs h.header.wire Header.read h.header :=
    (readAs_uint16 h.header.id).bind ((readAs_uint16 h.header.flags).map _)
  have second : ReadAs h.counts.wire Counts.read h.counts := by
    rw [Counts.wire, List.append_assoc, List.append_assoc]
    exact (readAs_uint16 _).bind ((readAs_uint16 _).bind ((readAs_uint16 _).bind
      ((readAs_uint16 h.counts.additional).map _)))
  exact first.bind (second.map _)

/-! ## Sections

Most of this is counting. A section of a message has as many entries as there are items with that
section in the list, and an item that is sorted behind all items of a section cannot have one of
them behind it. The order in which the items were added is the order in which they stand, since a
section cannot be entered again. So a list of items that is sorted by sections is the four lists of
the message one behind the other. -/

/-- Questions as items of their section. -/
def questionItems (questions : List Question) : List (Section × Item) :=
  questions.map fun q => (.question, .question q)

/-- Records as items of a section. -/
def recordItems (part : Section) (records : List Record) : List (Section × Item) :=
  records.map fun r => (part, .record r)

/-- No record among these is a signature. -/
def Unsigned (records : List Record) : Prop := ∀ r ∈ records, r.data.kind? ≠ some .tsig

/-- The entries of a message but for its signature, each with its section. -/
structure Contents where
  question : List Question := []
  answer : List Record := []
  authority : List Record := []
  additional : List Record := []

namespace Contents

/-- The entries in the order of the message. -/
def items (c : Contents) : List (Section × Item) :=
  questionItems c.question ++ (recordItems .answer c.answer ++
    (recordItems .authority c.authority ++ recordItems .additional c.additional))

/-- There is no signature in any section. -/
def Plain (c : Contents) : Prop :=
  Unsigned c.answer ∧ Unsigned c.authority ∧ Unsigned c.additional

end Contents

/-- The number of entries in a section. -/
def Contents.sectionLength (c : Contents) : Section → Nat
  | .question => c.question.length
  | .answer => c.answer.length
  | .authority => c.authority.length
  | .additional => c.additional.length

/-- The contents of a message, its signature included. -/
def Message.contents (m : Message) : Contents where
  question := m.question
  answer := m.answer
  authority := m.authority
  additional := m.additional

theorem countP_part {part : Section} {items : List (Section × Item)}
    (parts : ∀ x ∈ items, x.1 = part) (other : Section) :
    (items.countP fun x => x.1 = other) = if other = part then items.length else 0 := by
  split
  · rename_i same
    subst same
    exact List.countP_eq_length.mpr fun x mem => decide_eq_true (parts x mem)
  · rename_i differs
    exact List.countP_eq_zero.mpr fun x mem same =>
      differs ((of_decide_eq_true same).symm.trans (parts x mem))

theorem countP_recordItems (part other : Section) (records : List Record) :
    ((recordItems part records).countP fun x => x.1 = other)
      = if other = part then records.length else 0 := by
  have parts : ∀ x ∈ recordItems part records, x.1 = part := by
    intro x mem
    obtain ⟨r, -, rfl⟩ := List.mem_map.mp mem
    rfl
  rw [countP_part parts, recordItems, List.length_map]

theorem countP_questionItems (other : Section) (questions : List Question) :
    ((questionItems questions).countP fun x => x.1 = other)
      = if other = .question then questions.length else 0 := by
  have parts : ∀ x ∈ questionItems questions, x.1 = .question := by
    intro x mem
    obtain ⟨q, -, rfl⟩ := List.mem_map.mp mem
    rfl
  rw [countP_part parts, questionItems, List.length_map]

theorem Contents.countP_items (c : Contents) (part : Section) :
    (c.items.countP fun x => x.1 = part) = c.sectionLength part := by
  simp only [items, List.countP_append, countP_recordItems, countP_questionItems]
  cases part <;> simp [sectionLength]

theorem mem_recordItems {part : Section} {records : List Record} {r : Record}
    (h : r ∈ records) : (part, Item.record r) ∈ recordItems part records :=
  List.mem_map_of_mem h

/-- Nothing stands in a section that all items are behind. -/
theorem eq_nil_of_behind {part : Section} {records : List Record} {n : Nat}
    (h : ∀ x ∈ recordItems part records, n ≤ x.1.index) (before : part.index < n) :
    records = [] := by
  refine List.eq_nil_iff_forall_not_mem.mpr fun r mem => ?_
  have := h _ (mem_recordItems mem)
  simp only at this
  omega

theorem eq_nil_of_behind_question {questions : List Question} {n : Nat}
    (h : ∀ x ∈ questionItems questions, n ≤ x.1.index) (before : 0 < n) : questions = [] := by
  refine List.eq_nil_iff_forall_not_mem.mpr fun q mem => ?_
  have : n ≤ 0 := h (.question, .question q) (List.mem_map_of_mem mem)
  omega

/-- Items that are sorted by their sections are the sections one after the other. -/
theorem exists_contents (items : List (Section × Item))
    (sorted : items.Pairwise fun a b => a.1.index ≤ b.1.index)
    (placed : ∀ x ∈ items, Item.Placed x) : ∃ c : Contents, c.Plain ∧ c.items = items := by
  induction items with
  | nil => exact ⟨{}, by simp [Contents.Plain, Unsigned], rfl⟩
  | cons x rest ih =>
    -- By induction from behind: the item that is added is in front of all others, and so it is the
    -- first of its section or of an earlier one.
    obtain ⟨first, sorted⟩ := List.pairwise_cons.mp sorted
    obtain ⟨here, placed⟩ := List.forall_mem_cons.mp placed
    obtain ⟨⟨question, answer, authority, additional⟩, ⟨pa, pb, pc⟩, rfl⟩ := ih sorted placed
    simp only [Contents.items, List.forall_mem_append] at first
    obtain ⟨bq, ba, bb, bc⟩ := first
    rcases x with ⟨part, q | r⟩
    · cases here
      exact ⟨⟨q :: question, answer, authority, additional⟩, ⟨pa, pb, pc⟩, rfl⟩
    · obtain ⟨behind, plain⟩ := here
      have more : ∀ {rs : List Record}, Unsigned rs → Unsigned (r :: rs) := fun h =>
        List.forall_mem_cons.mpr ⟨plain, h⟩
      -- What follows is sorted, and so the sections in front of this one are empty.
      cases part with
      | question => exact absurd rfl behind
      | answer =>
        obtain rfl := eq_nil_of_behind_question bq (n := 1) (by decide)
        exact ⟨⟨[], r :: answer, authority, additional⟩, ⟨more pa, pb, pc⟩, rfl⟩
      | authority =>
        obtain rfl := eq_nil_of_behind_question bq (n := 2) (by decide)
        obtain rfl := eq_nil_of_behind ba (n := 2) (by decide)
        exact ⟨⟨[], [], r :: authority, additional⟩, ⟨pa, more pb, pc⟩, rfl⟩
      | additional =>
        obtain rfl := eq_nil_of_behind_question bq (n := 3) (by decide)
        obtain rfl := eq_nil_of_behind ba (n := 3) (by decide)
        obtain rfl := eq_nil_of_behind bb (n := 3) (by decide)
        exact ⟨⟨[], [], [], r :: additional⟩, ⟨pa, pb, more pc⟩, rfl⟩

/-- The entries of a message that stand in their sections are sorted by them. -/
theorem Contents.Plain.sorted {c : Contents} (h : c.Plain) :
    (∀ x ∈ c.items, Item.Placed x) ∧ c.items.Pairwise fun a b => a.1.index ≤ b.1.index := by
  have questions : ∀ x ∈ questionItems c.question, x.1 = .question ∧ Item.Placed x :=
    List.forall_mem_map.mpr fun q _ => ⟨rfl, rfl⟩
  have records : ∀ (part : Section) {rs : List Record}, part ≠ .question → Unsigned rs →
      ∀ x ∈ recordItems part rs, x.1 = part ∧ Item.Placed x := fun _ _ behind plain =>
    List.forall_mem_map.mpr fun r mem => ⟨rfl, behind, plain r mem⟩
  have answer := records .answer (by decide) h.1
  have authority := records .authority (by decide) h.2.1
  have additional := records .additional (by decide) h.2.2
  constructor
  · simp only [Contents.items, List.forall_mem_append]
    exact ⟨fun x mem => (questions x mem).2, fun x mem => (answer x mem).2,
      fun x mem => (authority x mem).2, fun x mem => (additional x mem).2⟩
  · -- Within a section there is nothing to compare, and between two of them it is the sections that
    -- are compared.
    have inOne : ∀ {part : Section} {xs : List (Section × Item)},
        (∀ x ∈ xs, x.1 = part ∧ Item.Placed x) → xs.Pairwise fun a b => a.1.index ≤ b.1.index :=
      fun h => List.pairwise_of_forall_mem_list fun x hx y hy =>
        Nat.le_of_eq (by rw [(h x hx).1, (h y hy).1])
    have before : ∀ {a b : Section} {xs ys : List (Section × Item)},
        (∀ x ∈ xs, x.1 = a ∧ Item.Placed x) → (∀ y ∈ ys, y.1 = b ∧ Item.Placed y) →
        a.index ≤ b.index → ∀ x ∈ xs, ∀ y ∈ ys, x.1.index ≤ y.1.index :=
      fun hx hy le x memx y memy => by
        rw [(hx x memx).1, (hy y memy).1]
        exact le
    refine List.pairwise_append.mpr ⟨inOne questions, List.pairwise_append.mpr ⟨inOne answer,
      List.pairwise_append.mpr ⟨inOne authority, inOne additional, ?_⟩, ?_⟩, ?_⟩
    · exact before authority additional (by decide)
    · intro x hx
      exact List.forall_mem_append.mpr ⟨before answer authority (by decide) x hx,
        before answer additional (by decide) x hx⟩
    · intro x hx
      exact List.forall_mem_append.mpr ⟨before questions answer (by decide) x hx,
        List.forall_mem_append.mpr ⟨before questions authority (by decide) x hx,
          before questions additional (by decide) x hx⟩⟩

/-- The question that an item is. -/
def Item.question? : Section × Item → Option Question
  | (_, .question q) => some q
  | _ => none

/-- The record of a section that an item is. -/
def Item.recordIn? (part : Section) : Section × Item → Option Record
  | (part', .record r) => if part' = part then some r else none
  | _ => none

namespace Contents

theorem filterMap_question (c : Contents) : c.items.filterMap Item.question? = c.question := by
  simp [items, questionItems, recordItems, List.filterMap_append, List.filterMap_map,
    Item.question?, Function.comp_def]

theorem filterMap_record (c : Contents) : c.items.filterMap (Item.recordIn? .answer) = c.answer ∧
    c.items.filterMap (Item.recordIn? .authority) = c.authority ∧
    c.items.filterMap (Item.recordIn? .additional) = c.additional := by
  simp [items, questionItems, recordItems, List.filterMap_append, List.filterMap_map,
    Item.recordIn?, Function.comp_def]

/-- The items tell all entries. -/
theorem items_injective {c c' : Contents} (h : c.items = c'.items) : c = c' := by
  obtain ⟨answer, authority, additional⟩ := c.filterMap_record
  obtain ⟨answer', authority', additional'⟩ := c'.filterMap_record
  have question := c.filterMap_question
  rw [h] at question answer authority additional
  obtain ⟨questions, answers, authorities, others⟩ := c
  obtain rfl := question.symm.trans c'.filterMap_question
  obtain rfl := answer.symm.trans answer'
  obtain rfl := authority.symm.trans authority'
  obtain rfl := additional.symm.trans additional'
  rfl

end Contents

/-! ## Reading the sections

The lemmas follow the loops that read a message. Each is about one section, from the place where it
begins to the one where it ends, for any number of items that were found before. What they need to
know of an item is only that it is found at its place, so that items may be added to a message by
any composer. A signature is at the end or not there, and an item in front of it is known to be
none. -/

section Reading

variable {fixed : Nat → Prop} {o m : Array UInt8} {p q : Nat}

theorem itemsAfter_questions {questions : List Question} (keeps : Keeps fixed o m) :
    ∀ {p : Nat} (found : List Question), Item.Chain fixed o (questionItems questions) p q →
      Reader.itemsAfter Question.read questions.length found m p
        = .ok (found.reverse ++ questions) q := by
  induction questions with
  | nil =>
    rintro p found rfl
    simp [Reader.itemsAfter]
  | cons x rest ih =>
    rintro p found ⟨s, first, others⟩
    rw [List.length_cons, Reader.itemsAfter]
    simp only [first m keeps]
    rw [ih (x :: found) others]
    simp

theorem Message.Progress.note_of_unsigned {part : Section} {start : Nat} {r : Record}
    (before : Progress) (plain : r.data.kind? ≠ some .tsig) :
    before.note part start r = .ok ⟨r :: before.records, before.tsigStart⟩ := by
  obtain ⟨owner, recordClass, ttl, data⟩ := r
  cases data with
  | tsig t => exact absurd rfl plain
  | _ => rfl

/-- Records without signature are read, and then so many more. -/
theorem readRecords_items {part : Section} {records : List Record} (plain : Unsigned records)
    (more : Nat) (keeps : Keeps fixed o m) :
    ∀ {p : Nat} (found : List Record), Item.Chain fixed o (recordItems part records) p q →
      Message.readRecords part (records.length + more) ⟨found, none⟩ m p
        = Message.readRecords part more ⟨records.reverse ++ found, none⟩ m q := by
  induction records with
  | nil =>
    rintro p found rfl
    simp
  | cons r rest ih =>
    rintro p found ⟨s, first, others⟩
    obtain ⟨here, plain⟩ := List.forall_mem_cons.mp plain
    -- The number of records counts down, and those that come behind these are the same for all.
    have step : (r :: rest).length + more = rest.length + more + 1 := by
      rw [List.length_cons]
      omega
    rw [step, Message.readRecords]
    simp only [Option.isSome_none, Bool.false_eq_true, if_false, first m keeps,
      Message.Progress.note_of_unsigned _ here]
    rw [ih plain (r :: found) others]
    simp

/-- A message is read if its header tells the truth about its contents; what follows them is a
matter of the additional section. -/
theorem Message.ofOctets_of_chain {h : HeaderSection} {c : Contents} {more : Nat}
    {rest : Progress} (header : Holds m 0 h.wire) (plain : c.Plain) (keeps : Keeps fixed o m)
    (chain : Item.Chain fixed o c.items HeaderSection.length p)
    (question : h.counts.question.toNat = c.question.length)
    (answer : h.counts.answer.toNat = c.answer.length)
    (authority : h.counts.authority.toNat = c.authority.length)
    (additional : h.counts.additional.toNat = c.additional.length + more)
    (last : readRecords .additional more ⟨c.additional.reverse, none⟩ m p = .ok rest m.size) :
    ofOctets m = .ok {
      octets := m
      header := h
      question := c.question
      answer := c.answer
      authority := c.authority
      additional := rest.records.reverse
      tsigStart := rest.tsigStart } := by
  obtain ⟨pa, pb, pc⟩ := plain
  obtain ⟨s₁, chain₁, chain⟩ := Item.chain_append.mp chain
  obtain ⟨s₂, chain₂, chain⟩ := Item.chain_append.mp chain
  obtain ⟨s₃, chain₃, chain₄⟩ := Item.chain_append.mp chain
  -- One fact for each part of the message, each at the place where the one before it ended.
  have read₀ : HeaderSection.read m 0 = .ok h HeaderSection.length := by
    rw [readAs_header h m 0 header, Nat.zero_add, length_header]
  have read₁ : Reader.times h.counts.question.toNat Question.read m HeaderSection.length
      = .ok c.question s₁ := by
    rw [question]
    exact itemsAfter_questions keeps [] chain₁
  have read₂ : readRecords .answer h.counts.answer.toNat {} m s₁
      = .ok ⟨c.answer.reverse, none⟩ s₂ := by
    rw [answer, ← Nat.add_zero c.answer.length]
    simpa [readRecords] using readRecords_items pa 0 keeps [] chain₂
  have read₃ : readRecords .authority h.counts.authority.toNat {} m s₂
      = .ok ⟨c.authority.reverse, none⟩ s₃ := by
    rw [authority, ← Nat.add_zero c.authority.length]
    simpa [readRecords] using readRecords_items pb 0 keeps [] chain₃
  have read₄ : readRecords .additional h.counts.additional.toNat {} m s₃ = .ok rest m.size := by
    rw [additional, ← last]
    simpa using readRecords_items pc more keeps [] chain₄
  simp only [ofOctets, readSections, Reader.bind_apply, read₀, read₁, read₂, read₃, read₄,
    Reader.whole, Reader.pure_apply, Nat.lt_irrefl, if_false, List.reverse_reverse]

/-- If nothing follows the contents, they are all that is read. -/
theorem Message.exists_ofOctets {h : HeaderSection} {c : Contents} (header : Holds m 0 h.wire)
    (plain : c.Plain) (keeps : Keeps fixed o m)
    (chain : Item.Chain fixed o c.items HeaderSection.length m.size)
    (counts : ∀ part, (h.counts.get part).toNat = c.sectionLength part) :
    ∃ message, ofOctets m = .ok message ∧ message.header = h ∧ message.contents = c := by
  have additional : h.counts.additional.toNat = c.additional.length + 0 := counts .additional
  refine ⟨_, ofOctets_of_chain header plain keeps chain (counts .question) (counts .answer)
    (counts .authority) additional rfl, rfl, ?_⟩
  simp only [contents, List.reverse_reverse]

end Reading

end Dns
