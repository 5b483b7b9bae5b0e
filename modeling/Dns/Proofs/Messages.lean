import Dns.Proofs.Calls
import Dns.Proofs.Contents
import Mathlib.Data.List.Forall2
import Mathlib.Data.List.Pairwise

/-!
# A message holds what was added to it

Whatever calls a renderer went through, the message that it gives in the end is read, and it holds
the entries of the calls that succeeded, in their order (`Call.message_of_run`).

The invariant is `Renderer.Shows`: behind the header, the octets are read as a sequence of items,
each in the section that it was added to, and the table is sound. The items are sorted by their
sections, since no section is entered again; and so the numbers in the header, which are kept beside
them, are all that reading needs to tell the sections apart. The header itself is not among the
places that anything relies on, for it may be written at any time and counts for nothing until it is
written at the end.

A call is free to fail, and this needs no case of its own in the invariant. A failed call leaves the
octets and the entries of the table as they were (`Renderer.Restored`), and the section that it may
have entered is one that no item is behind.

Which entries a run has added is computed beside the renderer (`Call.added`), and the items that are
found are related to them one by one. Two things are asked of an entry. Its data have to be in the
form of their type, or they would be read as something else; and a record must not be added to the
questions, which the renderer does not refuse. `Call.record_among_questions` shows what comes of it.
-/

set_option autoImplicit false

namespace Dns

/-! ## What is added and what is found -/

/-- What is found stands for an entry. -/
def Entry.Found (origin : Option Name) : Entry → Item → Prop
  | .question q, .question found => q.Found origin found
  | .record r form, .record found => r.Found origin form found
  | _, _ => False

/-- What is found in a section stands for what was added to it. -/
def Addition.Found (origin : Option Name) (a : Addition) (x : Section × Item) : Prop :=
  a.1 = x.1 ∧ a.2.Found origin x.2

/-- What may be added so that the message can be read: records do not stand among the questions,
and their data are in the form that belongs to their type. -/
def Addition.Documented : Addition → Prop
  | (_, .question _) => True
  | (part, .record r _) => part ≠ .question ∧ r.data.Documented

namespace RecordData

theorem kind?_caseless (d : RecordData) : d.caseless.kind? = d.kind? := by
  cases d <;> rfl

theorem kind?_of_beq {a b : RecordData} (h : (a == b) = true) : a.kind? = b.kind? := by
  rw [← kind?_caseless a, ← kind?_caseless b, beq_iff_caseless.mp h]

theorem kind?_of_completed {d full : RecordData} {origin : Option Name}
    (h : d.completed origin = .ok full) : full.kind? = d.kind? := by
  cases d with
  | ns | cname | ptr | mx | lp | tsig =>
    obtain ⟨m, -, h⟩ := bind_eq_ok h
    cases h
    rfl
  | soa s =>
    obtain ⟨m, -, h⟩ := bind_eq_ok h
    obtain ⟨r, -, h⟩ := bind_eq_ok h
    cases h
    rfl
  | a | hinfo | txt | x25 | aaaa | opt | nid | l32 | l64 | unknown => cases h; rfl

theorem kind?_of_documented {d : RecordData} (h : d.Documented) : d.kind? ≠ some .tsig := by
  cases d with
  | tsig t => exact h.elim
  | _ => simp [kind?]

end RecordData

/-- A record that is found has data of the kind that was added. -/
theorem Record.kind?_of_found {r found : Record} {origin : Option Name} {form : RecordForm}
    (h : r.Found origin form found) : found.data.kind? = r.data.kind? := by
  obtain ⟨full, whole, equal⟩ := h
  obtain ⟨owner, -, whole⟩ := bind_eq_ok whole
  obtain ⟨data, completed, last⟩ := bind_eq_ok whole
  cases last
  have same : (found.data == data) = true := (Bool.and_eq_true_iff.mp equal).2
  rw [RecordData.kind?_of_beq same, RecordData.kind?_of_completed completed]

/-! ## Entries that are composed

`Composer.Adds` is to entries what `Composer.Writes` is to data. The composer of an entry tells how
many it has composed, and that this is the truth is a part of the statement, because the number goes
into the header unseen. A set of records is composed one record after the other. If one of them
fails, those in front of it have been composed in vain, and nothing is claimed of them; the
transaction takes them away. -/

/-- The places behind the header. -/
def behindHeader (i : Nat) : Prop := HeaderSection.length ≤ i

/-- Writing to the header changes nothing behind it. -/
theorem Draft.overwrite_keeps (d : Draft) {place : Nat} {o : Octets}
    (inside : place + o.length ≤ HeaderSection.length) :
    Keeps behindHeader d.octets (d.overwrite place o).octets :=
  ⟨Nat.le_of_eq (size_overwrite o _ _).symm, fun _ _ hi =>
    getElem?_overwrite o (.inr (Nat.le_trans inside hi))⟩

namespace Composer

/-- A composer that gives the number of entries composes just these, and they are read back. -/
def Adds (c : Composer Nat) (origin : Option Name) (part : Section) (entries : List Addition) :
    Prop :=
  ∀ (fixed : Nat → Prop) (d d' : Draft) (n : Nat), (∀ i, d.size ≤ i → fixed i) → d.Sound fixed →
    c d = .ok n d' → n = entries.length ∧ d.Grows d' ∧ d'.Sound fixed ∧
      ∃ items, List.Forall₂ (Addition.Found origin) entries items ∧
        (∀ x ∈ items, x.1 = part ∧ Item.Placed x) ∧
        Item.Chain fixed d'.octets items d.size d'.size

theorem question_adds (q : Question) (origin : Option Name) :
    (do q.compose true origin; return 1 : Composer Nat).Adds origin .question
      [(.question, .question q)] := by
  intro fixed d d' n covered sound run
  obtain ⟨_, d₁, inner, last⟩ := bind_ok run
  cases last
  obtain ⟨grown, sound', found, is, finds⟩ :=
    q.compose_writes true origin fixed d d' covered sound inner
  exact ⟨rfl, grown, sound', [(.question, .question found)], .cons ⟨rfl, is⟩ .nil,
    by simp [Item.Placed], d'.size, finds, rfl⟩

/-- Records one after the other. -/
theorem records_chain {part : Section} {origin : Option Name} {form : RecordForm}
    {compressed : Bool} (records : List Record)
    (documented : ∀ r ∈ records, part ≠ .question ∧ r.data.Documented)
    {fixed : Nat → Prop} {d d' : Draft} (covered : ∀ i, d.size ≤ i → fixed i)
    (sound : d.Sound fixed)
    (run : (records.forM fun r => r.compose compressed origin form) d = .ok () d') :
    d.Grows d' ∧ d'.Sound fixed ∧ ∃ items,
      List.Forall₂ (Addition.Found origin) (records.map fun r => (part, .record r form)) items ∧
        (∀ x ∈ items, x.1 = part ∧ Item.Placed x) ∧
        Item.Chain fixed d'.octets items d.size d'.size := by
  induction records generalizing d with
  | nil =>
    cases run
    exact ⟨.refl _, sound, [], .nil, by simp, rfl⟩
  | cons r rest ih =>
    rw [List.forM_eq_forM, List.forM_cons] at run
    obtain ⟨_, d₁, first, run⟩ := bind_ok run
    obtain ⟨grown₁, sound₁, found, is, finds⟩ :=
      Record.compose_writes (documented r List.mem_cons_self).2 compressed origin form fixed d d₁
        covered sound first
    obtain ⟨grown₂, sound₂, items, all, parts, chain⟩ :=
      ih (fun r mem => documented r (List.mem_cons_of_mem _ mem))
        (fun i hi => covered i (Nat.le_trans grown₁.size_le hi)) sound₁ run
    -- The first record is found in the longer message, too.
    have kept := grown₂.kept.mono fun i _ (_ : fixed i) => trivial
    refine ⟨grown₁.trans grown₂, sound₂, (part, .record found) :: items,
      .cons ⟨rfl, is⟩ all, ?_, d₁.size, finds.keeps kept fun _ _ hf => hf, chain⟩
    obtain ⟨behind, inForm⟩ := documented r List.mem_cons_self
    refine List.forall_mem_cons.mpr ⟨⟨rfl, behind, ?_⟩, parts⟩
    rw [Record.kind?_of_found is]
    exact RecordData.kind?_of_documented inForm

theorem rdataset_adds {set : Rdataset} {owner : Name} {part : Section} {form : RecordForm}
    (documented : ∀ r ∈ set.records owner, part ≠ .question ∧ r.data.Documented)
    (origin : Option Name) :
    (set.compose owner true origin form).Adds origin part
      (Call.recordsOf part owner set form) := by
  intro fixed d d' n covered sound run
  obtain ⟨_, d₁, inner, last⟩ := bind_ok run
  cases last
  obtain ⟨grown, sound', items, all, parts, chain⟩ :=
    records_chain _ documented covered sound inner
  -- The records of a set are as many as its data, which is the number that is told.
  refine ⟨?_, grown, sound', items, all, parts, chain⟩
  rw [Call.recordsOf, Rdataset.records, List.length_map, List.length_map]
  rfl

end Composer

/-! ## The invariant of renderers

What a new item has to fulfil is divided between the composer and the transaction: the composer
answers for the octets and for the number, the transaction for the section, the size and the sum.
`Shows` says of a renderer which items stand in its draft and in which sections. It does not speak
of the header, whose octets are zeros until they are written, and so it is kept by everything that
only writes there. -/

namespace Renderer

/-- Behind the header, a renderer holds these items and nothing else. -/
structure Shows (r : Renderer) (items : List (Section × Item)) : Prop where
  sound : r.draft.Sound behindHeader
  size : HeaderSection.length ≤ r.draft.size
  chain : Item.Chain behindHeader r.draft.octets items HeaderSection.length r.draft.size
  counts : ∀ part, (r.counts.get part).toNat = items.countP fun x => x.1 = part
  sorted : items.Pairwise fun a b => a.1.index ≤ b.1.index
  entered : ∀ x ∈ items, x.1.index ≤ r.part.index
  placed : ∀ x ∈ items, Item.Placed x

variable {r r' : Renderer} {items : List (Section × Item)} {part : Section}

theorem start_shows (id flags : UInt16) (maxSize : Nat) (origin : Option Name) (time : Time48) :
    (start id flags maxSize origin time).Shows [] where
  sound := Draft.sound_of_empty _ _
  size := by simp [start, Draft.size]
  chain := by simp [start, Draft.size, Item.Chain]
  counts part := by cases part <;> rfl
  sorted := .nil
  entered x mem := absurd mem List.not_mem_nil
  placed x mem := absurd mem List.not_mem_nil

/-- The items are a matter of draft, counts and section alone. -/
theorem Shows.congr (h : r.Shows items) (octets : r'.draft.octets = r.draft.octets)
    (table : r'.draft.table.Same r.draft.table) (counts : r'.counts = r.counts)
    (part : r.part.index ≤ r'.part.index) : r'.Shows items where
  sound := h.sound.congr octets table
  size := by
    have := h.size
    rwa [Draft.size, ← octets] at this
  chain := by
    have chain := h.chain
    rwa [Draft.size, ← octets] at chain
  counts part := counts ▸ h.counts part
  sorted := h.sorted
  entered x mem := Nat.le_trans (h.entered x mem) part
  placed := h.placed

theorem Shows.restored {asked : Option Section} (h : r.Shows items) (same : Restored asked r r') :
    r'.Shows items := by
  -- A later section may have been entered, and then it is later than that of every item, too.
  refine h.congr same.octets same.table same.counts ?_
  rcases same.part with same | ⟨-, later⟩
  · exact Nat.le_of_eq (congrArg Section.index same).symm
  · exact Nat.le_of_lt later

/-- Writing to the header is of no consequence for what stands behind it. -/
theorem Shows.overwrite (h : r.Shows items) {place : Nat} {o : Octets}
    (inside : place + o.length ≤ HeaderSection.length) :
    { r with draft := r.draft.overwrite place o }.Shows items := by
  have size : (r.draft.overwrite place o).size = r.draft.size := size_overwrite o _ _
  have kept := r.draft.overwrite_keeps inside
  refine ⟨h.sound.keeps kept (fun _ _ hi => hi) rfl, ?_, ?_, h.counts, h.sorted, h.entered,
    h.placed⟩
  · exact Nat.le_trans h.size (Nat.le_of_eq size.symm)
  · show Item.Chain _ _ _ _ (r.draft.overwrite place o).size
    rw [size]
    exact h.chain.keeps kept fun _ _ hi => hi

theorem Shows.writeHeader (h : r.Shows items) : r.writeHeader.Shows items :=
  h.overwrite (Nat.le_of_eq (by rw [Nat.zero_add, length_header]))

theorem get_set (c : Counts) (part other : Section) (n : UInt16) :
    (c.set part n).get other = if other = part then n else c.get other := by
  cases part <;> cases other <;> rfl

theorem counts_ext {a b : Counts} (h : ∀ part, a.get part = b.get part) : a = b := by
  cases a
  cases b
  rw [Counts.mk.injEq]
  exact ⟨h .question, h .answer, h .authority, h .additional⟩

/-- An addition that succeeds puts its items behind all others. -/
theorem Shows.add {compose : Option Name → Composer Nat} {entries : List Addition}
    (h : r.Shows items) (adds : (compose r.origin).Adds r.origin part entries)
    (run : r.add part compose = (.ok (), r')) :
    ∃ new, List.Forall₂ (Addition.Found r.origin) entries new ∧ r'.Shows (items ++ new) := by
  obtain ⟨later, n, draft, composed, -, few, rfl⟩ := add_ok run
  obtain ⟨rfl, grown, sound, new, all, parts, chain⟩ :=
    adds behindHeader r.draft draft n (fun i hi => Nat.le_trans h.size hi) h.sound composed
  have length := all.length_eq
  have placed := fun x mem => (parts x mem).2
  replace parts := fun x mem => (parts x mem).1
  have kept := grown.kept.mono fun i _ (_ : behindHeader i) => trivial
  refine ⟨new, all, sound, Nat.le_trans h.size grown.size_le, ?_, fun other => ?_, ?_, ?_,
    fun x mem => (List.mem_append.mp mem).elim (h.placed x) (placed x)⟩
  · exact Item.chain_append.mpr ⟨_, h.chain.keeps kept fun _ _ hi => hi, chain⟩
  · rw [get_set, List.countP_append, countP_part parts, ← h.counts]
    split
    · rename_i same
      subst same
      -- The number has not wrapped around, for the transaction has checked it.
      rw [UInt16.toNat_ofNat', ← length]
      exact Nat.mod_eq_of_lt (Nat.lt_succ_of_le few)
    · rfl
  · refine List.pairwise_append.mpr ⟨h.sorted, ?_, fun x hx y hy => ?_⟩
    · exact List.pairwise_of_forall_mem_list fun x hx y hy =>
        Nat.le_of_eq (by rw [parts x hx, parts y hy])
    · rw [parts y hy]
      exact Nat.le_trans (h.entered x hx) later
  · intro x mem
    rcases List.mem_append.mp mem with old | fresh
    · exact Nat.le_trans (h.entered x old) later
    · exact Nat.le_of_eq (congrArg Section.index (parts x fresh))

theorem Shows.bounded (h : r.Shows items) : r.draft.Bounded := fun n p there =>
  (h.sound n p there).2.1

theorem add_origin {compose : Option Name → Composer Nat}
    (run : r.add part compose = (.ok (), r')) : r'.origin = r.origin := by
  obtain ⟨-, n, draft, -, -, -, rfl⟩ := add_ok run
  rfl

theorem Shows.addRdataset {owner : Name} {set : Rdataset} {form : RecordForm} (h : r.Shows items)
    (documented : ∀ a ∈ Call.recordsOf part owner set form, Addition.Documented a)
    (run : r.addRdataset part owner set form = (.ok (), r')) :
    ∃ new, List.Forall₂ (Addition.Found r.origin) (Call.recordsOf part owner set form) new ∧
      r'.Shows (items ++ new) := by
  have each : ∀ r ∈ set.records owner, part ≠ .question ∧ r.data.Documented := fun r mem =>
    documented (part, .record r form) (List.mem_map_of_mem mem)
  exact h.add (Composer.rdataset_adds each r.origin) run

end Renderer

/-! ## Runs

The step lemma is `Call.perform_shows` and the run lemma `Call.run_shows`. A run is taken from any
renderer, with the items that it shows already, so that the induction has something to say about the
rest of the calls. Calls that fail need no case of their own in these: what they leave is
`Restored`, and that shows the same items. The message is read only at the end of the run, when the
header has been written. -/

open Renderer

variable {r r' : Renderer} {items : List (Section × Item)}

/-- A call that succeeds puts the items of its entries behind all others. -/
theorem Call.perform_shows {c : Call} (h : r.Shows items)
    (documented : ∀ a ∈ c.entries r, Addition.Documented a) (run : c.perform r = (.ok (), r')) :
    r'.origin = r.origin ∧ ∃ new, List.Forall₂ (Addition.Found r.origin) (c.entries r) new ∧
      r'.Shows (items ++ new) := by
  -- By what the call has done: entries are read back as they were found, and where nothing was
  -- added, what is shown is as before.
  cases Call.effect_of_ok run with
  | question q entries added =>
    rw [entries]
    exact ⟨add_origin added, h.add (Composer.question_adds q r.origin) added⟩
  | records part owner set form r₁ wasPadded entries added same =>
    subst same
    rw [entries] at documented ⊢
    obtain ⟨new, all, shows⟩ := h.addRdataset documented added
    have origin : r₁.origin = r.origin := add_origin added
    exact ⟨origin, new, all, shows.congr rfl (.refl _) rfl (Nat.le_refl _)⟩
  | header is same =>
    subst is same
    refine ⟨by rw [Renderer.writeHeader], [], .nil, ?_⟩
    rw [List.append_nil]
    exact h.writeHeader
  | nothing entries draft counts origin later =>
    rw [entries]
    refine ⟨origin, [], .nil, ?_⟩
    rw [List.append_nil]
    exact h.congr (by rw [draft]) (by rw [draft]; exact .refl _) counts later

/-- All calls of a run put the items of their entries behind each other. -/
theorem Call.run_shows (calls : List Call) (h : r.Shows items)
    (documented : ∀ a ∈ added calls r, Addition.Documented a) :
    (run calls r).origin = r.origin ∧ ∃ new,
      List.Forall₂ (Addition.Found r.origin) (added calls r) new ∧
        (run calls r).Shows (items ++ new) := by
  induction calls generalizing r items with
  | nil => exact ⟨rfl, [], .nil, by rwa [List.append_nil]⟩
  | cons c rest ih =>
    rw [added] at documented ⊢
    have step : run (c :: rest) r = run rest (c.perform r).2 := rfl
    rw [step]
    rcases result : c.perform r with ⟨outcome, r₁⟩
    rw [result] at documented
    cases outcome with
    | ok =>
      obtain ⟨same, new, all, shows⟩ := c.perform_shows h
        (fun a mem => documented a (List.mem_append_left _ mem)) result
      obtain ⟨same', new', all', shows'⟩ := ih shows
        fun a mem => documented a (List.mem_append_right _ mem)
      rw [same] at same' all'
      refine ⟨same', new ++ new', List.rel_append all all', ?_⟩
      rwa [← List.append_assoc]
    | error e =>
      -- A call that failed adds no items, and those from before are still shown.
      have same := c.perform_error h.bounded result
      obtain ⟨same', new, all, shows⟩ := ih (h.restored same) documented
      rw [same.origin] at same' all
      exact ⟨same', new, all, shows⟩

/-- A renderer that shows items shows the contents of a message. -/
theorem Renderer.Shows.exists_contents (h : r.Shows items) : ∃ c : Contents, c.Plain ∧
    c.items = items ∧ ∀ part, (r.counts.get part).toNat = c.sectionLength part := by
  obtain ⟨c, plain, rfl⟩ := Dns.exists_contents items h.sorted h.placed
  exact ⟨c, plain, rfl, fun part => (h.counts part).trans (c.countP_items part)⟩

theorem Renderer.octets_writeHeader (r : Renderer) : r.writeHeader.octets
    = Octets.overwrite r.octets 0 (HeaderSection.wire ⟨⟨r.id, r.flags⟩, r.counts⟩) := by
  rw [Renderer.octets, writeHeader, Draft.overwrite, Renderer.octets]

theorem Renderer.holds_header (h : r.Shows items) :
    Holds r.writeHeader.octets 0 (HeaderSection.wire ⟨⟨r.id, r.flags⟩, r.counts⟩) := by
  rw [octets_writeHeader]
  refine holds_overwrite _ ?_
  rw [Nat.zero_add, length_header]
  exact h.size

/-- Whatever was done to a renderer, in whatever order and with whatever success: once the header
is written, the message can be read, and it holds the entries that were added, in this order. -/
theorem Call.message_of_run (id flags : UInt16) (maxSize : Nat) (origin : Option Name)
    (time : Time48) (calls : List Call)
    (documented : ∀ a ∈ added calls (start id flags maxSize origin time), Addition.Documented a) :
    let r := run calls (start id flags maxSize origin time)
    ∃ m, Message.ofOctets r.writeHeader.octets = .ok m ∧
      m.header.header = ⟨r.id, r.flags⟩ ∧ m.header.counts = r.counts ∧
      (∀ part, m.sectionLength part = (r.counts.get part).toNat) ∧
      List.Forall₂ (Addition.Found origin) (added calls (start id flags maxSize origin time))
        m.contents.items := by
  intro r
  obtain ⟨-, items, all, shows⟩ :=
    run_shows calls (start_shows id flags maxSize origin time) documented
  obtain ⟨c, plain, same, counts⟩ := shows.exists_contents
  -- The header is written over octets that no item depends on.
  have header := holds_header shows
  have chain := shows.writeHeader.chain
  rw [← same] at chain
  -- Behind the items that were added there is nothing more.
  have additional : r.counts.additional.toNat = c.additional.length + 0 := counts .additional
  have message := Message.ofOctets_of_chain header plain (.refl _ _) chain (counts .question)
    (counts .answer) (counts .authority) additional rfl
  have whole : (⟨c.question, c.answer, c.authority, c.additional.reverse.reverse⟩ : Contents)
      = c := by rw [List.reverse_reverse]
  refine ⟨_, message, rfl, rfl, fun part => ?_, ?_⟩
  · rw [counts part]
    cases part <;> simp [Message.sectionLength, Contents.sectionLength]
  · rw [Message.contents, whole, same]
    exact all

/-- A message with an answer; the question comes too late. -/
theorem Call.message_of_answer :
    let calls : List Call := [.addRdataset .answer Name.root
      (.ofRdata Class.internet 60 (.a ⟨[192, 0, 2, 1], rfl⟩)) { canonical := true },
      .addQuestion ⟨Name.root, ⟨1⟩, Class.internet⟩]
    let r := run calls (start 1 0 512 none ⟨0⟩)
    added calls (start 1 0 512 none ⟨0⟩) = [(.answer,
      .record ⟨Name.root, Class.internet, 60, .a ⟨[192, 0, 2, 1], rfl⟩⟩ { canonical := true })] ∧
    ∃ m, Message.ofOctets r.writeHeader.octets = .ok m ∧
      m.header.header = ⟨r.id, r.flags⟩ ∧ m.header.counts = r.counts ∧
      (∀ part, m.sectionLength part = (r.counts.get part).toNat) ∧
      List.Forall₂ (Addition.Found none) (added calls (start 1 0 512 none ⟨0⟩))
        m.contents.items := by
  intro calls r
  have answer : added calls (start 1 0 512 none ⟨0⟩) = [(.answer,
      .record ⟨Name.root, Class.internet, 60, .a ⟨[192, 0, 2, 1], rfl⟩⟩ { canonical := true })]
      := by
    simp only [calls, added, perform, Renderer.addRdataset, Renderer.add,
      Rdataset.compose_ofRdata, entries, recordsOf, Rdataset.records_ofRdata]
    rfl
  have documented : ∀ a ∈ added calls (start 1 0 512 none ⟨0⟩), Addition.Documented a := by
    rw [answer]
    intro a mem
    cases List.mem_singleton.mp mem
    exact ⟨by decide, trivial⟩
  exact ⟨answer, message_of_run 1 0 512 none ⟨0⟩ calls documented⟩

/-- A record may be added to the questions, but it is read as a question with something behind
it. -/
theorem Call.record_among_questions :
    let calls : List Call := [.addRdataset .question Name.root
      (.ofRdata Class.internet 60 (.a ⟨[192, 0, 2, 1], rfl⟩)) { canonical := true }]
    let r := run calls (start 1 0 512 none ⟨0⟩)
    added calls (start 1 0 512 none ⟨0⟩) = [(.question,
      .record ⟨Name.root, Class.internet, 60, .a ⟨[192, 0, 2, 1], rfl⟩⟩ { canonical := true })] ∧
    RecordData.Documented (.a ⟨[192, 0, 2, 1], rfl⟩) ∧
    Message.ofOctets r.writeHeader.octets = .error (.malformed .trailingData) := by
  intro calls r
  refine ⟨?_, trivial, ?_⟩
  · simp only [calls, added, perform, Renderer.addRdataset, Renderer.add,
      Rdataset.compose_ofRdata, entries, recordsOf, Rdataset.records_ofRdata]
    rfl
  · have octets : r.writeHeader.octets = #[0, 1, 0, 0, 0, 1, 0, 0, 0, 0, 0, 0,
        0, 0, 1, 0, 1, 0, 0, 0, 60, 0, 4, 192, 0, 2, 1] := by
      simp only [r, calls, run, List.foldl, perform, Renderer.addRdataset, Renderer.add,
        Rdataset.compose_ofRdata]
      rfl
    rw [octets]
    cbv

end Dns
