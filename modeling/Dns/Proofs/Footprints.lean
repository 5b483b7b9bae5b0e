import Dns.Proofs.Parsed
import Dns.Proofs.Signatures

/-!
# Where a message is read

Most fields are read from the octets that reading passes, one after the other. A name is not: its
pointers lead to earlier octets of the message, and a label that begins there may go on to anywhere.
`Name.footprint` lists all octets that a name is read from.

It matters when a signature is taken away from a message, for this changes the number of additional
records in the header and cuts the message. A name may have been read from that number, or from the
octets of the signature itself, and then it is another name afterwards, or none. If no name was, the
rest of the message says the same as before (`Message.unsigned_same`). That the condition is not
empty words is shown by the two messages of `Message.unsigned_differs`. No renderer makes messages
like these; but they are accepted, and a receiver has to take what it gets.

Readers are sorted by what they look at.

* `Reader.Plain` is for those that go by the octets which they pass. All fields but names are like
  this, and it is closed under the ways in which readers are put together.
* A name is found again if all octets of its footprint are the same (`Name.read_finds`). This goes
  through `Name.Spelled`: what was read is spelled, and what is spelled is read.
* Entries are both, the octets that they take up and the footprints of their names (`Item.places`).

The second half of the theorem is about what is signed. Two messages with the same octets under
their signatures need not have been cut to the same length, so the statement has to cope with octets
of which one goes on from the other; it does, because the header tells how many entries there are,
and from one place on one row of entries is read (`Item.Chain.unique`).
-/

set_option autoImplicit false

namespace Dns

/-! ## Readers of the octets that they pass

For such a reader it is enough to compare two messages between the places where it began and ended.
The fields with octets of their own have been shown to be read back from these, and so most of this
follows from `ReadAs`. They are closed under `bind` like the relations of `Reading`. Where such a
reader succeeds, no octet in front of its start or behind its end has been looked at. -/

/-- Octets stand wherever the message is the same. -/
theorem Holds.of_same {m u : Array UInt8} {p : Nat} {o : Octets} (h : Holds m p o)
    (inside : p + o.length ≤ u.size) (same : ∀ i, p ≤ i → i < p + o.length → u[i]? = m[i]?) :
    Holds u p o :=
  ⟨inside, fun i hi =>
    (same (p + i) (Nat.le_add_right _ _) (Nat.add_lt_add_left hi p)).trans (h.2 i hi)⟩

/-- The reader goes by nothing but the octets that it passes. -/
structure Reader.Plain {α : Type} (read : Reader α) : Prop where
  le : ∀ {m : Array UInt8} {p q : Nat} {a : α}, read m p = .ok a q → p ≤ q
  again : ∀ {m u : Array UInt8} {p q : Nat} {a : α}, read m p = .ok a q → q ≤ u.size →
    (∀ i, p ≤ i → i < q → u[i]? = m[i]?) → read u p = .ok a q

namespace Reader.Plain

variable {α β : Type} {read : Reader α}

theorem of_readAs (h : ∀ {m : Array UInt8} {p q : Nat} {a : α}, read m p = .ok a q →
    ∃ o, Spans m p o q ∧ ReadAs o read a) : read.Plain where
  le run := by
    obtain ⟨o, spans, -⟩ := h run
    exact spans.stop ▸ Nat.le_add_right _ _
  again {m u p q a} run inside same := by
    obtain ⟨o, ⟨holds, rfl⟩, back⟩ := h run
    exact back _ p (holds.of_same inside same)

theorem pure (a : α) : (Pure.pure a : Reader α).Plain where
  le run := by
    cases run
    exact Nat.le_refl _
  again run _ _ := by
    cases run
    rfl

theorem bind {k : α → Reader β} (h : read.Plain) (g : ∀ a, (k a).Plain) : (read >>= k).Plain where
  le run := by
    obtain ⟨a, s, first, second⟩ := bind_ok run
    exact Nat.le_trans (h.le first) ((g a).le second)
  again run inside same := by
    obtain ⟨a, s, first, second⟩ := bind_ok run
    have le := h.le first
    have le' := (g a).le second
    rw [bind_apply, h.again first (Nat.le_trans le' inside) fun i hp hi => same i hp (by omega)]
    exact (g a).again second inside fun i hp hi => same i (by omega) hi

theorem functor (f : α → β) (h : read.Plain) : (f <$> read).Plain :=
  h.bind fun a => .pure (f a)

theorem fail (cause : ParseError) : (Reader.fail cause : Reader α).Plain where
  le run := by cases run
  again run _ _ := by cases run

theorem position : Reader.position.Plain where
  le run := by
    cases run
    exact Nat.le_refl _
  again run _ _ := by
    cases run
    rfl

theorem take (count : Nat) : (Reader.take count).Plain := of_readAs fun run => by
  obtain ⟨rfl, spans⟩ := take_ok run
  exact ⟨_, spans, readAs_take _⟩

theorem number (width : Nat) : (Reader.number width).Plain := (take width).functor _

theorem registered [Registered α] : (Registered.read : Reader α).Plain := (number _).functor _

theorem uint16 : Reader.uint16.Plain := (number 2).functor _

theorem uint32 : Reader.uint32.Plain := (number 4).functor _

theorem uint64 : Reader.uint64.Plain := (number 8).functor _

theorem exactly {count : Nat} {make : (o : Octets) → o.length = count → α} :
    (Reader.exactly count make).Plain := of_readAs fun run => by
  obtain ⟨o, length, rfl, spans⟩ := exactly_ok run
  exact ⟨o, spans, readAs_exactly length⟩

theorem charString : CharString.read.Plain := of_readAs fun run =>
  ⟨_, charString_spells run, readAs_charString _⟩

theorem data : Data.read.Plain := of_readAs fun run => ⟨_, data_spells run, readAs_data _⟩

theorem option : EdnsOption.read.Plain := registered.bind fun _ => data.functor _

/-- Items up to a place: how far reading goes depends on the items only. -/
theorem itemsUpTo (h : read.Plain) (stop count : Nat) (found : List α) :
    (Reader.itemsUpTo read stop count found).Plain := by
  induction count generalizing found with
  | zero => exact pure _
  | succ count ih =>
    -- One more item is an item and the items behind it, unless reading is there already.
    have unfold : ∀ {m : Array UInt8} {p : Nat}, Reader.itemsUpTo read stop (count + 1) found m p
        = if p < stop then (read >>= fun a => Reader.itemsUpTo read stop count (a :: found)) m p
          else .ok found.reverse p := rfl
    have more := h.bind fun a => ih (a :: found)
    refine ⟨fun run => ?_, fun run inside same => ?_⟩
    · rw [unfold] at run
      split at run
      · exact more.le run
      · cases run
        exact Nat.le_refl _
    · rw [unfold] at run ⊢
      split at run
      · rename_i before
        rw [if_pos before]
        exact more.again run inside same
      · rename_i behind
        rw [if_neg behind]
        exact run

theorem itemsUntil (h : read.Plain) (stop : Nat) : (Reader.itemsUntil read stop).Plain :=
  ⟨fun run => (h.itemsUpTo stop _ []).le run, fun run => (h.itemsUpTo stop _ []).again run⟩

/-- What was read of some octets is found wherever these octets are. -/
theorem finds {m u : Array UInt8} {p q : Nat} {a : α} (h : read.Plain) (run : read m p = .ok a q)
    (inside : q ≤ u.size) (same : ∀ i, p ≤ i → i < q → u[i]? = m[i]?) :
    read.Finds Draft.everywhere u a p q := by
  intro v keeps
  refine h.again run (Nat.le_trans inside keeps.1) fun i hp hi => ?_
  rw [keeps.2 i (Nat.lt_of_lt_of_le hi inside) trivial, same i hp hi]

end Reader.Plain

/-! ## Names

`Name.footprint` follows the loop that reads a name and has its measure. It lists the length octet
and the content of each label and both octets of each pointer. Where reading fails the list is of no
consequence; it goes as far as reading got. Octets that agree at these places spell the same name,
by induction on the cases of the loop: the octets that a round looks at are on the list. -/

namespace Name

/-- The octets that a name is read from, from a place on: its labels, its pointers, and those that
the pointers lead to. -/
def footprint (message : Array UInt8) (limit pos : Nat) : List Nat :=
  match message[pos]? with
  | none => []
  | some octet =>
    if octet = 0 then [pos]
    else if octet < 64 then
      List.range' pos (octet.toNat + 1) ++
        if _inside : pos + 1 + octet.toNat ≤ message.size then
          footprint message limit (pos + 1 + octet.toNat)
        else []
    else if octet < 192 then [pos]
    else
      match message[pos + 1]? with
      | none => [pos]
      | some low =>
        let target := (octet.toNat - 192) * 256 + low.toNat
        pos :: (pos + 1) ::
          if _backwards : target < limit then footprint message target target else []
termination_by (limit, message.size - pos)

/-- The octets that the name at a place is read from. -/
def places (message : Array UInt8) (pos : Nat) : List Nat := footprint message pos pos

section Footprint

variable {m u : Array UInt8} {limit pos : Nat} {octet low : UInt8}

theorem footprint_root (first : m[pos]? = some 0) : footprint m limit pos = [pos] := by
  rw [footprint]
  simp [first]

theorem footprint_label (first : m[pos]? = some octet) (positive : octet ≠ 0) (plain : octet < 64)
    (inside : pos + 1 + octet.toNat ≤ m.size) : footprint m limit pos
      = List.range' pos (octet.toNat + 1) ++ footprint m limit (pos + 1 + octet.toNat) := by
  rw [footprint]
  simp only [first, if_neg positive, if_pos plain, dif_pos inside]

theorem footprint_pointer (first : m[pos]? = some octet) (known : ¬octet < 192)
    (second : m[pos + 1]? = some low) (backwards : (octet.toNat - 192) * 256 + low.toNat < limit) :
    footprint m limit pos = pos :: (pos + 1) ::
      footprint m ((octet.toNat - 192) * 256 + low.toNat)
        ((octet.toNat - 192) * 256 + low.toNat) := by
  have positive : octet ≠ 0 := by
    rintro rfl
    exact known (by decide)
  have special : ¬octet < 64 := fun less => known (Nat.lt_trans less (by decide))
  rw [footprint]
  simp only [first, second, if_neg positive, if_neg special, if_neg known, dif_pos backwards]

/-- Octets that are the same as others stand where these stand. -/
theorem stands_of_same {o : Octets} (h : Holds m pos o) (some : o ≠ [])
    (same : ∀ i, pos ≤ i → i < pos + o.length → u[i]? = m[i]?) :
    Stands Draft.everywhere u pos o := by
  have length := List.length_pos_iff.mpr some
  -- The last of them is an octet of the message, and so are all.
  have last := (same (pos + (o.length - 1)) (by omega) (by omega)).trans (h.2 _ (by omega))
  obtain ⟨inside, -⟩ := Array.getElem?_eq_some_iff.mp last
  exact ⟨h.of_same (by omega) same, fun _ _ _ => trivial⟩

/-- A label as it was read. -/
theorem labelAt_spans (first : m[pos]? = some octet) (positive : octet ≠ 0) (plain : octet < 64)
    (inside : pos + 1 + octet.toNat ≤ m.size) :
    Spans m pos (labelAt m (pos + 1) octet positive plain inside).wire
      (pos + 1 + octet.toNat) :=
  spans_counted first inside

/-- Two octets that are read as a pointer are one. -/
theorem exists_pointer (low : UInt8) (known : ¬octet < 192) :
    ∃ target : Fin 0x4000, target.val = (octet.toNat - 192) * 256 + low.toNat ∧
      pointer target = [octet, low] := by
  have large : 192 ≤ octet.toNat := Nat.not_lt.mp fun less => known (UInt8.lt_iff_toNat_lt.mpr less)
  have high := octet.toNat_lt
  have rest := low.toNat_lt
  refine ⟨⟨(octet.toNat - 192) * 256 + low.toNat, by omega⟩, rfl, ?_⟩
  have number : 0xC000 + ((octet.toNat - 192) * 256 + low.toNat) = Octets.toNat [octet, low] := by
    show _ = (0 * 256 + octet.toNat) * 256 + low.toNat
    omega
  rw [pointer, number]
  exact Octets.ofNat_toNat [octet, low]

end Footprint

/-- A name that was read is spelled wherever the octets of its footprint are. -/
theorem exists_spelled {m u : Array UInt8} {limit pos q : Nat} {w : Walk} {n : Name}
    (h : readLabels m limit pos w = .ok n q) (same : ∀ i ∈ footprint m limit pos, u[i]? = m[i]?) :
    n.absolute = true ∧ ∃ labels stop, n.labels = w.labels ++ labels ∧
      q = w.resume.getD stop ∧ Spelled Draft.everywhere u limit labels pos stop := by
  -- The cases are those of reading. Three of them go on to a name: the root, a label, and a pointer
  -- backwards, which are the constructors of `Spelled`.
  fun_induction readLabels m limit pos w with
  | case1 | case3 | case5 | case6 | case7 | case8 | case10 => cases h
  | case2 limit pos w fits first =>
    cases h
    rw [footprint_root first] at same
    have here := stands_of_same (spans_octet first).holds (List.cons_ne_nil _ _) fun i hp hi =>
      same i (List.mem_singleton.mpr (Nat.le_antisymm (Nat.le_of_lt_succ hi) hp))
    exact ⟨rfl, [], pos + 1, (List.append_nil _).symm, rfl, .root here⟩
  | case4 limit pos w octet first positive plain inside labels fits ih =>
    rw [footprint_label first positive plain inside] at same
    obtain ⟨own, others⟩ := List.forall_mem_append.mp same
    obtain ⟨absolute, tail, stop, joined, back, spelled⟩ := ih h others
    obtain ⟨holds, reached⟩ := labelAt_spans first positive plain inside
    rw [reached] at spelled
    have here := stands_of_same (u := u) holds (List.cons_ne_nil _ _) fun i hp hi =>
      own i (List.mem_range'_1.mpr ⟨hp, by omega⟩)
    rw [Label.length_wire] at spelled
    refine ⟨absolute, _ :: tail, stop, ?_, back, .label here spelled⟩
    rw [joined, List.append_assoc]
    rfl
  | case9 limit pos w octet first positive special known low second target backwards ih =>
    rw [footprint_pointer first known second backwards] at same
    obtain ⟨high, others⟩ := List.forall_mem_cons.mp same
    obtain ⟨next, others⟩ := List.forall_mem_cons.mp others
    obtain ⟨absolute, tail, stop, joined, back, spelled⟩ := ih h others
    obtain ⟨place, leads, octets⟩ := exists_pointer low known
    have holds : Holds m pos (pointer place) := by
      rw [octets]
      exact ((spans_octet first).append (spans_octet second)).holds
    -- A pointer stands in the other message if its two octets do.
    have here := stands_of_same (u := u) holds (by rw [octets]; exact List.cons_ne_nil _ _)
      fun i hp hi => by
        rw [length_pointer] at hi
        obtain rfl | rfl : i = pos ∨ i = pos + 1 := by omega
        · exact high
        · exact next
    have target_eq : target = place.val := leads.symm
    rw [target_eq] at spelled backwards
    exact ⟨absolute, tail, pos + 2, joined, back, .pointer here backwards spelled⟩

theorem Spelled.lt_stop {fixed : Nat → Prop} {o : Array UInt8} {limit pos stop : Nat}
    {labels : List Label} (h : Spelled fixed o limit labels pos stop) : pos < stop := by
  induction h with
  | root => exact Nat.lt_succ_self _
  | label _ _ ih => exact Nat.lt_of_le_of_lt (Nat.le_add_right _ _) ih
  | pointer => exact Nat.lt_add_of_pos_right (by decide)

/-- A name that was read is found wherever the octets that it was read from are. -/
theorem read_finds {m u : Array UInt8} {p q : Nat} {n : Name} (h : Name.read m p = .ok n q)
    (same : ∀ i ∈ places m p, u[i]? = m[i]?) :
    p < q ∧ Name.read.Finds Draft.everywhere u n p q := by
  obtain ⟨absolute, labels, stop, rfl, rfl, spelled⟩ := exists_spelled h same
  obtain ⟨labels', flag, fits⟩ := n
  cases absolute
  exact ⟨spelled.lt_stop, spelled.finds fits⟩

theorem read_advances {m : Array UInt8} {p q : Nat} {n : Name} (h : Name.read m p = .ok n q) :
    p < q := (read_finds h fun _ _ => rfl).1

end Name

/-! ## Entries

A record tells where its data begin only by its owner, which is why the places of its names depend
on what is read. The result of reading the owner is used for that, and not its length, since names
that are read may be longer than the octets they take up. Each record contributes its own range and
the places that its names lead to. What lies elsewhere, in another record or in the header, is of no
interest to it. -/

/-- The octets that the names in data of a form are read from. -/
def RdataKind.places (m : Array UInt8) (p : Nat) : RdataKind → List Nat
  | .ns | .cname | .ptr | .tsig => Name.places m p
  | .mx | .lp => Name.places m (p + 2)
  | .soa => Name.places m p ++ Name.places m (Name.read m p).pos
  | _ => []

namespace Item

/-- The octets that the names of an item are read from, which starts at a place of the message. Ten
octets stand between the owner of a record and its data. -/
def places (m : Array UInt8) (p : Nat) : Item → List Nat
  | question _ => Name.places m p
  | record r => Name.places m p ++
      match r.data.kind? with
      | some kind => kind.places m ((Name.read m p).pos + 10)
      | none => []

/-- The place behind an item. -/
def stop (m : Array UInt8) (p : Nat) : Item → Nat
  | question _ => (Question.read m p).pos
  | record _ => (Record.read m p).pos

/-- The octets that the names of items are read from, which stand one after the other. -/
def placesOf (m : Array UInt8) : List (Section × Item) → (p : Nat) → List Nat
  | [], _ => []
  | (_, x) :: rest, p => x.places m p ++ placesOf m rest (x.stop m p)

end Item

section Entries

variable {m u : Array UInt8} {p q : Nat}

theorem RecordData.readSoa_finds {s : Soa} (h : readSoa m p = .ok s q) (inside : q ≤ u.size)
    (own : ∀ i, p ≤ i → i < q → u[i]? = m[i]?)
    (names : ∀ i ∈ Name.places m p ++ Name.places m (Name.read m p).pos, u[i]? = m[i]?) :
    p ≤ q ∧ readSoa.Finds Draft.everywhere u s p q := by
  obtain ⟨mname, p₁, read₁, h⟩ := Reader.bind_ok h
  obtain ⟨rname, p₂, read₂, rest⟩ := Reader.bind_ok h
  rw [read₁] at names
  obtain ⟨names₁, names₂⟩ := List.forall_mem_append.mp names
  obtain ⟨lt₁, finds₁⟩ := Name.read_finds read₁ names₁
  obtain ⟨lt₂, finds₂⟩ := Name.read_finds read₂ names₂
  have serial : Serial.read.Plain := Reader.Plain.uint32.functor _
  have numbers := serial.bind fun serial => Reader.Plain.uint32.bind fun refresh =>
    Reader.Plain.uint32.bind fun retry => Reader.Plain.uint32.bind fun expire =>
      Reader.Plain.uint32.bind fun minimum =>
        .pure (⟨mname, rname, serial, refresh, retry, expire, minimum⟩ : Soa)
  have le := numbers.le rest
  exact ⟨by omega, finds₁.bind (finds₂.bind
    (numbers.finds rest inside fun i hp hi => own i (by omega) hi))⟩

/-- Data without names are read from the octets that they take up. -/
theorem RecordData.readKind_plain (length : Nat) {kind : RdataKind}
    (nameless : kind ∉ [.ns, .cname, .soa, .ptr, .mx, .lp, .tsig]) :
    (readKind length kind).Plain := by
  cases kind with
  | ns | cname | soa | ptr | mx | lp | tsig => exact absurd (by decide) nameless
  | a => exact Reader.Plain.exactly.functor _
  | aaaa => exact Reader.Plain.exactly.functor _
  | hinfo => exact Reader.Plain.charString.bind fun _ => Reader.Plain.charString.functor _
  | x25 => exact Reader.Plain.charString.functor _
  | txt =>
    refine Reader.Plain.position.bind fun _ =>
      (Reader.Plain.charString.itemsUntil _).bind fun strings => ?_
    cases strings with
    | nil => exact .fail _
    | cons first rest => exact .pure _
  | opt => exact Reader.Plain.position.bind fun _ => (Reader.Plain.option.itemsUntil _).functor _
  | nid =>
    simp only [readKind, readNodeId]
    split
    · exact .fail _
    · exact Reader.Plain.uint16.bind fun _ => Reader.Plain.uint64.functor _
  | l32 => exact Reader.Plain.uint16.bind fun _ => Reader.Plain.exactly.functor _
  | l64 => exact Reader.Plain.uint16.bind fun _ => Reader.Plain.uint64.functor _

/-- Data that were read are found wherever their octets and those of their names are. -/
theorem RecordData.readKind_finds {kind : RdataKind} {length : Nat} {d : RecordData}
    (h : readKind length kind m p = .ok d q) (signature : kind ≠ .tsig) (inside : q ≤ u.size)
    (own : ∀ i, p ≤ i → i < q → u[i]? = m[i]?) (names : ∀ i ∈ kind.places m p, u[i]? = m[i]?) :
    p ≤ q ∧ (readKind length kind).Finds Draft.everywhere u d p q := by
  cases kind with
  | ns | cname | ptr =>
    obtain ⟨n, read, rfl⟩ := Reader.map_ok h
    obtain ⟨lt, finds⟩ := Name.read_finds read names
    exact ⟨Nat.le_of_lt lt, finds.functor _⟩
  -- Two octets and a name: the octets belong to the range of the record, and the name has its own
  -- places.
  | mx | lp =>
    obtain ⟨preference, s, number, h⟩ := Reader.bind_ok h
    obtain ⟨n, t, read, last⟩ := Reader.bind_ok h
    cases last
    obtain rfl := (uint16_spells number).stop
    obtain ⟨lt, finds⟩ := Name.read_finds read names
    have two := Wire.length_uint16 preference
    refine ⟨by omega, Reader.Finds.bind (Reader.Plain.uint16.finds number (by omega)
      fun i hp hi => own i hp (by omega)) (finds.bind (.pure _ _))⟩
  | soa =>
    obtain ⟨s, read, rfl⟩ := Reader.map_ok h
    obtain ⟨le, finds⟩ := readSoa_finds read inside own names
    exact ⟨le, finds.functor _⟩
  | tsig => exact absurd rfl signature
  | _ =>
    exact ⟨(readKind_plain length (by decide)).le h,
      (readKind_plain length (by decide)).finds h inside own⟩

theorem Question.read_finds {x : Question} (h : Question.read m p = .ok x q)
    (inside : q ≤ u.size) (own : ∀ i, p ≤ i → i < q → u[i]? = m[i]?)
    (names : ∀ i ∈ Name.places m p, u[i]? = m[i]?) :
    p ≤ q ∧ Question.read.Finds Draft.everywhere u x p q := by
  obtain ⟨s, name, type, ofClass, rfl, -⟩ := Question.read_ok h
  obtain ⟨lt, finds⟩ := Name.read_finds name names
  have type := Reader.Plain.registered.finds type (by omega) fun i hp hi => own i (by omega)
    (by omega)
  have ofClass := Reader.Plain.registered.finds ofClass (by omega) fun i hp hi => own i (by omega)
    (by omega)
  exact ⟨by omega, finds.bind (type.bind (ofClass.bind (.pure _ _)))⟩

/-- Data of any type that were read are found wherever their octets and those of their names
are. -/
theorem RecordData.readForm_finds {rtype : Rtype} {length : Nat} {d : RecordData}
    (h : readForm rtype length m p = .ok d q) (plain : d.kind? ≠ some .tsig) (inside : q ≤ u.size)
    (own : ∀ i, p ≤ i → i < q → u[i]? = m[i]?)
    (names : ∀ kind, d.kind? = some kind → ∀ i ∈ kind.places m p, u[i]? = m[i]?) :
    p ≤ q ∧ (readForm rtype length).Finds Draft.everywhere u d p q := by
  cases known : RdataKind.ofRtype? rtype with
  | none =>
    simp only [readForm, known] at h ⊢
    have octets := (Reader.Plain.take length).functor (unknown rtype)
    exact ⟨octets.le h, octets.finds h inside own⟩
  | some kind =>
    simp only [readForm, known] at h ⊢
    have same := (readKind_ok h).1
    have signature : kind ≠ .tsig := by
      rintro rfl
      exact plain same
    exact readKind_finds h signature inside own (names kind same)

theorem Record.read_finds {r : Record} (h : Record.read m p = .ok r q)
    (plain : r.data.kind? ≠ some .tsig) (inside : q ≤ u.size)
    (own : ∀ i, p ≤ i → i < q → u[i]? = m[i]?)
    (names : ∀ i ∈ Item.places m p (.record r), u[i]? = m[i]?) :
    p ≤ q ∧ Record.read.Finds Draft.everywhere u r p q := by
  obtain ⟨s, rtype, length, name, type, ofClass, ttl, counted, data, stop, -⟩ := Record.read_ok h
  obtain ⟨namesOwner, namesData⟩ := List.forall_mem_append.mp names
  obtain ⟨lt, finds⟩ := Name.read_finds name namesOwner
  rw [name] at namesData
  obtain ⟨le, data⟩ := RecordData.readForm_finds data plain inside
    (fun i hp hi => own i (by omega) hi) fun kind same => by
      rw [same] at namesData
      exact namesData
  -- The four fields between the owner and the data are read in the same way.
  have code : ∀ {α : Type} {read : Reader α} {a : α} {p₁ p₂ : Nat}, read.Plain →
      read m p₁ = .ok a p₂ → p ≤ p₁ → p₂ ≤ q → read.Finds Draft.everywhere u a p₁ p₂ :=
    fun plain run lower upper =>
      plain.finds run (Nat.le_trans upper inside) fun i hp hi => own i (by omega) (by omega)
  refine ⟨by omega, finds.bind ((code .registered type (by omega) (by omega)).bind
    ((code .registered ofClass (by omega) (by omega)).bind
      ((code .uint32 ttl (by omega) (by omega)).bind
        ((code .uint16 counted (by omega) (by omega)).bind
          ((RecordData.finds_read data stop inside).bind (.pure _ _))))))⟩

/-- An item that was read is found wherever its octets and those of its names are. -/
theorem Item.ReadAt.finds {x : Section × Item} (h : x.2.ReadAt m p q) (placed : Item.Placed x)
    (inside : q ≤ u.size) (own : ∀ i, p ≤ i → i < q → u[i]? = m[i]?)
    (names : ∀ i ∈ x.2.places m p, u[i]? = m[i]?) :
    p ≤ q ∧ x.2.FindsAt Draft.everywhere u p q := by
  obtain ⟨part, y | r⟩ := x
  · exact Question.read_finds h inside own names
  · exact Record.read_finds h placed.2 inside own names

theorem Item.ReadAt.stop_eq {x : Item} (h : x.ReadAt m p q) : x.stop m p = q := by
  cases x with
  | question x => exact congrArg Outcome.pos h
  | record r => exact congrArg Outcome.pos h

theorem Item.ReadAt.lt {x : Item} (h : x.ReadAt m p q) : p < q := by
  cases x with
  | question x =>
    obtain ⟨s, name, -, -, stop, -⟩ := Question.read_ok h
    have further := Name.read_advances name
    omega
  | record r =>
    obtain ⟨s, rtype, length, name, -, -, -, -, -, stop, -⟩ := Record.read_ok h
    have further := Name.read_advances name
    omega

theorem Item.Row.le {items : List (Section × Item)} (h : Item.Row m items p q) : p ≤ q := by
  induction items generalizing p with
  | nil => exact Nat.le_of_eq h
  | cons x rest ih =>
    obtain ⟨s, first, others⟩ := h
    exact Nat.le_trans (Nat.le_of_lt first.lt) (ih others)

/-- Items that were read one after the other are found wherever their octets and those of their
names are. -/
theorem Item.Row.chain {items : List (Section × Item)} (h : Item.Row m items p q)
    (placed : ∀ x ∈ items, Item.Placed x) (inside : q ≤ u.size)
    (own : ∀ i, p ≤ i → i < q → u[i]? = m[i]?)
    (names : ∀ i ∈ Item.placesOf m items p, u[i]? = m[i]?) :
    Item.Chain Draft.everywhere u items p q := by
  induction items generalizing p with
  | nil => exact h
  | cons x rest ih =>
    obtain ⟨s, first, others⟩ := h
    obtain ⟨here, placed⟩ := List.forall_mem_cons.mp placed
    have le := others.le
    have le' := Nat.le_of_lt first.lt
    have first' : x.2.stop m p = s := first.stop_eq
    obtain ⟨names, namesRest⟩ := List.forall_mem_append.mp names
    rw [first'] at namesRest
    obtain ⟨-, found⟩ := first.finds here (Nat.le_trans le inside)
      (fun i hp hi => own i hp (by omega)) names
    exact ⟨s, found, ih others placed (fun i hp hi => own i (by omega) hi) namesRest⟩

end Entries

/-! ## Entries that octets tell

Between a message that was read and one that will be read stands `Contents.ToldBy`: it has what is
known of octets when their entries are *found* in them, so that it is not lost when the octets go
on. Two such contents of the same octets are one and the same (`Contents.ToldBy.unique`), and it
follows that a message is determined by what is told of it. -/

/-- Octets tell these entries: they are found behind a header that gives their numbers, and nothing
is behind them. No octets that may follow change that. -/
structure Contents.ToldBy (c : Contents) (h : HeaderSection) (u : Array UInt8) : Prop where
  header : Holds u 0 h.wire
  plain : c.Plain
  chain : Item.Chain Draft.everywhere u c.items HeaderSection.length u.size
  counts : ∀ part, (h.counts.get part).toNat = c.sectionLength part

/-- Octets that tell some entries are read as a message of these entries. -/
theorem Contents.ToldBy.message {c : Contents} {h : HeaderSection} {u : Array UInt8}
    (told : c.ToldBy h u) :
    ∃ m, Message.ofOctets u = .ok m ∧ m.header = h ∧ m.contents = c :=
  Message.exists_ofOctets told.header told.plain (.refl _ _) told.chain told.counts

/-- Items that are found are read from the octets themselves. -/
theorem Item.Chain.row {fixed : Nat → Prop} {o : Array UInt8} {xs : List (Section × Item)}
    {p q : Nat} (h : Item.Chain fixed o xs p q) : Item.Row o xs p q := by
  have here : ∀ {x : Item} {p q : Nat}, x.FindsAt fixed o p q → x.ReadAt o p q := by
    intro x p q found
    cases x with
    | question x => exact found o (.refl _ _)
    | record r => exact found o (.refl _ _)
  induction xs generalizing p with
  | nil => exact h
  | cons x rest ih =>
    obtain ⟨s, first, others⟩ := h
    exact ⟨s, here first, ih others⟩

/-- From one place on, one row of items of given sections is found. -/
theorem Item.Chain.unique {fixed : Nat → Prop} {o : Array UInt8} {xs ys : List (Section × Item)}
    {p q q' : Nat} (hx : Item.Chain fixed o xs p q) (hy : Item.Chain fixed o ys p q')
    (px : ∀ x ∈ xs, Item.Placed x) (py : ∀ y ∈ ys, Item.Placed y)
    (same : xs.map Prod.fst = ys.map Prod.fst) : xs = ys := by
  obtain ⟨rest, rfl, -⟩ := hx.row.goes_on hy.row (fun x mem => (px x mem).fits)
    (fun y mem => (py y mem).fits) (same ▸ List.prefix_rfl)
  rw [List.map_append, List.self_eq_append_right, List.map_eq_nil_iff] at same
  rw [same, List.append_nil]

theorem Contents.map_fst_items (c : Contents) : c.items.map Prod.fst =
    List.replicate (c.sectionLength .question) .question ++
      (List.replicate (c.sectionLength .answer) .answer ++
        (List.replicate (c.sectionLength .authority) .authority ++
          List.replicate (c.sectionLength .additional) .additional)) := by
  simp [items, questionItems, recordItems, sectionLength, Function.comp_def]

/-- Octets that go on alike tell the same. -/
theorem Contents.ToldBy.unique {c c' : Contents} {h h' : HeaderSection} {u u' whole : Array UInt8}
    (told : c.ToldBy h u) (told' : c'.ToldBy h' u') (keeps : Keeps Draft.everywhere u whole)
    (keeps' : Keeps Draft.everywhere u' whole) : h = h' ∧ c = c' := by
  -- Both headers are read from the same octets.
  have header : ∀ {v : Array UInt8} {h : HeaderSection}, Keeps Draft.everywhere v whole →
      Holds v 0 h.wire → HeaderSection.read whole 0 = .ok h (0 + h.wire.length) := by
    intro v h keeps holds
    refine readAs_header h whole 0 (holds.of_same (Nat.le_trans holds.1 keeps.1) ?_)
    exact fun i _ within => keeps.2 i (Nat.lt_of_lt_of_le within holds.1) trivial
  have both := (header keeps told.header).symm.trans (header keeps' told'.header)
  cases both
  have counts : ∀ part, c.sectionLength part = c'.sectionLength part := fun part =>
    (told.counts part).symm.trans (told'.counts part)
  have parts : c.items.map Prod.fst = c'.items.map Prod.fst := by
    simp only [map_fst_items, counts]
  obtain ⟨placed, -⟩ := told.plain.sorted
  obtain ⟨placed', -⟩ := told'.plain.sorted
  refine ⟨rfl, items_injective ?_⟩
  exact (told.chain.keeps keeps fun _ _ h => h).unique (told'.chain.keeps keeps' fun _ _ h => h)
    placed placed' parts

/-! ## Messages without their signature

Taking away a signature is done on octets alone, without reading the message again. It fails if the
place is in front of the end of the header or if there is no record to be counted. The number is
lowered by one in two octets of the header, and what is behind the place is cut off. A message is
told by the octets that remain, unless a name leads into those two. -/

/-- The entries of a message but for its last one. -/
def Message.withoutLast (m : Message) : Contents :=
  { m.contents with additional := m.additional.dropLast }

/-- The header of a message with one additional record less. -/
def Message.unsignedHeader (m : Message) : HeaderSection :=
  { m.header with counts.additional := m.header.counts.additional - 1 }

/-- The octets that the names of a message are read from, those of its last record excepted. -/
def Message.places (m : Message) : List Nat :=
  Item.placesOf m.octets m.withoutLast.items HeaderSection.length

theorem toNat_sub_one {n : UInt16} (some : n ≠ 0) : (n - 1).toNat = n.toNat - 1 := by
  have positive : n.toNat ≠ 0 := fun zero => some (UInt16.toNat_inj.mp zero)
  exact UInt16.toNat_sub_of_le _ _ (UInt16.le_iff_toNat_le.mpr (Nat.pos_of_ne_zero positive))

/-- A signature can be taken away from behind the header, if there is a record to be counted. -/
theorem exists_unsignedMessage {m : Array UInt8} {start : Nat} {n : UInt16}
    (behind : HeaderSection.length ≤ start) (inside : start ≤ m.size)
    (count : Holds m 10 (Wire.uint16 n)) (some : n ≠ 0) :
    ∃ u : Array UInt8, unsignedMessage m.toList start = .ok u.toList ∧ u.size = start ∧
      Holds u 10 (Wire.uint16 (n - 1)) ∧ ∀ i, i < 10 ∨ 12 ≤ i ∧ i < start → u[i]? = m[i]? := by
  have number : Octets.toNat ((m.toList.drop 10).take 2) = n.toNat := by
    rw [count.take_drop (Octets.length_ofNat 2 _), Wire.uint16, Octets.toNat_ofNat]
    exact Nat.mod_eq_of_lt n.toNat_lt
  have nonzero : n.toNat ≠ 0 := fun zero => some (UInt16.toNat_inj.mp zero)
  have less := toNat_sub_one some
  -- The message without its signature is three pieces: what is in front of the number, the number,
  -- and what is behind it up to the signature.
  let front := m.toList.take 10
  let back := (m.toList.take start).drop 12
  have frontLength : front.length = 10 := by
    have length : HeaderSection.length = 12 := rfl
    simp only [front, List.length_take, Array.length_toList]
    omega
  have backLength : back.length = start - 12 := by
    simp only [back, List.length_drop, List.length_take, Array.length_toList]
    omega
  have two := Wire.length_uint16 (n - 1)
  have whole := holds_toArray (front ++ (Wire.uint16 (n - 1) ++ back))
  obtain ⟨first, rest⟩ := holds_append.mp whole
  obtain ⟨middle, last⟩ := holds_append.mp rest
  rw [frontLength, Nat.zero_add] at middle last
  rw [two] at last
  refine ⟨(front ++ (Wire.uint16 (n - 1) ++ back)).toArray, ?_, ?_, middle, ?_⟩
  · have there : ¬(start < HeaderSection.length ∨ m.toList.length < start) := by
      rw [Array.length_toList]
      omega
    rw [unsignedMessage, if_neg there]
    simp only [HeaderSection.additionalCountOffset, number, nonzero, if_false, ← less,
      List.append_assoc]
    rfl
  · have length : HeaderSection.length = 12 := rfl
    rw [List.size_toArray, List.length_append, List.length_append, frontLength, two, backLength]
    omega
  · rintro i (before | ⟨after, within⟩)
    · have octet := first.2 i (by omega)
      rw [Nat.zero_add] at octet
      rw [octet, ← List.getElem?_eq_getElem, List.getElem?_take_of_lt before,
        Array.getElem?_toList]
    · have octet := last.2 (i - 12) (by omega)
      have place : 10 + 2 + (i - 12) = i := by omega
      rw [place] at octet
      have place' : 12 + (i - 12) = i := by omega
      rw [octet, ← List.getElem?_eq_getElem, List.getElem?_drop, place',
        List.getElem?_take_of_lt within, Array.getElem?_toList]

/-- The signature of a message that was read can be taken away, and the octets that are left tell
the other entries, if those that the names were read from have not changed. -/
theorem Message.ReadFrom.exists_unsigned {message : Message} {m : Array UInt8} {c : Contents}
    {start : Nat} {r : Record} (h : message.ReadFrom m c start [r]) :
    ∃ u : Array UInt8, unsignedMessage m.toList start = .ok u.toList ∧
      ((∀ i ∈ message.places, u[i]? = m[i]?) →
        message.withoutLast.ToldBy message.unsignedHeader u) := by
  obtain ⟨placed, -⟩ := h.plain.sorted
  have header := (header_spells h.header).holds
  have before : HeaderSection.length ≤ m.size := (header_spells h.header).inside
  obtain ⟨id, flags, question, answer, authority, additional⟩ := holds_header_iff.mp header
  have count : message.header.counts.additional.toNat = c.additional.length + 1 := h.additional
  have some : message.header.counts.additional ≠ 0 := by
    intro zero
    rw [zero] at count
    cases count
  have behind := h.row.le
  obtain ⟨u, cut, size, count', same⟩ :=
    exists_unsignedMessage behind (h.row.inside before) additional some
  refine ⟨u, cut, fun names => ?_⟩
  have whole : message.withoutLast = c := by
    have contents := h.contents
    have last : message.additional = c.additional ++ [r] := congrArg Contents.additional contents
    rw [withoutLast, contents, last, List.dropLast_concat]
  rw [places, whole, h.octets] at names
  rw [whole]
  have length : HeaderSection.length = 12 := rfl
  -- Of the six numbers in the header, five are as they were.
  have kept : ∀ {p : Nat} {n : UInt16}, p + 2 ≤ 10 → Holds m p (Wire.uint16 n) →
      Holds u p (Wire.uint16 n) := by
    intro p n inside holds
    have two := Wire.length_uint16 n
    refine holds.of_same (by omega) fun i _ within => same i (.inl ?_)
    omega
  refine ⟨holds_header_iff.mpr ⟨kept (by decide) id, kept (by decide) flags,
    kept (by decide) question, kept (by decide) answer, kept (by decide) authority, count'⟩,
    h.plain, ?_, ?_⟩
  · rw [size]
    exact h.row.chain placed (Nat.le_of_eq size.symm)
      (fun i after within => same i (.inr ⟨after, within⟩)) names
  · intro part
    cases part with
    | question => exact h.question
    | answer => exact h.answer
    | authority => exact h.authority
    | additional =>
      show (message.header.counts.additional - 1).toNat = c.additional.length
      rw [toNat_sub_one some, count]
      rfl

/-! ## What signed octets tell

What is signed is the message without identifier, then the fields of the signature. Equal inputs
give messages of which one goes on from the other at least, and that is all that is needed. A name
that is read over the number of additional records is another one when that number is lowered. The
last theorem gives two messages of this kind: they are signed alike, and they do not say the same.
-/

/-- A message was read from octets, it is signed, and these are the octets without its signature:
they are the same where its names were read. -/
structure Message.SignedOver (m : Message) (octets : Array UInt8) (t : Tsig) (u : Array UInt8) :
    Prop where
  read : ofOctets octets = .ok m
  cut : ∃ owner start, m.tsig? = some (owner, t, start) ∧
    unsignedMessage octets.toList start = .ok u.toList
  names : ∀ i ∈ m.places, u[i]? = octets[i]?

/-- A message that is signed can be read without its signature. -/
theorem Message.exists_unsigned {octets : Array UInt8} {m : Message} {owner : Name} {t : Tsig}
    {start : Nat} (read : ofOctets octets = .ok m) (signed : m.tsig? = some (owner, t, start)) :
    ∃ u : Array UInt8, unsignedMessage octets.toList start = .ok u.toList ∧
      ((∀ i ∈ m.places, u[i]? = octets[i]?) → m.withoutLast.ToldBy m.unsignedHeader u) := by
  obtain ⟨c, stop, last, from'⟩ := ofOctets_ok read
  rcases from'.tsig?_eq with ⟨none, -⟩ | ⟨r, t', rfl, -, some⟩
  · rw [none] at signed
    cases signed
  · obtain ⟨rfl, rfl, rfl⟩ : r.owner = owner ∧ t' = t ∧ stop = start := by
      rw [some] at signed
      simpa using signed
    exact from'.exists_unsigned

theorem Message.SignedOver.told {m : Message} {octets u : Array UInt8} {t : Tsig}
    (h : m.SignedOver octets t u) : m.withoutLast.ToldBy m.unsignedHeader u := by
  obtain ⟨read, ⟨owner, start, signed, cut⟩, names⟩ := h
  obtain ⟨u', cut', told⟩ := exists_unsigned read signed
  obtain rfl := Array.toList_inj.mp (Except.ok.inj (cut.symm.trans cut'))
  exact told names

/-- If the same octets are signed of two messages, one of them goes on from the other, the
identifiers apart. -/
theorem Key.input_same {k : Key} {message message' input : Octets} {t t' : Tsig}
    {requestMac : Option Octets} {first : Bool}
    (h : k.input message t requestMac first = .ok input)
    (h' : k.input message' t' requestMac first = .ok input) :
    ∃ rest rest', message.drop 2 ++ rest = message'.drop 2 ++ rest' := by
  have begun : ∀ {rest rest' : Octets}, messageInput message t ++ rest
      = messageInput message' t' ++ rest' → message.drop 2 ++ rest = message'.drop 2 ++ rest' := by
    intro rest rest' same
    simp only [messageInput, List.append_assoc] at same
    exact (List.append_inj same (by simp [Wire.uint16, Octets.length_ofNat])).2
  -- Only for a first message there is something in front of it, and that is the same for both.
  cases first with
  | false =>
    exact ⟨_, _, begun (Except.ok.inj (h.trans h'.symm))⟩
  | true =>
    simp only [Key.input, if_true, firstInput] at h h'
    obtain ⟨request, asked, h⟩ := bind_eq_ok h
    obtain ⟨name, -, h⟩ := bind_eq_ok h
    obtain ⟨algorithm, -, h⟩ := bind_eq_ok h
    obtain ⟨request', asked', h'⟩ := bind_eq_ok h'
    obtain ⟨name', -, h'⟩ := bind_eq_ok h'
    obtain ⟨algorithm', -, h'⟩ := bind_eq_ok h'
    obtain rfl := Except.ok.inj (asked.symm.trans asked')
    have same := Except.ok.inj (h.trans h'.symm)
    simp only [List.append_assoc] at same
    exact ⟨_, _, begun (List.append_cancel_left same)⟩

/-- A signature can be taken away from every message that was read. If the octets that the names of
the other entries were read from are not touched, these entries are all that is read then; and
together with the identifier, the octets that are signed determine them. -/
theorem Message.unsigned_same (octets : Array UInt8) (m : Message) (owner : Name) (t : Tsig)
    (start : Nat) (read : ofOctets octets = .ok m) (signed : m.tsig? = some (owner, t, start)) :
    ∃ u : Array UInt8, unsignedMessage octets.toList start = .ok u.toList ∧
      ((∀ i ∈ m.places, u[i]? = octets[i]?) →
        (∃ m', ofOctets u = .ok m' ∧ m'.header.header = m.header.header ∧
          m'.contents = m.withoutLast) ∧
        ∀ (k : Key) (requestMac : Option Octets) (first : Bool) (input : Octets)
          (octets' u' : Array UInt8) (m' : Message) (t' : Tsig), m'.SignedOver octets' t' u' →
          m'.header.header.id = m.header.header.id →
          k.input u.toList t requestMac first = .ok input →
          k.input u'.toList t' requestMac first = .ok input →
          m'.header.header = m.header.header ∧ m'.withoutLast = m.withoutLast) := by
  obtain ⟨u, cut, told⟩ := exists_unsigned read signed
  refine ⟨u, cut, fun names => ?_⟩
  have told := told names
  obtain ⟨m', read', header, contents⟩ := told.message
  refine ⟨⟨m', read', by rw [header, unsignedHeader], contents⟩, ?_⟩
  intro k requestMac first input octets' u' m' t' signed' id given given'
  have told' := signed'.told
  obtain ⟨rest, rest', same⟩ := Key.input_same given given'
  -- Both go on to the same octets, for the identifiers in front are equal, too.
  have whole : u ++ rest = u' ++ rest' := by
    have front := (holds_header_iff.mp told.header).1.take_drop (Octets.length_ofNat 2 _)
    have front' := (holds_header_iff.mp told'.header).1.take_drop (Octets.length_ofNat 2 _)
    rw [List.drop_zero] at front front'
    have identifiers : u.toList.take 2 = u'.toList.take 2 := by
      rw [front, front']
      simp only [unsignedHeader, id]
    apply Array.toList_inj.mp
    rw [Array.toList_appendList, Array.toList_appendList, ← List.take_append_drop 2 u.toList,
      ← List.take_append_drop 2 u'.toList, identifiers, List.append_assoc, List.append_assoc, same]
  have keeps : Keeps Draft.everywhere u (u' ++ rest') := whole ▸ .append _ u rest
  obtain ⟨header, contents⟩ := told'.unique told (.append _ u' rest') keeps
  have front : m'.unsignedHeader.header = m.unsignedHeader.header := by rw [header]
  exact ⟨front, contents⟩

/-- A message whose answer has the name of the question, by a pointer that stays. -/
theorem Message.unsigned_same_answer :
    let octets : Array UInt8 := #[0, 10, 0, 0, 0, 1, 0, 1, 0, 0, 0, 1, 1, 97, 0, 0, 1, 0, 1,
      192, 12, 0, 1, 0, 1, 0, 0, 0, 60, 0, 4, 192, 0, 2, 1,
      192, 12, 0, 250, 0, 255, 0, 0, 0, 0, 0, 17, 0, 0, 0, 0, 0, 0, 0, 0, 0, 0, 0, 0, 0, 0, 0, 0, 0]
    let u : Array UInt8 := #[0, 10, 0, 0, 0, 1, 0, 1, 0, 0, 0, 0, 1, 97, 0, 0, 1, 0, 1,
      192, 12, 0, 1, 0, 1, 0, 0, 0, 60, 0, 4, 192, 0, 2, 1]
    ∃ m owner t, ofOctets octets = .ok m ∧ m.tsig? = some (owner, t, 35) ∧
      unsignedMessage octets.toList 35 = .ok u.toList ∧
      (∀ i ∈ m.places, u[i]? = octets[i]?) ∧
      ∃ m', ofOctets u = .ok m' ∧ m'.header.header = m.header.header ∧
        m'.contents = m.withoutLast := by
  intro octets u
  have accepted :
      (ofOctets octets).map (fun m => (m.tsig?.map fun (_, _, start) => start, m.places))
        = .ok (some 35, [12, 13, 14, 19, 20, 12, 13, 14]) := by cbv
  have cut : unsignedMessage octets.toList 35 = .ok u.toList := by cbv
  obtain ⟨m, read, both⟩ := map_eq_ok accepted
  obtain ⟨place, places⟩ := Prod.mk.inj both
  obtain ⟨⟨owner, t, start⟩, signed, rfl⟩ := Option.map_eq_some_iff.mp place
  have names : ∀ i ∈ m.places, u[i]? = octets[i]? := by
    rw [places]
    decide
  obtain ⟨u', cut', same⟩ := unsigned_same octets m owner t 35 read signed
  obtain rfl := Array.toList_inj.mp (Except.ok.inj (cut.symm.trans cut'))
  exact ⟨m, owner, t, read, signed, cut, names, (same names).1⟩

/-- A name may be spelled by the number of additional records, and then it is another one without
the signature; or by octets of the signature, and then it cannot be read any more. -/
theorem Message.unsigned_differs :
    (let octets : Array UInt8 := #[0, 10, 0, 0, 0, 2, 0, 0, 0, 0, 0, 1, 0, 0, 1, 0, 1,
        192, 1, 0, 1, 0, 1,
        0, 0, 250, 0, 255, 0, 0, 0, 0, 0, 17, 0, 0, 0, 0, 0, 0, 0, 0, 0, 0, 0, 0, 0, 0, 0, 0, 0]
      let u : Array UInt8 := #[0, 10, 0, 0, 0, 2, 0, 0, 0, 0, 0, 0, 0, 0, 1, 0, 1,
        192, 1, 0, 1, 0, 1]
      ∃ m owner t m', ofOctets octets = .ok m ∧ m.tsig? = some (owner, t, 23) ∧
        unsignedMessage octets.toList 23 = .ok u.toList ∧
        ofOctets u = .ok m' ∧ (m'.question == m.question) = false) ∧
    (let octets : Array UInt8 := #[0, 10, 0, 0, 0, 1, 0, 1, 0, 0, 0, 1, 0, 19, 1, 0, 1,
        192, 13, 0, 1, 0, 1, 0, 0, 0, 0, 0, 4, 192, 0, 2, 1,
        0, 0, 250, 0, 255, 0, 0, 0, 0, 0, 17, 0, 0, 0, 0, 0, 0, 0, 0, 0, 0, 0, 0, 0, 0, 0, 0, 0]
      let u : Array UInt8 := #[0, 10, 0, 0, 0, 1, 0, 1, 0, 0, 0, 0, 0, 19, 1, 0, 1,
        192, 13, 0, 1, 0, 1, 0, 0, 0, 0, 0, 4, 192, 0, 2, 1]
      ∃ m owner t, ofOctets octets = .ok m ∧ m.tsig? = some (owner, t, 33) ∧
        unsignedMessage octets.toList 33 = .ok u.toList ∧
        ofOctets u = .error .shortInput) := by
  constructor
  · intro octets u
    have both : (ofOctets octets).bind (fun m => (ofOctets u).map fun m' =>
        (m.tsig?.map fun (_, _, start) => start, m'.question == m.question))
        = .ok (some 23, false) := by cbv
    have cut : unsignedMessage octets.toList 23 = .ok u.toList := by cbv
    obtain ⟨m, read, both⟩ := bind_eq_ok both
    obtain ⟨m', read', both⟩ := map_eq_ok both
    obtain ⟨place, differs⟩ := Prod.mk.inj both
    obtain ⟨⟨owner, t, start⟩, signed, rfl⟩ := Option.map_eq_some_iff.mp place
    exact ⟨m, owner, t, m', read, signed, cut, read', differs⟩
  · intro octets u
    have accepted : (ofOctets octets).map (fun m => m.tsig?.map fun (_, _, start) => start)
        = .ok (some 33) := by cbv
    have cut : unsignedMessage octets.toList 33 = .ok u.toList := by cbv
    have short : ofOctets u = .error .shortInput := by cbv
    obtain ⟨m, read, place⟩ := map_eq_ok accepted
    obtain ⟨⟨owner, t, start⟩, signed, rfl⟩ := Option.map_eq_some_iff.mp place
    exact ⟨m, owner, t, read, signed, cut, short⟩

end Dns
