import Dns.Proofs.Parsed
import Dns.Proofs.Room

/-!
# Entries that can be composed

Composing fails for relative names without origin, for serial numbers of another width than 32 bits,
and for data that are too long for the length in front of them. `Composable` says of data that none
of this is the case.

All that is read is composable. Names are read as absolute ones, whatever pointers they went
through, and the parts of data have limits of their own. Only the data that are lists or opaque have
none; those are never longer when composed than what they were read from, which was not longer than
its length could tell. For data with names this argument would not do: they may well be longer when
they are composed, since a pointer of two octets may have stood for a name of 255. These are the
data with a fixed number of fields, and there the limits of the fields suffice.

Both halves are stated for entries, too. `Item.room` is a number of octets that no entry exceeds, so
that a renderer which has this much room for each of them never runs out of it.

Being composable implies two weaker properties that are used by themselves: `Documented`, which is
about the form that belongs to a type, and `Complete`, which is about names and serial numbers.
-/

set_option autoImplicit false

namespace Dns

namespace Composer.Takes

variable {α : Type} {c : Composer α} {room room' : Nat}

theorem mono (h : c.Takes room) (le : room ≤ room') : c.Takes room' := by
  intro d rootless
  obtain ⟨a, d', run, rootless', size⟩ := h d rootless
  exact ⟨a, d', run, rootless', Nat.le_trans size (Nat.add_le_add_left le _)⟩

end Composer.Takes

/-! ## Names -/

theorem Name.wireLength_le (n : Name) : n.wireLength ≤ 255 := n.fits

/-- Names are read to the root label. -/
theorem Name.readLabels_absolute {m : Array UInt8} {limit pos q : Nat} {w : Walk} {n : Name}
    (h : readLabels m limit pos w = .ok n q) : n.absolute = true := by
  fun_induction readLabels m limit pos w with
  | case1 | case3 | case5 | case6 | case7 | case8 | case10 => cases h
  | case2 => cases h; rfl
  | case4 | case9 => rename_i ih; exact ih h

theorem Name.read_absolute {m : Array UInt8} {p q : Nat} {n : Name}
    (h : Name.read m p = .ok n q) : n.absolute = true := readLabels_absolute h

/-! ## Items one after the other

A loop over items is inverted once, for a motive. What is known of the items that were found already
does not matter, since they only stand in front of the others. That what was found can be composed
and that it came from octets of its own are both properties of this kind, and they share the
induction. -/

/-- What holds of no items, and of items behind one more that is read, holds of all that a loop
reads. The induction is on the rounds that are allowed. -/
theorem itemsUpTo_found {α : Type} {item : Reader α} {m : Array UInt8} {stop q : Nat}
    {items : List α} {motive : List α → Nat → Nat → Prop} (empty : ∀ p, motive [] p p)
    (more : ∀ {p s q a rest}, item m p = .ok a s → motive rest s q → motive (a :: rest) p q) :
    ∀ {count p : Nat} {found : List α},
      Reader.itemsUpTo item stop count found m p = .ok items q →
      ∃ new, items = found.reverse ++ new ∧ motive new p q := by
  -- By induction on the rounds that are left. An error in any of them is one of the whole, so only
  -- rounds with an item remain.
  intro count
  induction count with
  | zero =>
    intro p found h
    cases h
    exact ⟨[], by simp, empty _⟩
  | succ count ih =>
    intro p found h
    simp only [Reader.itemsUpTo] at h
    split at h
    · split at h
      · rename_i a s first
        obtain ⟨new, rfl, others⟩ := ih h
        exact ⟨a :: new, by simp, more first others⟩
      · cases h
    · cases h
      exact ⟨[], by simp, empty _⟩

theorem itemsUntil_found {α : Type} {item : Reader α} {m : Array UInt8} {stop p q : Nat}
    {items : List α} {motive : List α → Nat → Nat → Prop} (empty : ∀ p, motive [] p p)
    (more : ∀ {p s q a rest}, item m p = .ok a s → motive rest s q → motive (a :: rest) p q)
    (h : Reader.itemsUntil item stop m p = .ok items q) : motive items p q := by
  obtain ⟨new, rfl, all⟩ := itemsUpTo_found empty more h
  exact all

/-- The items that are read are as long as their octets. -/
theorem itemsUntil_ok {α : Type} {item : Reader α} {wire : α → Octets} {good : α → Prop}
    {m : Array UInt8} {stop p q : Nat} {items : List α}
    (each : ∀ {p q a}, item m p = .ok a q → good a ∧ q = p + (wire a).length)
    (h : Reader.itemsUntil item stop m p = .ok items q) :
    (∀ a ∈ items, good a) ∧ q = p + (items.flatMap wire).length := by
  refine itemsUntil_found
    (motive := fun items p q => (∀ a ∈ items, good a) ∧ q = p + (items.flatMap wire).length)
    (fun p => ⟨by simp, rfl⟩) ?_ h
  intro p s q a rest first others
  obtain ⟨here, rfl⟩ := each first
  exact ⟨List.forall_mem_cons.mpr ⟨here, others.1⟩, by
    rw [others.2, List.flatMap_cons, List.length_append, Nat.add_assoc]⟩

/-- Items that are read from their octets stand in the message one after the other. -/
theorem itemsUntil_spells {α : Type} {item : Reader α} {wire : α → Octets}
    (spells : item.Spells wire) {m : Array UInt8} {stop p q : Nat} {items : List α}
    (h : Reader.itemsUntil item stop m p = .ok items q) :
    items = [] ∨ Spans m p (items.flatMap wire) q := by
  refine (itemsUntil_found
    (motive := fun items p q => items = [] ∧ p = q ∨ Spans m p (items.flatMap wire) q)
    (fun p => .inl ⟨rfl, rfl⟩) ?_ h).imp_left And.left
  intro p s q a rest first others
  refine .inr ?_
  rw [List.flatMap_cons]
  -- Where no items follow, there is nothing to be joined.
  rcases others with ⟨rfl, rfl⟩ | behind
  · rw [List.flatMap_nil, List.append_nil]
    exact spells first
  · exact (spells first).append behind

/-- An option is composed in as many octets as it was read from, and padding never hides behind
its code. -/
theorem EdnsOption.read_ok {m : Array UInt8} {p q : Nat} {o : EdnsOption}
    (h : EdnsOption.read m p = .ok o q) : o.Documented ∧ q = p + o.wire.length := by
  obtain ⟨code, s, numbered, h⟩ := Reader.bind_ok h
  obtain ⟨data, t, content, last⟩ := Reader.bind_ok h
  cases last
  obtain ⟨rfl, -⟩ := registered_ok numbered
  obtain rfl := (data_spells content).stop
  have two : ∀ c : OptionCode, c.wire.length = 2 := Registered.length_wire
  split
  · rename_i isPadding
    have length : (Data.zeros (.ofNat data.octets.length)).octets.length = data.octets.length := by
      rw [Data.zeros, List.length_replicate, UInt16.toNat_ofNat']
      exact Nat.mod_eq_of_lt data.short
    refine ⟨trivial, ?_⟩
    rw [wire, List.length_append, two, EdnsOption.data, Data.wire, Data.wire, length,
      List.length_append, List.length_append, length, Octets.length_ofNat]
    exact Nat.add_assoc p 2 _
  · rename_i other
    refine ⟨other, ?_⟩
    rw [wire, List.length_append, two]
    exact Nat.add_assoc p 2 _

/-! ## Record data

`Composable.takes` adds up the most that each field can take. The sums are far below the limit for
data with fields; for lists and for opaque data the limit is the condition itself. What was read
from a length of sixteen bits is not always within it when it is composed again, since names that
were compressed are written in full; the bound is on the latter. -/

namespace RecordData

/-- Data that are composed without fail, and that are in the form that belongs to their type. -/
def Composable : RecordData → Prop
  | ns name => name.absolute = true
  | cname name => name.absolute = true
  | soa s => s.mname.absolute = true ∧ s.rname.absolute = true ∧ s.serial.bits = 32
  | ptr name => name.absolute = true
  | mx _ exchange => exchange.absolute = true
  | txt first rest => ((first :: rest).flatMap CharString.wire).length ≤ 65535
  | opt options =>
    (∀ o ∈ options, o.Documented) ∧ (options.flatMap EdnsOption.wire).length ≤ 65535
  | lp _ name => name.absolute = true
  | tsig _ => False
  | unknown rtype octets => RdataKind.ofRtype? rtype = none ∧ octets.length ≤ 65535
  | _ => True

theorem Composable.documented {d : RecordData} (h : d.Composable) : d.Documented := by
  cases d with
  | tsig => exact h
  | opt => exact h.1
  | unknown => exact h.1
  | _ => trivial

theorem Composable.complete {d : RecordData} (h : d.Composable) : d.Complete := by
  cases d with
  | ns | cname | soa | ptr | mx | lp => exact h
  | tsig => exact h.elim
  | _ => trivial

theorem Composable.completed {d : RecordData} (h : d.Composable) (origin : Option Name) :
    d.completed origin = .ok d := h.complete.completed origin

theorem Composable.takes {d : RecordData} (h : d.Composable) (compressed : Bool)
    (origin : Option Name) (canonical : Bool) :
    (d.compose compressed origin canonical).Takes 65535 := by
  have names : ∀ {n : Name} {compressed : Bool}, n.absolute = true →
      (n.compose compressed origin canonical).Takes 255 := fun {n} _ absolute =>
    (Name.compose_takes absolute _ _ _).mono n.wireLength_le
  have number₁₆ : ∀ n, (Composer.put (Wire.uint16 n)).Takes 2 := fun _ => .put _
  have number₃₂ : ∀ n, (Composer.put (Wire.uint32 n)).Takes 4 := fun _ => .put _
  have number₆₄ : ∀ n, (Composer.put (Wire.uint64 n)).Takes 8 := fun _ => .put _
  have string : ∀ s : CharString, (Composer.put s.wire).Takes 256 := fun s =>
    (Composer.Takes.put _).mono (Nat.succ_le_of_lt s.short)
  have address : ∀ a : Ipv4, (Composer.put a.octets).Takes 4 := fun a =>
    (Composer.Takes.put _).mono (Nat.le_of_eq a.length_octets)
  -- What the fields take together is added up by `bind`, and the sum is a closed number wherever no
  -- list is among them.
  cases d with
  | ns n => exact (names h).mono (by decide)
  | cname n => exact (names h).mono (by decide)
  | ptr n => exact (names h).mono (by decide)
  | mx preference n => exact ((number₁₆ _).bind fun _ => names h).mono (by decide)
  | lp preference n => exact ((number₁₆ _).bind fun _ => names h).mono (by decide)
  | soa s =>
    obtain ⟨mname, rname, width⟩ := h
    have serial : (Composer.putOrFail s.serial.compose).Takes 4 := by
      rw [Serial.compose, if_pos width]
      exact .put _
    exact ((names mname).bind fun _ => (names rname).bind fun _ => serial.bind fun _ =>
      (number₃₂ _).bind fun _ => (number₃₂ _).bind fun _ => (number₃₂ _).bind fun _ =>
        number₃₂ _).mono (by decide)
  | hinfo cpu os => exact ((string cpu).bind fun _ => string os).mono (by decide)
  | x25 s => exact (string s).mono (by decide)
  | txt first rest => exact (Composer.Takes.put _).mono h
  | opt options => exact (Composer.Takes.put _).mono h.2
  | unknown rtype octets => exact (Composer.Takes.put _).mono h.2
  | tsig => exact h.elim
  | a address' => exact (address _).mono (by decide)
  | aaaa address' => exact (Composer.Takes.put _).mono (by rw [address'.length_octets]; decide)
  | nid => exact ((number₁₆ _).bind fun _ => number₆₄ _).mono (by decide)
  | l32 => exact ((number₁₆ _).bind fun _ => address _).mono (by decide)
  | l64 => exact ((number₁₆ _).bind fun _ => number₆₄ _).mono (by decide)

theorem readSoa_complete {m : Array UInt8} {p q : Nat} {s : Soa} (h : readSoa m p = .ok s q) :
    Complete (.soa s) := by
  obtain ⟨mname, _, read₁, h⟩ := Reader.bind_ok h
  obtain ⟨rname, _, read₂, h⟩ := Reader.bind_ok h
  obtain ⟨serial, _, read₃, h⟩ := Reader.bind_ok h
  obtain ⟨refresh, _, -, h⟩ := Reader.bind_ok h
  obtain ⟨retry, _, -, h⟩ := Reader.bind_ok h
  obtain ⟨expire, _, -, h⟩ := Reader.bind_ok h
  obtain ⟨minimum, _, -, last⟩ := Reader.bind_ok h
  cases last
  obtain ⟨number, _, -, last⟩ := Reader.bind_ok read₃
  cases last
  exact ⟨Name.read_absolute read₁, Name.read_absolute read₂, rfl⟩

variable {m : Array UInt8} {length p q : Nat} {d : RecordData}

/-- Data are read with absolute names and with serial numbers of 32 bits. -/
theorem complete_of_read (source : d.ReadFrom m length p q) : d.Complete := by
  cases d with
  | ns | cname | ptr => exact Name.read_absolute source
  | mx | lp =>
    obtain ⟨s, -, name⟩ := source
    exact Name.read_absolute name
  | soa s => exact readSoa_complete source
  | tsig t =>
    obtain ⟨algorithm, s, name, h⟩ := Reader.bind_ok source
    obtain ⟨time, _, -, h⟩ := Reader.bind_ok h
    obtain ⟨fudge, _, -, h⟩ := Reader.bind_ok h
    obtain ⟨mac, _, -, h⟩ := Reader.bind_ok h
    obtain ⟨originalId, _, -, h⟩ := Reader.bind_ok h
    obtain ⟨error, _, -, h⟩ := Reader.bind_ok h
    obtain ⟨other, _, -, last⟩ := Reader.bind_ok h
    cases last
    exact Name.read_absolute name
  | _ => trivial

/-- Data that are read are composable, unless they are a signature. -/
theorem composable_of_read {rtype : Rtype} (h : readForm rtype length m p = .ok d (p + length))
    (short : length ≤ 65535) (plain : d.kind? ≠ some .tsig) : d.Composable := by
  -- Only for lists and opaque data is the stated length of use.
  obtain ⟨known, own, source⟩ := readForm_ok h
  cases d with
  | ns | cname | ptr | mx | lp | soa => exact complete_of_read source
  | txt first rest =>
    have each : ∀ {p q s}, CharString.read m p = .ok s q → True ∧ q = p + s.wire.length :=
      fun read => ⟨trivial, (charString_spells read).stop⟩
    obtain ⟨-, stop⟩ := itemsUntil_ok each source
    exact Nat.le_trans (Nat.le_of_eq (Nat.add_left_cancel stop).symm) short
  | opt options =>
    obtain ⟨all, stop⟩ := itemsUntil_ok EdnsOption.read_ok source
    exact ⟨all, by omega⟩
  | tsig t => exact absurd rfl plain
  | unknown rtype' octets =>
    obtain rfl : rtype' = rtype := own
    exact ⟨known.symm, (take_ok source).1 ▸ short⟩
  | _ => trivial

end RecordData

/-! ## Entries -/

/-- The octets that no entry exceeds: a name of 255 octets, the fields behind it, and as many data
as their length can tell. -/
def Item.room : Nat := 65800

/-- An entry that is composed without fail. -/
def Item.Composable : Item → Prop
  | .question q => q.qname.absolute = true
  | .record r => r.owner.absolute = true ∧ r.data.Composable

theorem Question.compose_takes {q : Question} (h : Item.Composable (.question q))
    (compressed : Bool) (origin : Option Name) : (q.compose compressed origin).Takes Item.room := by
  have code : ∀ {o : Octets}, o.length = 2 → (Composer.put o).Takes 2 := fun h => h ▸ .put _
  have name := (Name.compose_takes h compressed false origin).mono q.qname.wireLength_le
  exact (name.bind fun _ => (code (Octets.length_ofNat 2 _)).bind fun _ =>
    code (Octets.length_ofNat 2 _)).mono (by decide)

theorem Record.compose_takes {r : Record} (h : Item.Composable (.record r)) (compressed : Bool)
    (origin : Option Name) (form : RecordForm) :
    (r.compose compressed origin form).Takes Item.room := by
  have code : ∀ {o : Octets}, o.length = 2 → (Composer.put o).Takes 2 := fun h => h ▸ .put _
  have ttl : (Composer.put (Wire.uint32 r.ttl)).Takes 4 := .put _
  have name := (Name.compose_takes h.1 (compressed && !form.canonical) form.canonical origin).mono
    r.owner.wireLength_le
  have data := (h.2.takes (compressed && !form.canonical) origin form.canonical).lengthPrefixed
    (Nat.le_refl _)
  exact (name.bind fun _ => (code (Octets.length_ofNat 2 _)).bind fun _ =>
    (code (Octets.length_ofNat 2 _)).bind fun _ => ttl.bind fun _ => data).mono (by decide)

/-- What is read is composable, unless it is a signature. -/
theorem Item.ReadAt.composable {m : Array UInt8} {x : Section × Item} {p q : Nat}
    (h : x.2.ReadAt m p q) (placed : Item.Placed x) : x.2.Composable := by
  obtain ⟨part, y | r⟩ := x
  · obtain ⟨s, name, -⟩ := Question.read_ok h
    exact Name.read_absolute name
  · obtain ⟨s, rtype, length, name, -, -, -, -, data, stop, -⟩ := Record.read_ok h
    rw [stop] at data
    exact ⟨Name.read_absolute name, RecordData.composable_of_read data
      (Nat.le_of_lt_succ length.toNat_lt) placed.2⟩

end Dns
