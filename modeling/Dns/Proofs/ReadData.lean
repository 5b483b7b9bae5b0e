import Dns.Proofs.Composable
import Dns.Proofs.StoredNames

/-!
# Record data that were read

Data are read field by field, past the checks of those who make data from octets of their own. So it
has to be seen that the fields come out within the limits all the same: a string since its length is
told in one octet, data behind their length since that is told in two, a name since reading it gives
up where it grows too long. `RecordData.Enforced` lists these limits. Some of them hold by the types
of the model already; they are listed nevertheless, since it is those types that the reader has to
give values of.

Opaque data are the exception. They are as long as the caller says, and nothing asks whether a
record could say so, too (`RecordData.enforced_iff`). A caller that takes the length from a message
gets it from sixteen bits, and the difference is never seen; one that has octets of its own can read
data which their constructor would have refused (`RecordData.read_beyond_limits`).

Texts and options are read by loops that go on until a place is reached, wherever their items end.
`Reader.Loops` is such a loop without any bound to the number of its rounds. It ends since every
item takes an octet at least, and so the bound that `Reader.itemsUntil` has is never felt. That the
last item may end behind the place is no mistake of the loop: the data as a whole are refused then.
-/

set_option autoImplicit false

namespace Dns

/-! ## Loops

The relation has a constructor for each way in which a round may go. It describes the loop as it is
written, and a number of rounds appears only in the proof that it ends. That this comes to one
result (`Reader.Loops.unique`) is why a relation does as well as a function. What has to be shown of
an item is only that it takes an octet, so that the rounds are enough. -/

namespace Reader

variable {α : Type} {item : Reader α} {stop : Nat} {m : Array UInt8}

/-- What a loop comes to that reads items while it stands before a place: it ends at that place or
behind it, or it fails with an item, or it goes on behind an item. -/
inductive Loops (item : Reader α) (stop : Nat) (m : Array UInt8) :
    Nat → Outcome (List α) → Prop
  | done {p : Nat} (behind : stop ≤ p) : Loops item stop m p (.ok [] p)
  | fail {p q : Nat} {e : ParseError} (before : p < stop) (failed : item m p = .error e q) :
      Loops item stop m p (.error e q)
  | more {p q : Nat} {a : α} {r : Outcome (List α)} (before : p < stop)
      (found : item m p = .ok a q) (rest : Loops item stop m q r) :
      Loops item stop m p (r.map (a :: ·))

theorem Loops.unique {p : Nat} {r r' : Outcome (List α)} (h : Loops item stop m p r)
    (h' : Loops item stop m p r') : r = r' := by
  induction h generalizing r' with
  | done behind =>
    cases h' with
    | done => rfl
    | fail before | more before => exact absurd behind (Nat.not_le.mpr before)
  | fail before failed =>
    cases h' with
    | done behind => exact absurd behind (Nat.not_le.mpr before)
    | fail _ failed' =>
      rw [failed] at failed'
      cases failed'
      rfl
    | more _ found =>
      rw [failed] at found
      cases found
  | more before found rest ih =>
    cases h' with
    | done behind => exact absurd behind (Nat.not_le.mpr before)
    | fail _ failed =>
      rw [found] at failed
      cases failed
    | more _ found' rest' =>
      rw [found] at found'
      cases found'
      rw [ih rest']

/-- Items that take octets are as many as there are octets before the end of the loop at most. The
induction is on the rounds that are allowed. -/
theorem itemsUpTo_loops (advances : ∀ {p q a}, item m p = .ok a q → p < q) :
    ∀ {count p : Nat} (found : List α), stop ≤ p + count →
      ∃ r, Loops item stop m p r ∧
        itemsUpTo item stop count found m p = r.map (found.reverse ++ ·) := by
  intro count
  induction count with
  | zero =>
    intro p found enough
    exact ⟨_, .done enough, by simp [itemsUpTo, Outcome.map]⟩
  | succ count ih =>
    intro p found enough
    -- A round is spent on an item only, and an item takes an octet at least. So there are as many
    -- rounds left as octets.
    by_cases before : p < stop
    · simp only [itemsUpTo, if_pos before]
      cases read : item m p with
      | error e q => exact ⟨_, .fail before read, rfl⟩
      | ok a q =>
        have further := advances read
        obtain ⟨r, rest, same⟩ := ih (p := q) (a :: found) (by omega)
        refine ⟨_, .more before read rest, same.trans ?_⟩
        cases r with
        | ok items s => simp [Outcome.map]
        | error e s => rfl
    · exact ⟨_, .done (Nat.le_of_not_lt before), by simp [itemsUpTo, if_neg before, Outcome.map]⟩

/-- A loop over items that take octets ends, and in one way only. -/
theorem loops_iff (advances : ∀ {p q a}, item m p = .ok a q → p < q) (p : Nat)
    (r : Outcome (List α)) : Loops item stop m p r ↔ r = itemsUntil item stop m p := by
  obtain ⟨r', loops, same⟩ := @itemsUpTo_loops α item stop m advances (stop - p) p [] (by omega)
  have result : itemsUntil item stop m p = r' := by
    rw [itemsUntil, same]
    cases r' <;> rfl
  rw [result]
  exact ⟨fun h => h.unique loops, fun h => h ▸ loops⟩

end Reader

theorem CharString.read_advances {m : Array UInt8} {p q : Nat} {s : CharString}
    (h : CharString.read m p = .ok s q) : p < q := by
  rw [(charString_spells h).stop]
  exact Nat.lt_add_of_pos_right (Nat.succ_pos _)

theorem EdnsOption.read_advances {m : Array UInt8} {p q : Nat} {o : EdnsOption}
    (h : EdnsOption.read m p = .ok o q) : p < q := by
  rw [(EdnsOption.read_ok h).2, EdnsOption.wire, List.length_append, OptionCode.wire,
    Registered.wire, Octets.length_ofNat]
  exact Nat.lt_add_of_pos_right (Nat.lt_of_lt_of_le (by decide) (Nat.le_add_right _ _))

/-! ## Limits

What a reader has found is within the limits of the fields because of what it was read from. For
data of a known form this needs no condition at all. For opaque data there is one condition, and it
is on the length that the caller gives and not on the message. -/

/-- The forms without names that are composed just as they were read. Options are left out, for
padding is composed as zeros. -/
def RdataKind.verbatim : RdataKind → Bool
  | a | aaaa | txt | hinfo | x25 | nid | l32 | l64 => true
  | _ => false

/-- A name up to the root label, stored as labels that are neither empty nor too long. -/
def Name.Full (n : Name) : Prop := n.absolute = true ∧ n.stored.WellFormed

theorem Name.full_of_absolute {n : Name} (absolute : n.absolute = true) : n.Full :=
  ⟨absolute, StoredName.wellFormed_iff.mpr ⟨n, rfl⟩⟩

namespace RecordData

/-- The data keep the limits that are asked of those who make them, and their names are absolute. -/
def Enforced : RecordData → Prop
  | ns name => name.Full
  | cname name => name.Full
  | soa s => s.mname.Full ∧ s.rname.Full ∧ s.serial.bits = 32
  | ptr name => name.Full
  | hinfo cpu os => cpu.octets.length ≤ 255 ∧ os.octets.length ≤ 255
  | mx _ exchange => exchange.Full
  | txt first rest => ∀ s ∈ first :: rest, s.octets.length ≤ 255
  | x25 address => address.octets.length ≤ 255
  | opt options => ∀ o ∈ options, o.Documented ∧ o.data.octets.length ≤ 65535
  | lp _ name => name.Full
  | tsig t =>
    t.algorithm.Full ∧ t.time.seconds ≤ Time48.max ∧ t.mac.octets.length ≤ 65535 ∧
      t.other.octets.length ≤ 65535
  | unknown _ octets => octets.length ≤ 65535
  | _ => True

variable {m : Array UInt8} {length p q : Nat} {d : RecordData}

theorem time48_ok {t : Time48} (h : Time48.read m p = .ok t q) : t.seconds ≤ Time48.max := by
  obtain ⟨n, s, number, last⟩ := Reader.bind_ok h
  cases last
  have small := (number_ok number).1
  have fits : n < 2 ^ 64 := Nat.lt_trans small (by decide)
  rw [UInt64.le_iff_toNat_le, UInt64.toNat_ofNat', Nat.mod_eq_of_lt fits]
  exact Nat.le_of_lt_succ small

/-- Data of a known form keep the limits, and opaque data do so if they are not too long. -/
theorem enforced_iff (source : d.ReadFrom m length p q) :
    d.Enforced ↔ (d.kind? = none → length ≤ 65535) := by
  have complete := complete_of_read source
  -- For data of a known form there is nothing to be asked of the length.
  have known : ∀ {k : RdataKind}, some k = none → length ≤ 65535 := fun h => nomatch h
  cases d with
  | unknown rtype octets =>
    obtain ⟨rfl, -⟩ := take_ok source
    exact ⟨fun short _ => short, fun short => short rfl⟩
  | ns | cname | ptr | mx | lp =>
    exact ⟨fun _ => known, fun _ => Name.full_of_absolute complete⟩
  | soa s =>
    obtain ⟨mname, rname, width⟩ := complete
    exact ⟨fun _ => known, fun _ =>
      ⟨Name.full_of_absolute mname, Name.full_of_absolute rname, width⟩⟩
  | hinfo cpu os =>
    exact ⟨fun _ => known, fun _ => ⟨Nat.le_of_lt_succ cpu.short, Nat.le_of_lt_succ os.short⟩⟩
  | txt first rest => exact ⟨fun _ => known, fun _ s _ => Nat.le_of_lt_succ s.short⟩
  | x25 address => exact ⟨fun _ => known, fun _ => Nat.le_of_lt_succ address.short⟩
  | opt options =>
    obtain ⟨inForm, -⟩ := itemsUntil_ok EdnsOption.read_ok source
    exact ⟨fun _ => known, fun _ o mem => ⟨inForm o mem, Nat.le_of_lt_succ o.data.short⟩⟩
  | tsig t =>
    obtain ⟨algorithm, s, -, h⟩ := Reader.bind_ok source
    obtain ⟨time, _, timed, h⟩ := Reader.bind_ok h
    obtain ⟨fudge, _, -, h⟩ := Reader.bind_ok h
    obtain ⟨mac, _, -, h⟩ := Reader.bind_ok h
    obtain ⟨originalId, _, -, h⟩ := Reader.bind_ok h
    obtain ⟨error, _, -, h⟩ := Reader.bind_ok h
    obtain ⟨other, _, -, last⟩ := Reader.bind_ok h
    cases last
    exact ⟨fun _ => known, fun _ => ⟨Name.full_of_absolute complete, time48_ok timed,
      Nat.le_of_lt_succ mac.short, Nat.le_of_lt_succ other.short⟩⟩
  | a | aaaa | nid | l32 | l64 => exact ⟨fun _ => known, fun _ => trivial⟩

/-! ## Data without names

Data without names are the same octets wherever they are composed, and reading and composing are
inverse to each other in this direction, too. Options are not among them: what a padding option
contains is forgotten when it is read. -/

theorem uint64_spells : Reader.uint64.Spells Wire.uint64 := by
  intro m p q a h
  obtain ⟨n, s, number, last⟩ := Reader.bind_ok h
  cases last
  obtain ⟨small, spans⟩ := number_ok number
  rwa [Wire.uint64, UInt64.toNat_ofNat', Nat.mod_eq_of_lt small]

/-- Data without names are composed as the octets that they were read from, wherever that is. -/
theorem composed_as_read (source : d.ReadFrom m length p q)
    (verbatim : d.kind?.all RdataKind.verbatim = true) : ∃ o, Spans m p o q ∧
      ∀ compressed origin canonical, d.compose compressed origin canonical = Composer.put o := by
  -- Data with names and options are not asked for. For the others the octets of the fields are one
  -- behind the other.
  cases d with
  | ns | cname | soa | ptr | mx | opt | lp | tsig => cases verbatim
  | a address | aaaa address =>
    obtain ⟨o, length, rfl, spans⟩ := exactly_ok source
    exact ⟨o, spans, fun _ _ _ => rfl⟩
  | hinfo cpu os =>
    obtain ⟨s, first, second⟩ := source
    exact ⟨_, (charString_spells first).append (charString_spells second), fun _ _ _ =>
      Composer.put_put _ _⟩
  | txt first rest =>
    have spans := (itemsUntil_spells charString_spells source).resolve_left (List.cons_ne_nil _ _)
    exact ⟨_, spans, fun _ _ _ => rfl⟩
  | x25 address => exact ⟨_, charString_spells source, fun _ _ _ => rfl⟩
  | nid preference n | l64 preference n =>
    obtain ⟨s, first, second⟩ := source
    exact ⟨_, (uint16_spells first).append (uint64_spells second), fun _ _ _ =>
      Composer.put_put _ _⟩
  | l32 preference locator =>
    obtain ⟨s, first, second⟩ := source
    obtain ⟨o, length, rfl, spans⟩ := exactly_ok second
    exact ⟨_, (uint16_spells first).append spans, fun _ _ _ => Composer.put_put _ _⟩
  | unknown rtype octets => exact ⟨octets, (take_ok source).2, fun _ _ _ => rfl⟩

/-! ## Reading data -/

/-- **Data that were read are what they are said to be.** The loops over strings and over options
end. And if data are read, then reading has come on by just the length that was stated, they are of
the type that was asked for and opaque only if that type has no form of its own, and they keep all
limits, unless they are opaque and longer than a record can say. Data without names are composed as
the octets that they were read from. -/
theorem read_enforces (m : Array UInt8) (rtype : Rtype) (length p : Nat) :
    (∀ stop pos r, Reader.Loops CharString.read stop m pos r ↔
      r = Reader.itemsUntil CharString.read stop m pos) ∧
    (∀ stop pos r, Reader.Loops EdnsOption.read stop m pos r ↔
      r = Reader.itemsUntil EdnsOption.read stop m pos) ∧
    ((∃ cause reached, read rtype length m p = .error cause reached) ∨
      ∃ d, read rtype length m p = .ok d (p + length) ∧ d.rtype = rtype ∧
        d.kind? = RdataKind.ofRtype? rtype ∧
        (d.Enforced ↔ (RdataKind.ofRtype? rtype = none → length ≤ 65535)) ∧
        ((RdataKind.ofRtype? rtype).all RdataKind.verbatim = true → p + length ≤ m.size ∧
          ∀ (compressed : Bool) (origin : Option Name) (canonical : Bool) (draft : Draft),
            d.compose compressed origin canonical draft
              = .ok () (draft.put (m.extract p (p + length)).toList))) := by
  refine ⟨fun _ => Reader.loops_iff CharString.read_advances,
    fun _ => Reader.loops_iff EdnsOption.read_advances, ?_⟩
  -- An error says nothing on data. All that is left to be shown is about data that were read.
  cases found : read rtype length m p with
  | error cause reached => exact .inl ⟨cause, reached, rfl⟩
  | ok d q =>
    obtain ⟨form, rfl, -⟩ := read_ok found
    obtain ⟨kinds, own, source⟩ := readForm_ok form
    refine .inr ⟨d, rfl, own, kinds, ?_, fun verbatim => ?_⟩
    · rw [← kinds]
      exact enforced_iff source
    · rw [← kinds] at verbatim
      obtain ⟨o, spans, composed⟩ := composed_as_read source verbatim
      refine ⟨spans.inside, fun compressed origin canonical draft => ?_⟩
      rw [composed, spans.stop, spans.holds.extract]
      rfl

/-- Opaque data are read whatever their length is. -/
theorem read_opaque {rtype : Rtype} (other : RdataKind.ofRtype? rtype = none) (octets : Octets) :
    read rtype octets.length octets.toArray 0 = .ok (unknown rtype octets) octets.length := by
  have there : Holds octets.toArray 0 octets := ⟨by simp, fun i hi => by simp⟩
  have form : readForm rtype octets.length octets.toArray 0
      = .ok (unknown rtype octets) octets.length := by
    have taken := (readAs_take octets).functor (unknown rtype) _ _ there
    rw [Nat.zero_add] at taken
    simpa only [readForm, other] using taken
  rw [read, if_neg (by simp), form]
  simp

/-- Opaque data are read that their own constructor refuses. -/
theorem read_beyond_limits :
    let rtype : Rtype := ⟨4711⟩
    let octets : Octets := List.replicate 65536 0
    read rtype 65536 octets.toArray 0 = .ok (unknown rtype octets) 65536 ∧
      ¬(unknown rtype octets).Enforced ∧ ofOpaque rtype octets = .error .longData := by
  intro rtype octets
  have long : octets.length = 65536 := List.length_replicate
  refine ⟨?_, ?_, ?_⟩
  · have other : RdataKind.ofRtype? rtype = none := by decide
    have found := read_opaque other octets
    rwa [long] at found
  · show ¬octets.length ≤ 65535
    rw [long]
    decide
  · rw [ofOpaque, long]
    rfl

end RecordData

end Dns
