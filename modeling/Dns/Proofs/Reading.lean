import Dns.Edns.Option
import Dns.Iana.Class
import Dns.Iana.Rtype
import Dns.Iana.TsigRcode
import Dns.Rdata.Address
import Dns.Serial
import Dns.Time48
import Dns.Wire.CharString
import Dns.Wire.Data
import Mathlib.Algebra.BigOperators.Group.List.Basic

/-!
# Octets that are read back

Most parts of a message have one wire form, which does not depend on where it stands. `ReadAs` says
of octets that a reader which finds them anywhere in a message makes a certain value of them and
stops behind them. It is closed under putting octets one after the other (`ReadAs.bind`), so that
the readers of compound data follow from those of their fields.

Names are not like this: what a pointer means depends on the octets in front of it. They are read
back in `Dns.Proofs.Names`, on top of what is here. What both have in common is that a message is
not finished when its first octets are composed, and three notions are about this.

* `Holds` is a look at one message: these octets stand at this place.
* `Keeps` compares two messages, an earlier and a later one. It is told which places are meant, for
  two kinds of octets are written over later: the header, when the numbers of entries are known, and
  the length in front of data.
* `Stands` is `Holds` at places that are kept, and `Reader.Finds` is what a reader makes of a
  message *and of all that goes on from it*. What is found is never taken back, so a statement about
  a record stays true while other records are put behind it, and no proof has to go back to it.

Reading in the other direction, from an accepted message to what must have stood in it, is the
subject of `Dns.Proofs.Footprints` and `Dns.Proofs.Parsed`.
-/

set_option autoImplicit false

namespace Dns

variable {α β : Type}

/-! ## Octets at a place of a message -/

/-- The octets that stand at a place of a message. -/
def Holds (message : Array UInt8) (pos : Nat) (octets : Octets) : Prop :=
  pos + octets.length ≤ message.size ∧
    ∀ i (h : i < octets.length), message[pos + i]? = some octets[i]

theorem Holds.getElem? {m : Array UInt8} {p : Nat} {o : Octets} (h : Holds m p o) {i : Nat}
    (hi : i < o.length) : m[p + i]? = some o[i] := h.2 i hi

theorem holds_append {m : Array UInt8} {p : Nat} {a b : Octets} :
    Holds m p (a ++ b) ↔ Holds m p a ∧ Holds m (p + a.length) b := by
  constructor
  · rintro ⟨hs, h⟩
    rw [List.length_append] at hs
    refine ⟨⟨by omega, fun i hi => ?_⟩, ⟨by omega, fun i hi => ?_⟩⟩
    · rw [h i (by simp; omega), List.getElem_append_left hi]
    · rw [Nat.add_assoc, h (a.length + i) (by simp; omega),
        List.getElem_append_right (Nat.le_add_right _ _)]
      simp
  · rintro ⟨⟨ha, hl⟩, ⟨hb, hr⟩⟩
    refine ⟨by rw [List.length_append]; omega, fun i hi => ?_⟩
    -- An index of the whole is one of the first part, or one of the second part behind it.
    by_cases hc : i < a.length
    · rw [hl i hc, List.getElem_append_left hc]
    · have hge : a.length ≤ i := Nat.le_of_not_lt hc
      have hi' : i - a.length < b.length := by
        rw [List.length_append] at hi
        omega
      have := hr (i - a.length) hi'
      rw [show p + a.length + (i - a.length) = p + i by omega] at this
      rw [this, List.getElem_append_right hge]

theorem Holds.left {m : Array UInt8} {p : Nat} {a b : Octets} (h : Holds m p (a ++ b)) :
    Holds m p a := (holds_append.mp h).1

theorem Holds.right {m : Array UInt8} {p : Nat} {a b : Octets} (h : Holds m p (a ++ b)) :
    Holds m (p + a.length) b := (holds_append.mp h).2

theorem holds_toArray (o : Octets) : Holds o.toArray 0 o := by
  refine ⟨Nat.le_of_eq (by rw [Nat.zero_add, List.size_toArray]), fun i hi => ?_⟩
  rw [Nat.zero_add, List.getElem?_toArray, List.getElem?_eq_getElem hi]

/-- What stands at a place is what one takes out of there. -/
theorem Holds.extract {m : Array UInt8} {p : Nat} {o : Octets} (h : Holds m p o) :
    (m.extract p (p + o.length)).toList = o := by
  refine List.ext_getElem? fun i => ?_
  rw [Array.getElem?_toList, Array.getElem?_extract]
  by_cases hi : i < o.length
  · rw [if_pos (by have := h.1; omega), h.2 i hi, List.getElem?_eq_getElem hi]
  · rw [if_neg (by have := h.1; omega), List.getElem?_eq_none (Nat.le_of_not_lt hi)]

theorem size_append_octets (m : Array UInt8) (o : Octets) : (m ++ o).size = m.size + o.length := by
  simp [← Array.length_toList]

theorem append_append_octets (m : Array UInt8) (a b : Octets) : m ++ a ++ b = m ++ (a ++ b) := by
  refine Array.toList_inj.mp ?_
  simp only [Array.toList_appendList, List.append_assoc]

theorem getElem?_append_octets (m : Array UInt8) (o : Octets) (i : Nat) :
    (m ++ o)[i]? = (m.toList ++ o)[i]? := by
  rw [← Array.getElem?_toList, Array.toList_appendList]

theorem getElem?_take (m : Array UInt8) {length i : Nat} (h : i < length) :
    (m.take length)[i]? = m[i]? := by
  rw [Array.take_eq_extract, Array.getElem?_extract, Nat.zero_add]
  split
  · rfl
  · rw [Array.getElem?_eq_none (by omega)]

/-- Octets at the end of what they were added to. -/
theorem holds_append_size (m : Array UInt8) (o : Octets) : Holds (m ++ o) m.size o := by
  refine ⟨Nat.le_of_eq (size_append_octets m o).symm, fun i hi => ?_⟩
  rw [getElem?_append_octets, List.getElem?_append_right (by simp)]
  simp [hi]

/-! ## Octets that are written over others -/

theorem size_overwrite (o : Octets) : ∀ (m : Array UInt8) (place : Nat),
    (Octets.overwrite m place o).size = m.size := by
  induction o with
  | nil => intro m place; rfl
  | cons b rest ih =>
    intro m place
    rw [Octets.overwrite, ih, Array.size_setIfInBounds]

/-- Only the places that are written to change. -/
theorem getElem?_overwrite (o : Octets) : ∀ {m : Array UInt8} {place i : Nat},
    i < place ∨ place + o.length ≤ i → (Octets.overwrite m place o)[i]? = m[i]? := by
  induction o with
  | nil => intro m place i _; rfl
  | cons b rest ih =>
    intro m place i h
    rw [List.length_cons] at h
    rw [Octets.overwrite, ih (by omega), Array.getElem?_setIfInBounds_ne (by omega)]

theorem holds_overwrite (o : Octets) : ∀ {m : Array UInt8} {place : Nat},
    place + o.length ≤ m.size → Holds (Octets.overwrite m place o) place o := by
  induction o with
  | nil => intro m place h; exact ⟨h, by simp⟩
  | cons b rest ih =>
    intro m place h
    rw [List.length_cons] at h
    rw [← List.singleton_append, holds_append]
    refine ⟨⟨?_, fun i hi => ?_⟩, ih (by rw [Array.size_setIfInBounds]; omega)⟩
    · rw [size_overwrite]
      exact Nat.le_trans (by simp) h
    · -- The octet that is written first is not touched by the ones that follow it.
      obtain rfl : i = 0 := by simpa using hi
      rw [List.singleton_append, Octets.overwrite, getElem?_overwrite rest (.inl (by omega))]
      simp only [Nat.add_zero, List.getElem_cons_zero]
      rw [Array.getElem?_setIfInBounds_self_of_lt (by omega)]

/-! ## Octets that are kept

The set of kept places is an argument of everything below. With `fun _ => True` for it, a message is
a prefix of the later one; that is the case while something is being composed, and it is the simple
case. The general one is needed for a message as a whole, of which the header is not kept. -/

/-- A message goes on from another one, as far as some places of it are concerned: it is at least
as long, and has the same octets at these places. -/
def Keeps (fixed : Nat → Prop) (before after : Array UInt8) : Prop :=
  before.size ≤ after.size ∧ ∀ i, i < before.size → fixed i → after[i]? = before[i]?

namespace Keeps

variable {fixed fixed' : Nat → Prop} {a b c : Array UInt8}

theorem refl (fixed : Nat → Prop) (a : Array UInt8) : Keeps fixed a a :=
  ⟨Nat.le_refl _, fun _ _ _ => rfl⟩

/-- Going on twice, where the second message may also change what the first had not yet. -/
theorem comp (h : Keeps fixed a b) (g : Keeps fixed' b c)
    (sub : ∀ i, i < a.size → fixed i → fixed' i) : Keeps fixed a c :=
  ⟨Nat.le_trans h.1 g.1, fun i hi hf =>
    (g.2 i (Nat.lt_of_lt_of_le hi h.1) (sub i hi hf)).trans (h.2 i hi hf)⟩

theorem trans (h : Keeps fixed a b) (g : Keeps fixed b c) : Keeps fixed a c :=
  h.comp g fun _ _ hf => hf

/-- To keep many places is to keep some of them. -/
theorem mono (h : Keeps fixed' a b) (sub : ∀ i, i < a.size → fixed i → fixed' i) :
    Keeps fixed a b :=
  (refl fixed a).comp h sub

theorem append (fixed : Nat → Prop) (a : Array UInt8) (o : Octets) : Keeps fixed a (a ++ o) := by
  refine ⟨by rw [size_append_octets]; omega, fun i hi _ => ?_⟩
  rw [getElem?_append_octets, List.getElem?_append_left (by simpa using hi), Array.getElem?_toList]

end Keeps

/-- Octets stand at places all of which are kept. -/
structure Stands (fixed : Nat → Prop) (message : Array UInt8) (pos : Nat) (octets : Octets) :
    Prop where
  holds : Holds message pos octets
  kept : ∀ i, pos ≤ i → i < pos + octets.length → fixed i

theorem Stands.keeps {fixed fixed' : Nat → Prop} {a b : Array UInt8} {p : Nat} {o : Octets}
    (h : Stands fixed a p o) (k : Keeps fixed a b)
    (sub : ∀ i, i < a.size → fixed i → fixed' i) : Stands fixed' b p o := by
  have inside := h.holds.1
  refine ⟨⟨Nat.le_trans inside k.1, fun i hi => ?_⟩, fun i hp hi => ?_⟩
  · rw [k.2 _ (by omega) (h.kept _ (by omega) (by omega)), h.holds.2 i hi]
  · exact sub i (by omega) (h.kept i hp hi)

/-- What is put at the end stands there. -/
theorem stands_append {fixed : Nat → Prop} {m : Array UInt8} (o : Octets)
    (kept : ∀ i, m.size ≤ i → fixed i) : Stands fixed (m ++ o) m.size o :=
  ⟨holds_append_size m o, fun i hi _ => kept i hi⟩

/-- A message that goes on from another one by some octets is that one with these at its end. -/
theorem eq_append_of_holds {a b : Array UInt8} {o : Octets} (kept : Keeps (fun _ => True) a b)
    (size : b.size = a.size + o.length) (there : Holds b a.size o) : b = a ++ o := by
  have size' := size_append_octets a o
  refine Array.ext_getElem? fun i => ?_
  by_cases inside : i < a.size
  · rw [kept.2 i inside trivial]
    exact ((Keeps.append (fun _ => True) a o).2 i inside trivial).symm
  · obtain ⟨j, rfl⟩ := Nat.exists_eq_add_of_le (Nat.le_of_not_lt inside)
    by_cases hj : j < o.length
    · rw [there.2 j hj, (holds_append_size a o).2 j hj]
    · rw [Array.getElem?_eq_none (by omega), Array.getElem?_eq_none (by omega)]

/-! ## Octets and what they mean

`ReadAs` is about octets alone and `Reader.Finds` about a message in which they stand. Everything
with one wire form is shown to be `ReadAs` first and gets `Finds` from `ReadAs.finds`; only what has
a name in it has to be shown to be found directly. Both are closed under `bind`, with the octets of
the first part in front of those of the second, so that a reader of several fields is taken apart in
the order in which they stand. -/

/-- Wherever these octets stand, `read` makes `value` of them and stops behind them. -/
def ReadAs (octets : Octets) (read : Reader α) (value : α) : Prop :=
  ∀ message pos, Holds message pos octets → read message pos = .ok value (pos + octets.length)

namespace ReadAs

theorem pure (a : α) : ReadAs [] (Pure.pure a) a := fun _ _ _ => rfl

theorem bind {o₁ o₂ : Octets} {read : Reader α} {k : α → Reader β} {a : α} {b : β}
    (h₁ : ReadAs o₁ read a) (h₂ : ReadAs o₂ (k a) b) : ReadAs (o₁ ++ o₂) (read >>= k) b := by
  intro m p h
  have stop : p + (o₁ ++ o₂).length = p + o₁.length + o₂.length := by
    rw [List.length_append, Nat.add_assoc]
  rw [Reader.bind_apply, h₁ m p h.left, stop]
  exact h₂ m _ h.right

/-- The last field of all, after which a value is made of what was read. -/
theorem map {o : Octets} {read : Reader α} {a : α} (f : α → β) (h : ReadAs o read a) :
    ReadAs o (read >>= fun x => Pure.pure (f x)) (f a) := by
  have key := h.bind (k := fun x => Pure.pure (f x)) (pure (f a))
  rwa [List.append_nil] at key

theorem functor {o : Octets} {read : Reader α} {a : α} (f : α → β) (h : ReadAs o read a) :
    ReadAs o (f <$> read) (f a) := h.map f

/-- Octets mean one value only. -/
theorem unique {o : Octets} {read : Reader α} {a b : α} (h : ReadAs o read a)
    (g : ReadAs o read b) : a = b := by
  have there := holds_append_size #[] o
  exact (Outcome.ok.inj ((h _ _ there).symm.trans (g _ _ there))).1

end ReadAs

/-- In every message that goes on from these octets, `read` makes `value` of those from `pos` on and
stops at `stop`. -/
def Reader.Finds (read : Reader α) (fixed : Nat → Prop) (octets : Array UInt8) (value : α)
    (pos stop : Nat) : Prop :=
  ∀ message, Keeps fixed octets message → read message pos = .ok value stop

namespace Reader.Finds

variable {read : Reader α} {fixed fixed' : Nat → Prop} {o o' : Array UInt8} {a : α} {b : β}
  {p q s : Nat}

theorem pure (a : α) (p : Nat) : (Pure.pure a : Reader α).Finds fixed o a p p := fun _ _ => rfl

theorem bind {k : α → Reader β} (h : read.Finds fixed o a p q) (g : (k a).Finds fixed o b q s) :
    (read >>= k).Finds fixed o b p s := by
  intro m keeps
  rw [Reader.bind_apply, h m keeps]
  exact g m keeps

theorem functor (f : α → β) (h : read.Finds fixed o a p q) :
    (f <$> read).Finds fixed o (f a) p q :=
  h.bind (pure (f a) q)

theorem keeps (h : read.Finds fixed o a p q) (k : Keeps fixed o o')
    (sub : ∀ i, i < o.size → fixed i → fixed' i) : read.Finds fixed' o' a p q :=
  fun m keeps => h m (k.comp keeps sub)

end Reader.Finds

theorem ReadAs.finds {octets : Octets} {read : Reader α} {a : α} {fixed : Nat → Prop}
    {o : Array UInt8} {p : Nat} (h : ReadAs octets read a) (s : Stands fixed o p octets) :
    read.Finds fixed o a p (p + octets.length) :=
  fun m keeps => h m p (s.keeps keeps fun _ _ hf => hf).holds

/-! ## Numbers and codes -/

theorem readAs_take (o : Octets) : ReadAs o (Reader.take o.length) o := by
  intro m p h
  rw [Reader.take, if_pos h.1, h.extract]

theorem readAs_number (width n : Nat) (h : n < Nat.pow 256 width) :
    ReadAs (Octets.ofNat width n) (Reader.number width) n := by
  have key := (readAs_take (Octets.ofNat width n)).map Octets.toNat
  rwa [Octets.length_ofNat, Octets.toNat_ofNat, Nat.mod_eq_of_lt h] at key

theorem readAs_uint16 (n : UInt16) : ReadAs (Wire.uint16 n) Reader.uint16 n := by
  have key := (readAs_number 2 n.toNat n.toNat_lt).map UInt16.ofNat
  rwa [UInt16.ofNat_toNat] at key

theorem readAs_uint32 (n : UInt32) : ReadAs (Wire.uint32 n) Reader.uint32 n := by
  have key := (readAs_number 4 n.toNat n.toNat_lt).map UInt32.ofNat
  rwa [UInt32.ofNat_toNat] at key

theorem readAs_uint64 (n : UInt64) : ReadAs (Wire.uint64 n) Reader.uint64 n := by
  have key := (readAs_number 8 n.toNat n.toNat_lt).map UInt64.ofNat
  rwa [UInt64.ofNat_toNat] at key

/-- A registered code is read back if its number fits and leads back to it. -/
theorem readAs_registered [Registered α] {c : α}
    (fits : Registered.number c < Nat.pow 256 (Registered.width α))
    (back : Registered.ofNumber (Registered.number c) = c) :
    ReadAs (Registered.wire c) Registered.read c := by
  have key := (readAs_number _ _ fits).map (Registered.ofNumber (α := α))
  rwa [back] at key

theorem readAs_rtype (c : Rtype) : ReadAs c.wire Rtype.read c :=
  readAs_registered c.code.toNat_lt (congrArg Rtype.mk UInt16.ofNat_toNat)

theorem readAs_class (c : Class) : ReadAs c.wire Class.read c :=
  readAs_registered c.code.toNat_lt (congrArg Class.mk UInt16.ofNat_toNat)

theorem readAs_optionCode (c : OptionCode) : ReadAs c.wire OptionCode.read c :=
  readAs_registered c.code.toNat_lt (congrArg OptionCode.mk UInt16.ofNat_toNat)

theorem readAs_tsigRcode (c : TsigRcode) : ReadAs c.wire TsigRcode.read c :=
  readAs_registered c.code.toNat_lt (congrArg TsigRcode.mk UInt16.ofNat_toNat)

/-! ## Times

A time is a number of 64 bits with an octet string of 48. Composing it leaves out the rest without a
word, and so there are two ways to tell what is read back: for any time the one of its lowest 48
bits, and the time itself if there is nothing to leave out. The second is what a record is read back
with, since its time was cut when it was made; the first is needed for times that came from
elsewhere. -/

namespace Time48

variable {t : Time48}

theorem toNat_ofUInt64 (n : UInt64) : (ofUInt64 n).seconds.toNat = n.toNat % 2 ^ 48 := by
  have mask : max.toNat = 2 ^ 48 - 1 := rfl
  rw [ofUInt64, UInt64.toNat_and, mask, Nat.and_two_pow_sub_one_eq_mod]

theorem le_max_iff : t.seconds ≤ max ↔ t.seconds.toNat < 2 ^ 48 :=
  UInt64.le_iff_toNat_le.trans Nat.lt_succ_iff.symm

theorem ofUInt64_le_max (n : UInt64) : (ofUInt64 n).seconds ≤ max := by
  rw [le_max_iff, toNat_ofUInt64]
  exact Nat.mod_lt _ (by decide)

theorem ofUInt64_eq_iff : ofUInt64 t.seconds = t ↔ t.seconds ≤ max := by
  constructor
  · intro same
    rw [← same]
    exact ofUInt64_le_max _
  · intro small
    refine congrArg mk (UInt64.toNat_inj.mp ?_)
    exact (toNat_ofUInt64 t.seconds).trans (Nat.mod_eq_of_lt (le_max_iff.mp small))

/-- The octets of a time are those of its lowest 48 bits. -/
theorem wire_ofUInt64 (t : Time48) : (ofUInt64 t.seconds).wire = t.wire := by
  have back := Octets.ofNat_toNat t.wire
  rw [wire, Octets.length_ofNat, Octets.toNat_ofNat] at back
  rw [wire, toNat_ofUInt64, wire]
  exact back

end Time48

/-- A time of 48 bits is read back. -/
theorem readAs_time48 (t : Time48) (h : t.seconds ≤ Time48.max) :
    ReadAs t.wire Time48.read t := by
  have hlt : t.seconds.toNat < Nat.pow 256 6 :=
    Nat.lt_of_le_of_lt (UInt64.le_iff_toNat_le.mp h) (by decide)
  have key := (readAs_number 6 _ hlt).map fun n => Time48.mk (UInt64.ofNat n)
  rwa [UInt64.ofNat_toNat] at key

/-- Of any time, the lowest 48 bits are read back. -/
theorem readAs_ofUInt64 (t : Time48) : ReadAs t.wire Time48.read (.ofUInt64 t.seconds) := by
  rw [← Time48.wire_ofUInt64]
  exact readAs_time48 _ (Time48.ofUInt64_le_max _)

/-! ## Serial numbers -/

/-- A serial number of 32 bits is read back; others have no octets. -/
theorem readAs_serial {s : Serial} {o : Octets} (h : s.compose = .ok o) :
    ReadAs o Serial.read s := by
  unfold Serial.compose at h
  split at h
  · rename_i bits
    cases h
    have hlt : s.value < Nat.pow 256 4 := by
      have := s.value_lt
      rwa [bits] at this
    have key := ((readAs_number 4 s.value hlt).map UInt32.ofNat).map Serial.ofUInt32
    have same : Serial.ofUInt32 (UInt32.ofNat s.value) = s := by
      cases s
      simp_all [Serial.ofUInt32]
    rwa [same] at key
  · cases h

/-! ## Data with a length in front of them -/

theorem readAs_charString (s : CharString) : ReadAs s.wire CharString.read s := by
  intro m p h
  have hlen : (UInt8.ofNat s.octets.length).toNat = s.octets.length := by
    rw [UInt8.toNat_ofNat']
    exact Nat.mod_eq_of_lt s.short
  have hend : Holds m (p + 1) s.octets := Holds.right (a := [_]) h
  have first : m[p]? = some (UInt8.ofNat s.octets.length) := h.getElem? (i := 0) (Nat.succ_pos _)
  have stop : p + s.wire.length = p + 1 + s.octets.length := by
    rw [CharString.wire, List.length_cons]
    omega
  simp only [CharString.read, first, hlen, stop, if_pos hend.1, hend.extract]

theorem readAs_data (d : Data) : ReadAs d.wire Data.read d := by
  have hlen : (UInt16.ofNat d.octets.length).toNat = d.octets.length := by
    rw [UInt16.toNat_ofNat']
    exact Nat.mod_eq_of_lt d.short
  have body : ReadAs d.octets (Data.readExactly (.ofNat d.octets.length)) d := by
    intro m p h
    simp only [Data.readExactly, hlen, if_pos h.1, h.extract]
  exact ((readAs_number 2 d.octets.length d.short).map UInt16.ofNat).bind body

/-- A value that is so many octets is read back. -/
theorem readAs_exactly {count : Nat} {make : (o : Octets) → o.length = count → α} {o : Octets}
    (h : o.length = count) : ReadAs o (Reader.exactly count make) (make o h) := by
  subst h
  intro m p h
  rw [Reader.exactly, dif_pos h.1]
  simp only [h.extract]

theorem readAs_ipv4 (a : Ipv4) : ReadAs a.octets Ipv4.read a := readAs_exactly a.length_octets

theorem readAs_ipv6 (a : Ipv6) : ReadAs a.octets Ipv6.read a := readAs_exactly a.length_octets

/-- An option that does not only pretend to be of an unknown code. -/
def EdnsOption.Documented : EdnsOption → Prop
  | padding _ => True
  | unknown code _ => code ≠ OptionCode.padding

theorem readAs_ednsOption {o : EdnsOption} (h : o.Documented) :
    ReadAs o.wire EdnsOption.read o := by
  have found : (if o.code = OptionCode.padding then .padding (.ofNat o.data.octets.length)
      else .unknown o.code o.data) = o := by
    cases o with
    | padding length => simp [EdnsOption.code, EdnsOption.data, Data.zeros]
    | unknown code data =>
      have other : code ≠ OptionCode.padding := h
      exact if_neg other
  refine ReadAs.bind (readAs_optionCode o.code) ?_
  have key := (readAs_data o.data).map fun data =>
    if o.code = OptionCode.padding then EdnsOption.padding (.ofNat data.octets.length)
    else EdnsOption.unknown o.code data
  rwa [found] at key

/-! ## Items one after the other

A list in a message has no end mark. Reading goes on while there are octets, and the number of items
that it may find is there to make the recursion end. Here that number is shown to be enough. It is
enough because every item takes one octet at least, and the number is that of the octets. What is
found is the whole list, with nothing left between the last item and the end. -/

/-- Items that are read back alone are read back in a row, as far as the octets go. The number of
items that reading may find only has to suffice. -/
theorem itemsUpTo_eq {item : Reader α} {wire : α → Octets} {m : Array UInt8} {items : List α}
    (h : ∀ a ∈ items, ReadAs (wire a) item a ∧ 0 < (wire a).length) :
    ∀ {p count : Nat} (found : List α), Holds m p (items.flatMap wire) → items.length ≤ count →
      Reader.itemsUpTo item (p + (items.flatMap wire).length) count found m p
        = .ok (found.reverse ++ items) (p + (items.flatMap wire).length) := by
  induction items with
  | nil =>
    intro p count found _ _
    cases count <;> simp [Reader.itemsUpTo]
  | cons a rest ih =>
    intro p count found hold enough
    obtain ⟨back, nonempty⟩ := h a List.mem_cons_self
    rw [List.flatMap_cons] at hold ⊢
    obtain ⟨count, rfl⟩ : ∃ c, count = c + 1 := ⟨count - 1, by simp at enough; omega⟩
    have next := ih (fun b hb => h b (List.mem_cons_of_mem _ hb)) (a :: found)
      hold.right (Nat.le_of_succ_le_succ enough)
    rw [List.length_append, ← Nat.add_assoc, Reader.itemsUpTo]
    simp only [back m p hold.left]
    rw [if_pos (by omega), next]
    simp

theorem itemsUntil_eq (item : Reader α) (wire : α → Octets) {m : Array UInt8} {items : List α}
    {p : Nat} (h : ∀ a ∈ items, ReadAs (wire a) item a ∧ 0 < (wire a).length)
    (hold : Holds m p (items.flatMap wire)) :
    Reader.itemsUntil item (p + (items.flatMap wire).length) m p
      = .ok items (p + (items.flatMap wire).length) := by
  -- Every item has an octet at least, and so there are no more items than octets.
  have enough : items.length ≤ (items.flatMap wire).length := by
    rw [List.length_flatMap, ← List.length_map fun a => (wire a).length]
    refine List.length_le_sum_of_one_le _ fun n hn => ?_
    obtain ⟨a, ha, rfl⟩ := List.mem_map.mp hn
    exact (h a ha).2
  rw [Reader.itemsUntil, itemsUpTo_eq h [] hold (by omega)]
  rfl

end Dns
