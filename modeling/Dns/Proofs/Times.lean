import Dns.Json.Forms
import Dns.Proofs.JsonNumbers
import Dns.Proofs.ReadData
import Dns.Proofs.Signatures

/-!
# Times and their 48 bits

A time made of a number keeps its lowest 48 bits, and one that is read from a message has no others.
So both are read back from their own octets (`Time48.read_ok_iff`). A time from a JSON text keeps
all bits of its number (`Time48.ofJsonText?_eq_some_iff`), and if there are more than 48, it is
larger than the largest time and its octets are those of another one (`Time48.wire_ofUInt64`).

Times are words of 64 bits, and the bound on them is not part of the type, because one of the three
ways to make a time does not keep it. Therefore each statement about times here says what it needs:
nothing about nearness does, and of reading and writing octets it is told which times they belong
to.

Whether times are near each other can be found in words of 64 bits: one of the times is moved down
and up, but not below zero and not beyond the largest word. This is the same as comparing their
distance, since the other time is not beyond these ends either (`Time48.withinWords_eq`). It is also
the same from both sides (`Time48.within_comm`), although the words are not: it is always the first
time that is moved. Signatures are checked with this, and the times that they tell are those of
their record.
-/

set_option autoImplicit false

namespace Dns.Time48

variable {t : Time48} {m : Array UInt8} {p q : Nat}

/-! ## Octets

Six octets are 48 bits. What is above them is lost where a time is written, and so the octets of a
time are always those of one that has no more. Read and written again, they are the same six octets;
written and read again, a time is the same if it had no more than 48 bits. -/

/-- The times that are read from a message are those of 48 bits, from their octets. -/
theorem read_ok_iff : read m p = .ok t q ↔ t.seconds ≤ max ∧ Spans m p t.wire q := by
  constructor
  · intro h
    obtain ⟨n, s, number, last⟩ := Reader.bind_ok h
    cases last
    obtain ⟨small, spans⟩ := number_ok number
    have fits : n < 2 ^ 64 := Nat.lt_trans small (by decide)
    refine ⟨RecordData.time48_ok h, ?_⟩
    rwa [wire, UInt64.toNat_ofNat', Nat.mod_eq_of_lt fits]
  · rintro ⟨small, holds, rfl⟩
    exact readAs_time48 t small m p holds

/-- What is read from the octets of a time are its lowest 48 bits. -/
theorem read_wire (t : Time48) : read t.wire.toArray 0 = .ok (ofUInt64 t.seconds) 6 := by
  have length : t.wire.length = 6 := Octets.length_ofNat 6 _
  rw [readAs_ofUInt64 t _ _ (holds_toArray t.wire), length]

/-! ## JSON -/

/-- The time that a JSON text means. -/
def ofJsonText? (text : String) : Option Time48 := do ofJson? (← Json.ofText? text)

theorem ofJson?_eq_some_iff {json : Json} :
    ofJson? json = some t ↔ json = .number (some t.seconds.toNat) := by
  simp only [ofJson?, Option.bind_eq_bind, Option.bind_eq_some_iff]
  constructor
  · rintro ⟨n, natural, made⟩
    cases made
    unfold Json.natural? at natural
    split at natural
    · split at natural
      · rename_i small
        cases natural
        exact congrArg (Json.number <| some ·) (UInt64.toNat_ofNat_of_lt' small).symm
      · cases natural
    · cases natural
  · rintro rfl
    -- Numbers are refused from 2 ^ 64 on, and no time has so many seconds.
    refine ⟨t.seconds.toNat, if_pos t.seconds.toNat_lt, ?_⟩
    rw [UInt64.ofNat_toNat]
    rfl

/-- A JSON text means the time that it tells the number of, however large that is. -/
theorem ofJsonText?_eq_some_iff {text : String} :
    ofJsonText? text = some t ↔ Json.Tells text.toList t.seconds.toNat := by
  rw [← Json.ofText?_number_iff, ofJsonText?, Option.bind_eq_bind, Option.bind_eq_some_iff]
  simp only [ofJson?_eq_some_iff, exists_eq_right]

/-- What is written for a time is read back, even if it is no time of 48 bits. -/
theorem ofJsonText?_json (t : Time48) : ofJsonText? t.json = some t := by
  rw [ofJsonText?_eq_some_iff, json, text, String.toList_ofList]
  exact ⟨[], [], (List.append_nil _).symm, List.forall_mem_nil _, List.forall_mem_nil _⟩

/-! ## Nearness

Words wrap around, and both operations on them ask first whether they would. That a sum wrapped is
seen by its being smaller than what was added to. Up to the largest word the window is the one of
the numbers, and from there on a sum stays at that word instead of starting again at zero. -/

/-- The difference of two words, or zero if that is negative. -/
def saturatingSub (a b : UInt64) : UInt64 := if b ≤ a then a - b else 0

/-- The sum of two words, or the largest word if that is too large. -/
def saturatingAdd (a b : UInt64) : UInt64 := if a ≤ a + b then a + b else .ofNat (2 ^ 64 - 1)

/-- Nearness without numbers beyond 64 bits. -/
def withinWords (t other : Time48) (fudge : UInt64) : Bool :=
  decide (saturatingSub t.seconds fudge ≤ other.seconds)
    && decide (saturatingAdd t.seconds fudge ≥ other.seconds)

theorem toNat_saturatingSub (a b : UInt64) :
    (saturatingSub a b).toNat = a.toNat - b.toNat := by
  unfold saturatingSub
  split
  · rename_i less
    exact UInt64.toNat_sub_of_le _ _ less
  · rename_i more
    have more : ¬ b.toNat ≤ a.toNat := more
    exact (Nat.sub_eq_zero_of_le (Nat.le_of_not_le more)).symm

theorem toNat_saturatingAdd (a b : UInt64) :
    (saturatingAdd a b).toNat = min (a.toNat + b.toNat) (2 ^ 64 - 1) := by
  have ha := a.toNat_lt
  have hb := b.toNat_lt
  have sum := UInt64.toNat_add a b
  unfold saturatingAdd
  split
  · rename_i fits
    have fits : a.toNat ≤ (a + b).toNat := fits
    omega
  · rename_i wrapped
    have wrapped : ¬ a.toNat ≤ (a + b).toNat := wrapped
    rw [UInt64.toNat_ofNat']
    omega

theorem withinWords_eq (t other : Time48) (fudge : UInt64) :
    t.withinWords other fudge = t.within other fudge.toNat := by
  have small := other.seconds.toNat_lt
  have down : saturatingSub t.seconds fudge ≤ other.seconds ↔
      t.seconds.toNat ≤ other.seconds.toNat + fudge.toNat := by
    rw [UInt64.le_iff_toNat_le, toNat_saturatingSub, Nat.sub_le_iff_le_add]
  have up : saturatingAdd t.seconds fudge ≥ other.seconds ↔
      other.seconds.toNat ≤ t.seconds.toNat + fudge.toNat := by
    rw [ge_iff_le, UInt64.le_iff_toNat_le, toNat_saturatingAdd]
    omega
  simp only [withinWords, within, down, up]

theorem within_comm (t other : Time48) (fudge : Nat) :
    t.within other fudge = other.within t fudge :=
  Bool.and_comm _ _

/-- A time is near another exactly if their distance is at most what is allowed. -/
theorem withinWords_iff (t other : Time48) (fudge : UInt64) : t.withinWords other fudge = true ↔
    ((t.seconds.toNat : Int) - other.seconds.toNat).natAbs ≤ fudge.toNat := by
  rw [withinWords_eq, within_iff]

/-- Times of numbers and those that are read from a message have 48 bits. A JSON text means the time
of its number, whatever number of 64 bits that is. What is read from the octets of a time are its
lowest 48 bits, and so it is the same time exactly if it has no more. Nearness is a matter of the
distance for all of them. -/
theorem only_json_exceeds_max (n fudge : UInt64) (m : Array UInt8) (p q : Nat) (text : String)
    (t other : Time48) (s : Tsig) :
    ((ofUInt64 n).seconds ≤ max ∧ (ofUInt64 n).seconds.toNat = n.toNat % 2 ^ 48) ∧
    (read m p = .ok t q ↔ t.seconds ≤ max ∧ Spans m p t.wire q) ∧
    (ofJsonText? text = some t ↔ Json.Tells text.toList t.seconds.toNat) ∧
    ofJsonText? t.json = some t ∧
    read t.wire.toArray 0 = .ok (ofUInt64 t.seconds) 6 ∧
    (read t.wire.toArray 0 = .ok t 6 ↔ t.seconds ≤ max) ∧
    (t.withinWords other fudge = true ↔
      ((t.seconds.toNat : Int) - other.seconds.toNat).natAbs ≤ fudge.toNat) ∧
    t.withinWords other fudge = other.withinWords t fudge ∧
    t.withinWords other fudge = t.within other fudge.toNat ∧
    (s.isValidAt t = true ↔
      ((t.seconds.toNat : Int) - s.time.seconds.toNat).natAbs ≤ s.fudge.toNat) := by
  refine ⟨⟨ofUInt64_le_max n, toNat_ofUInt64 n⟩, read_ok_iff, ofJsonText?_eq_some_iff,
    ofJsonText?_json t, read_wire t, ?_, withinWords_iff t other fudge, ?_,
    withinWords_eq t other fudge, within_iff⟩
  · rw [read_wire, ← ofUInt64_eq_iff, Outcome.ok.injEq]
    exact and_iff_left rfl
  · rw [withinWords_eq, withinWords_eq, within_comm]

/-- The smallest number of 49 bits is read from a JSON text, and zero is read from its octets. -/
theorem json_beyond_max :
    ofJsonText? "281474976710656" = some ⟨281474976710656⟩ ∧
    ¬ (281474976710656 : UInt64) ≤ max ∧
    read (wire ⟨281474976710656⟩).toArray 0 = .ok ⟨0⟩ 6 := by
  refine ⟨?_, by decide, rfl⟩
  rw [ofJsonText?_eq_some_iff]
  exact ⟨[], [], rfl, List.forall_mem_nil _, List.forall_mem_nil _⟩

end Dns.Time48
