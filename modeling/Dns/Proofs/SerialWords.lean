import Dns.Json.Forms
import Dns.Proofs.SerialSteps
import Mathlib.Logic.ExistsUnique

/-!
# Serial numbers in words

A serial number is kept as a word of 64 bits and an octet for the width. Its values are cut off with
a mask, and steps and distances are computed in signed words of 128 bits. The operations are written
here over these words, without a result where an intermediate one would not fit or a shift or a
remainder would not be defined. None of this happens: over a number that is kept they all have the
result that they have over the number (`Serial.add?_stored`, `Serial.compare?_stored`), up to the
largest width, where the mask is a whole word and the modulus has one bit more.

The words that can be made at all are exactly those of a number (`Serial.Stored.made_iff`), from
whichever of the ways they come, and reading them from JSON is one of these. So what is proved over
numbers is true of every word that there is, and it is over numbers that order and steps are
studied.

Some of the conditions are close. A signed word of 128 bits has room for the modulus of 64 bits and
for all sums of a value and a step; a word of 64 bits does not have room for the modulus. A step of
the least signed word has no counterpart with the other sign, but it is too large for every width.
-/

set_option autoImplicit false

namespace Dns

namespace Serial

/-- A serial number as it is kept. -/
structure Stored where
  value : UInt64
  bits : UInt8
  deriving DecidableEq, Repr

def stored (s : Serial) : Stored := ⟨.ofNat s.value, .ofNat s.bits⟩

namespace Stored

/-! ## Operations over words

The text of these follows the operations as they are carried out, with one `none` for each way in
which an operation on words may be undefined. -/

/-- A number that a signed word of 128 bits has to hold. -/
def wide? (n : Int) : Option Int := if -2 ^ 127 ≤ n ∧ n < 2 ^ 127 then some n else none

/-- The nonnegative remainder of a division of signed words of 128 bits. -/
def remainder? (n m : Int) : Option Int :=
  if m = 0 ∨ n = -2 ^ 127 ∧ m = -1 then none else some (n % m)

/-- A word of ones, moved to the right until there is one for every bit of a width. -/
def mask? (bits : UInt8) : Option UInt64 :=
  if 64 < bits then none
  else if 64 ≤ 64 - bits then none
  else some ((0 - 1) >>> (64 - bits).toUInt64)

/-- A one that is moved to the left in a signed word of 128 bits, which may drop it. -/
def modulus? (s : Stored) : Option Int :=
  if s.bits < 128 then some ((2 ^ s.bits.toNat : Int).bmod (2 ^ 128)) else none

def maxDelta? (s : Stored) : Option Int := do wide? ((← s.modulus?) / 2 - 1)

def new? (value : UInt64) (bits : UInt8) : Option (Except SerialError Stored) :=
  if bits = 0 ∨ 64 < bits then some (.error (.badWidth bits.toNat))
  else do return .ok ⟨value &&& (← mask? bits), bits⟩

def ofUInt32 (value : UInt32) : Stored := ⟨value.toUInt64, 32⟩

def withValue? (s : Stored) (value : UInt64) : Option Stored := do
  return ⟨value &&& (← mask? s.bits), s.bits⟩

/-- The number with a value that a step leads to, before it is reduced. -/
def step? (s : Stored) (delta : Int64) (target : Int) : Option (Except SerialError Stored) := do
  let size ← wide? delta.toInt.natAbs
  if (← s.maxDelta?) < size then return .error .deltaOutOfRange
  let value ← remainder? (← wide? target) (← s.modulus?)
  return .ok (← s.withValue? (.ofInt value))

def add? (s : Stored) (delta : Int64) : Option (Except SerialError Stored) :=
  s.step? delta (s.value.toNat + delta.toInt)

def sub? (s : Stored) (delta : Int64) : Option (Except SerialError Stored) :=
  s.step? delta (s.value.toNat - delta.toInt)

def compare? (a b : Stored) : Option (Except SerialError (Option Ordering)) := do
  if a.bits ≠ b.bits then return .error .notComparable
  if a.value = b.value then return .ok (some .eq)
  let modulus ← a.modulus?
  let forward ← remainder? (← wide? (b.value.toNat - a.value.toNat)) modulus
  return .ok (match compare forward (modulus / 2) with
    | .lt => some .lt
    | .gt => some .gt
    | .eq => none)

/-- The words that are made: from a value and a width, from a value of 32 bits, from JSON, and from
other ones by an operation that has a result. -/
inductive Made : Stored → Prop
  | new {value : UInt64} {bits : UInt8} {s : Stored}
      (made : new? value bits = some (.ok s)) : Made s
  | ofUInt32 (value : UInt32) : Made (ofUInt32 value)
  | ofJson {json : Json} {s : Serial} (read : ofJson? json = some s) : Made s.stored
  | withValue {s t : Stored} {value : UInt64} (before : Made s)
      (made : s.withValue? value = some t) : Made t
  | add {s t : Stored} {delta : Int64} (before : Made s)
      (made : s.add? delta = some (.ok t)) : Made t
  | sub {s t : Stored} {delta : Int64} (before : Made s)
      (made : s.sub? delta = some (.ok t)) : Made t

/-! ## Words of 128 bits -/

theorem wide?_eq {n : Int} (low : -2 ^ 127 ≤ n) (high : n < 2 ^ 127) : wide? n = some n :=
  if_pos ⟨low, high⟩

theorem remainder?_eq {n m : Int} (positive : 0 < m) : remainder? n m = some (n % m) :=
  if_neg (by omega)

end Stored

/-! ## Numbers that are kept

Three facts about the widths: a value fits into a word, the mask of a width is a remainder, and the
modulus and the largest step fit into a signed word. -/

theorem modulus_pos (s : Serial) : 0 < s.modulus := Nat.two_pow_pos _

theorem modulus_le (s : Serial) : s.modulus ≤ 2 ^ 64 := Nat.pow_le_pow_right (by decide) s.bits_le

theorem value_lt_word (s : Serial) : s.value < 2 ^ 64 := Nat.lt_of_lt_of_le s.value_lt s.modulus_le

@[simp] theorem toNat_stored_value (s : Serial) : s.stored.value.toNat = s.value :=
  UInt64.toNat_ofNat_of_lt' s.value_lt_word

@[simp] theorem toNat_stored_bits (s : Serial) : s.stored.bits.toNat = s.bits :=
  UInt8.toNat_ofNat_of_lt' (Nat.lt_of_le_of_lt s.bits_le (by decide))

theorem stored_eq_iff {n : Serial} {s : Stored} :
    n.stored = s ↔ n.value = s.value.toNat ∧ n.bits = s.bits.toNat := by
  constructor
  · rintro rfl
    rw [toNat_stored_value, toNat_stored_bits]
    exact ⟨rfl, rfl⟩
  · rintro ⟨value, bits⟩
    rw [stored, value, bits, UInt64.ofNat_toNat, UInt8.ofNat_toNat]

/-- The numbers that are kept are those of a width of 1 to 64 bits with a value of this width. -/
theorem exists_stored_iff {s : Stored} : (∃ n : Serial, n.stored = s) ↔
    1 ≤ s.bits.toNat ∧ s.bits.toNat ≤ 64 ∧ s.value.toNat < 2 ^ s.bits.toNat := by
  constructor
  · rintro ⟨n, rfl⟩
    rw [toNat_stored_bits, toNat_stored_value]
    exact ⟨n.bits_pos, n.bits_le, n.value_lt⟩
  · rintro ⟨pos, le, lt⟩
    exact ⟨⟨_, _, pos, le, lt⟩, stored_eq_iff.mpr ⟨rfl, rfl⟩⟩

/-- The mask of a width leaves the value modulo the number of values of this width. -/
theorem mask?_eq {bits : UInt8} (pos : 1 ≤ bits.toNat) (le : bits.toNat ≤ 64) :
    ∃ mask, Stored.mask? bits = some mask ∧
      ∀ value : UInt64, (value &&& mask).toNat = value.toNat % 2 ^ bits.toNat := by
  have fits : ¬ 64 < bits := by
    rw [UInt8.lt_iff_toNat_lt]
    exact Nat.not_lt.mpr le
  have amount : (64 - bits).toNat = 64 - bits.toNat :=
    UInt8.toNat_sub_of_le _ _ (UInt8.not_lt.mp fits)
  have defined : ¬ 64 ≤ 64 - bits := by
    rw [UInt8.le_iff_toNat_le, amount]
    exact Nat.not_le.mpr (Nat.sub_lt (by decide) pos)
  -- The widths are 1 to 64, and their masks are compared one by one.
  have ones : ∀ w < 65, 1 ≤ w → (2 ^ 64 - 1) >>> ((64 - w) % 64) = 2 ^ w - 1 := by decide
  refine ⟨_, by rw [Stored.mask?, if_neg fits, if_neg defined], ?_⟩
  intro value
  rw [UInt64.toNat_and, UInt64.toNat_shiftRight, UInt8.toNat_toUInt64, amount]
  rw [← Nat.and_two_pow_sub_one_eq_mod, ← ones bits.toNat (by omega) pos]
  rfl

theorem modulus?_stored (s : Serial) : s.stored.modulus? = some (s.modulus : Int) := by
  have small : s.stored.bits < 128 := by
    rw [UInt8.lt_iff_toNat_lt, toNat_stored_bits]
    exact Nat.lt_of_le_of_lt s.bits_le (by decide)
  have bound := s.modulus_le
  rw [Stored.modulus?, if_pos small, toNat_stored_bits]
  have size : (2 ^ s.bits : Int) = s.modulus := by
    rw [modulus]
    exact (Int.natCast_pow 2 s.bits).symm
  rw [size, Int.bmod_eq_of_le (by omega) (by omega)]

theorem maxDelta?_stored (s : Serial) : s.stored.maxDelta? = some (s.maxDelta : Int) := by
  have positive := s.half_pos
  have bound := s.half_le
  rw [Stored.maxDelta?, modulus?_stored, Option.bind_eq_bind, Option.bind_some, maxDelta_eq,
    modulus_eq, Stored.wide?_eq (by omega) (by omega)]
  congr 1
  omega

/-! ## What the operations compute

In every one of these the bounds of the intermediate results come first, and the rest is the same
computation on both sides. It is these bounds that keep a word from turning over, and they are the
reason that no result is `none`. -/

theorem new?_eq (value : UInt64) (bits : UInt8) :
    Stored.new? value bits = some ((ofWidth value.toNat bits.toNat).map stored) := by
  have refused : bits = 0 ∨ 64 < bits ↔ ¬ (0 < bits.toNat ∧ bits.toNat ≤ 64) := by
    rw [UInt8.lt_iff_toNat_lt, ← UInt8.toNat_inj]
    show bits.toNat = 0 ∨ 64 < bits.toNat ↔ _
    omega
  unfold Stored.new? ofWidth
  by_cases width : 0 < bits.toNat ∧ bits.toNat ≤ 64
  · obtain ⟨mask, found, masked⟩ := mask?_eq width.1 width.2
    rw [dif_pos width, if_neg (mt refused.mp (not_not.mpr width)), found]
    exact congrArg (some ∘ Except.ok) (stored_eq_iff.mpr ⟨(masked value).symm, rfl⟩).symm
  · rw [dif_neg width, if_pos (refused.mpr width)]
    rfl

theorem withValue?_stored (s : Serial) (value : UInt64) :
    s.stored.withValue? value = some (s.withValue value.toNat).stored := by
  have bits := s.toNat_stored_bits
  have pos : 1 ≤ s.stored.bits.toNat := bits ▸ s.bits_pos
  have le : s.stored.bits.toNat ≤ 64 := bits ▸ s.bits_le
  obtain ⟨mask, found, masked⟩ := mask?_eq pos le
  rw [bits] at masked
  have cut : (s.withValue value.toNat).stored = ⟨value &&& mask, s.stored.bits⟩ :=
    stored_eq_iff.mpr ⟨(masked value).symm, bits.symm⟩
  rw [Stored.withValue?, found, cut]
  rfl

theorem ofUInt32_stored (value : UInt32) : (ofUInt32 value).stored = Stored.ofUInt32 value :=
  stored_eq_iff.mpr ⟨(UInt32.toNat_toUInt64 value).symm, rfl⟩

/-- A step is taken over words as it is over numbers. -/
theorem step?_stored (s : Serial) (delta : Int64) {target : Int}
    (low : (s.value : Int) - delta.toInt.natAbs ≤ target)
    (high : target ≤ (s.value : Int) + delta.toInt.natAbs) :
    s.stored.step? delta target = some (if s.maxDelta < delta.toInt.natAbs then
      .error .deltaOutOfRange else .ok (s.withValue (target % s.modulus).toNat).stored) := by
  have value := s.value_lt_word
  have least := delta.le_toInt
  have most := delta.toInt_lt
  have bound := s.modulus_le
  have positive : 0 < (s.modulus : Int) := Int.natCast_pos.mpr s.modulus_pos
  have nonnegative := Int.emod_nonneg target (Int.ne_of_gt positive)
  have reduced := Int.emod_lt_of_pos target positive
  have fits : (target % (s.modulus : Int)).toNat < 2 ^ 64 := by omega
  -- The remainder is not negative and below the modulus, and so it is the same number as a word.
  have word : (UInt64.ofInt (target % s.modulus)).toNat = (target % (s.modulus : Int)).toNat := by
    rw [UInt64.ofInt, Int.emod_eq_of_lt (b := 2 ^ 64) nonnegative (by omega)]
    exact UInt64.toNat_ofNat_of_lt' fits
  unfold Stored.step?
  rw [Stored.wide?_eq (by omega) (by omega), maxDelta?_stored, modulus?_stored,
    Stored.wide?_eq (by omega) (by omega)]
  simp only [Option.bind_eq_bind, Option.bind_some, Stored.remainder?_eq positive,
    withValue?_stored, word, Int.ofNat_lt]
  split <;> rfl

theorem add?_stored (s : Serial) (delta : Int64) :
    s.stored.add? delta = some ((s.add delta.toInt).map stored) := by
  rw [Stored.add?, toNat_stored_value, step?_stored s delta (by omega) (by omega), add]
  split <;> rfl

theorem sub?_stored (s : Serial) (delta : Int64) :
    s.stored.sub? delta = some ((s.sub delta.toInt).map stored) := by
  rw [Stored.sub?, toNat_stored_value, step?_stored s delta (by omega) (by omega), sub]
  split <;> rfl

theorem forward_eq_emod (a b : Serial) :
    (a.forward b : Int) = ((b.value : Int) - a.value) % a.modulus := by
  have bound : a.value < a.modulus := a.value_lt
  calc (a.forward b : Int)
      = ((b.value + a.modulus - a.value : Nat) : Int) % a.modulus := Int.natCast_emod ..
    _ = ((b.value : Int) - a.value + a.modulus) % a.modulus := by congr 1; omega
    _ = ((b.value : Int) - a.value) % a.modulus := Int.add_emod_right ..

/-- Numbers are compared over words as they are. -/
theorem compare?_stored (a b : Serial) : a.stored.compare? b.stored = some (a.compare? b) := by
  have first := a.value_lt_word
  have second := b.value_lt_word
  have widths : a.stored.bits = b.stored.bits ↔ a.bits = b.bits := by
    rw [← UInt8.toNat_inj, toNat_stored_bits, toNat_stored_bits]
  have values : a.stored.value = b.stored.value ↔ a.value = b.value := by
    rw [← UInt64.toNat_inj, toNat_stored_value, toNat_stored_value]
  have half : (a.modulus : Int) / 2 = a.half := by
    rw [modulus_eq]
    omega
  unfold Stored.compare?
  by_cases same : a.bits = b.bits
  · rw [compare?_same same, if_neg (not_not.mpr (widths.mpr same)), toNat_stored_value,
      toNat_stored_value, modulus?_stored, Stored.wide?_eq (by omega) (by omega)]
    simp only [values, Option.bind_eq_bind, Option.bind_some, half, Stored.remainder?_eq
      (Int.natCast_pos.mpr a.modulus_pos), ← forward_eq_emod]
    split
    · rfl
    · -- The words ask twice, whether the way forward is less than half or more, and the third case
      -- is what is left.
      rcases Int.lt_trichotomy (a.forward b) a.half with near | middle | far
      · rw [Int.compare_eq_lt.mpr near, if_pos (Int.ofNat_lt.mp near)]
        rfl
      · rw [Int.compare_eq_eq.mpr middle, if_neg (by omega), if_neg (by omega)]
        rfl
      · rw [Int.compare_eq_gt.mpr far, if_neg (by omega), if_pos (Int.ofNat_lt.mp far)]
        rfl
  · rw [compare?_different same, if_pos (mt widths.mp same)]
    rfl

/-! ## Words that are made -/

theorem ofWidth_self (n : Serial) : ofWidth n.value n.bits = .ok n := by
  rw [ofWidth, dif_pos ⟨n.bits_pos, n.bits_le⟩]
  exact congrArg Except.ok (eq_iff.mpr ⟨Nat.mod_eq_of_lt n.value_lt, rfl⟩)

theorem exists_of_map_stored {result : Except SerialError Serial} {s : Stored}
    (h : some (result.map stored) = some (.ok s)) : ∃ n : Serial, n.stored = s := by
  cases result with
  | error e => cases h
  | ok n => exact ⟨n, Except.ok.inj (Option.some.inj h)⟩

/-- What is made are the numbers that are kept, and nothing else. -/
theorem Stored.made_iff {s : Stored} : s.Made ↔ ∃ n : Serial, n.stored = s := by
  constructor
  · intro made
    induction made with
    | new made => exact exists_of_map_stored (new?_eq .. ▸ made)
    | ofUInt32 value => exact ⟨_, ofUInt32_stored value⟩
    | ofJson => exact ⟨_, rfl⟩
    | withValue _ made ih =>
      obtain ⟨n, rfl⟩ := ih
      exact ⟨_, Option.some.inj (withValue?_stored .. ▸ made)⟩
    | add _ made ih =>
      obtain ⟨n, rfl⟩ := ih
      exact exists_of_map_stored (add?_stored .. ▸ made)
    | sub _ made ih =>
      obtain ⟨n, rfl⟩ := ih
      exact exists_of_map_stored (sub?_stored .. ▸ made)
  · rintro ⟨n, rfl⟩
    have made : new? n.stored.value n.stored.bits = some (.ok n.stored) := by
      rw [new?_eq, toNat_stored_value, toNat_stored_bits, ofWidth_self]
      rfl
    exact .new made

/-! ## Steps in words of 64 bits -/

theorem toInt_ofInt_of_lt_half {a : Serial} {d : Int} (small : d.natAbs < a.half) :
    (Int64.ofInt d).toInt = d := by
  have bound := a.half_le
  exact Int64.toInt_ofInt_of_le (by omega) (by omega)

/-- A step back is a step on by the negated word, also by the least word, which is its own negation
and too large a step. -/
theorem sub_eq_add_neg_word (a : Serial) (d : Int64) : a.sub d.toInt = a.add (-d).toInt := by
  have least := d.le_toInt
  have most := d.toInt_lt
  have bound := a.half_le
  rw [sub_eq_add_neg, Int64.toInt_neg]
  rcases Int.lt_or_eq_of_le least with inside | edge
  · rw [Int.bmod_eq_of_le (by omega) (by omega)]
  · have itself : (- -2 ^ 63 : Int).bmod (2 ^ 64) = -2 ^ 63 := by decide
    rw [← edge, itself, add_error_iff.mpr ⟨rfl, by omega⟩, add_error_iff.mpr ⟨rfl, by omega⟩]

/-- One step leads from a number to another one of its width, unless they are opposite. -/
theorem existsUnique_add_word {a b : Serial} (same : a.bits = b.bits) :
    (∃! d : Int64, a.add d.toInt = .ok b) ↔ ¬ a.Opposite b := by
  constructor
  · rintro ⟨d, step, -⟩
    exact not_opposite_of_add step
  · intro apart
    obtain ⟨d, step⟩ := exists_add same apart
    have word := toInt_ofInt_of_lt_half (add_ok_iff.mp step).1
    refine ⟨.ofInt d, (congrArg a.add word).trans step, ?_⟩
    intro e step'
    exact Int64.toInt_inj.mp (by rw [word, add_inj step' step])

/-- The words that are made are those with a value of their width, and over words everything has the
result that it has over numbers. A step is taken exactly if it is less than half of the values of
the width, can be taken back, and is the step back by its negation; a comparison tells its
direction. One step leads from a number to any other one of its width that is not opposite, and the
opposite one is neither larger nor smaller. The other way round a comparison has the other result,
and there is none between different widths. -/
theorem steps_agree_with_order :
    (∀ s : Stored, s.Made ↔
      1 ≤ s.bits.toNat ∧ s.bits.toNat ≤ 64 ∧ s.value.toNat < 2 ^ s.bits.toNat) ∧
    (∀ (value : UInt64) (bits : UInt8),
      Stored.new? value bits = some ((ofWidth value.toNat bits.toNat).map stored)) ∧
    (∀ (a b : Serial) (value : UInt64) (d : Int64),
      a.stored.withValue? value = some (a.withValue value.toNat).stored ∧
      a.stored.add? d = some ((a.add d.toInt).map stored) ∧
      a.stored.sub? d = some ((a.sub d.toInt).map stored) ∧
      a.stored.compare? b.stored = some (a.compare? b)) ∧
    (∀ (a : Serial) (d : Int64),
      ((∃ b, a.add d.toInt = .ok b) ↔ d.toInt.natAbs ≤ 2 ^ (a.bits - 1) - 1) ∧
      ((∃ b, a.sub d.toInt = .ok b) ↔ d.toInt.natAbs ≤ 2 ^ (a.bits - 1) - 1) ∧
      a.sub d.toInt = a.add (-d).toInt ∧
      ∀ b, a.add d.toInt = .ok b →
        b.bits = a.bits ∧ b.sub d.toInt = .ok a ∧
          a.compare? b = .ok (some (compare 0 d.toInt))) ∧
    (∀ a b : Serial, a.bits = b.bits →
      ((∃! d : Int64, a.add d.toInt = .ok b) ↔ ¬ a.Opposite b) ∧
      (a.compare? b = .ok none ↔ a.Opposite b)) ∧
    (∀ a b : Serial, b.compare? a = (a.compare? b).map (Option.map Ordering.swap)) ∧
    (∀ a b : Serial, a.bits ≠ b.bits →
      a.compare? b = .error .notComparable ∧ b.compare? a = .error .notComparable ∧
        a.partialCompare b = none ∧ b.partialCompare a = none) := by
  refine ⟨?_, new?_eq, ?_, ?_, ?_, compare?_swap, ?_⟩
  · intro s
    exact Stored.made_iff.trans exists_stored_iff
  · intro a b value d
    exact ⟨withValue?_stored a value, add?_stored a d, sub?_stored a d, compare?_stored a b⟩
  · -- Going back by a step is going forward by its negation, which has the same size.
    intro a d
    refine ⟨add_succeeds_iff, ?_, sub_eq_add_neg_word a d, ?_⟩
    · rw [sub_eq_add_neg, add_succeeds_iff, Int.natAbs_neg]
    · intro b step
      refine ⟨(add_ok_iff.mp step).2.1, ?_, compare?_add step⟩
      rw [sub_eq_add_neg]
      exact add_reverse step
  · intro a b same
    exact ⟨existsUnique_add_word same, compare?_none_iff same⟩
  · intro a b different
    have first := compare?_different different
    have second := compare?_different (Ne.symm different)
    exact ⟨first, second, by rw [partialCompare, first], by rw [partialCompare, second]⟩

/-- A step past the last number of a width, and back. -/
theorem steps_agree_past_turn : ∃ a b : Serial, ofWidth 250 8 = .ok a ∧ ofWidth 4 8 = .ok b ∧
    a.add (10 : Int64).toInt = .ok b ∧ b.sub (10 : Int64).toInt = .ok a ∧
      a.compare? b = .ok (some .lt) := by
  let a : Serial := ⟨250, 8, by decide, by decide, by decide⟩
  let b : Serial := ⟨4, 8, by decide, by decide, by decide⟩
  have step : a.add (10 : Int64).toInt = .ok b := add_ok_iff.mpr ⟨by decide, rfl, by decide⟩
  obtain ⟨-, back, order⟩ := (steps_agree_with_order.2.2.2.1 a 10).2.2.2 b step
  exact ⟨a, b, rfl, rfl, step, back, order⟩

end Serial

end Dns
