import Dns.Serial
import Mathlib.Algebra.Group.Nat.Defs
import Mathlib.Algebra.Ring.Int.Defs
import Mathlib.Tactic.ByContra

/-!
# Steps and order of serial numbers

Numbers of one width lie on a circle with twice `Serial.half` places. Comparing two of them and
taking a step from one to the other are written apart, the one over the distance forward and the
other over a remainder, and here they come together: a step that may be taken leads from `a` to `b`
exactly if `b` is `a` moved by it, once around the circle at most (`Serial.add_ok_iff`). With this
there is one such step between any two numbers that are not opposite, and its sign is their order.

`add_ok_iff` has no remainder in it. It says in linear arithmetic where a step leads, with one of
three turns, and whatever follows from it, that a step can be taken back, that there is only one,
and that opposite numbers are never reached, is left to a decision procedure.

The order is not transitive, and none of this needs it to be. Between opposite numbers it says
nothing, because both ways round are equally long, and this is the only such case
(`Serial.compare?_none_iff`). For the width of one bit the two numbers are opposite and the only
step is that of nothing.
-/

set_option autoImplicit false

namespace Dns

namespace Serial

variable {a b : Serial} {d e : Int}

/-! ## The circle

A width of `n` bits has `2 ^ n` values. The half is a power of two, too, and it is not zero even for
a single bit. -/

/-- Half of the values of a width. -/
def half (s : Serial) : Nat := 2 ^ (s.bits - 1)

theorem modulus_eq (s : Serial) : s.modulus = 2 * s.half := by
  have width : s.bits - 1 + 1 = s.bits := Nat.sub_add_cancel s.bits_pos
  calc s.modulus = 2 ^ (s.bits - 1 + 1) := by rw [width]; rfl
    _ = 2 * s.half := Nat.pow_succ'

theorem half_pos (s : Serial) : 0 < s.half := Nat.two_pow_pos _

theorem half_le (s : Serial) : s.half ≤ 2 ^ 63 :=
  Nat.pow_le_pow_right (by decide) (by have := s.bits_le; omega)

theorem value_lt_double (s : Serial) : s.value < 2 * s.half :=
  s.modulus_eq ▸ s.value_lt

theorem maxDelta_eq (s : Serial) : s.maxDelta = s.half - 1 := by
  rw [maxDelta, modulus_eq, Nat.mul_div_cancel_left _ (by decide)]

theorem half_eq (same : a.bits = b.bits) : a.half = b.half := by
  rw [half, half, same]

theorem eq_iff : a = b ↔ a.value = b.value ∧ a.bits = b.bits := by
  constructor
  · rintro rfl
    exact ⟨rfl, rfl⟩
  · rintro ⟨value, bits⟩
    cases a
    cases b
    cases value
    cases bits
    rfl

/-- Two numbers of one width with half of the values of this width between them. -/
def Opposite (a b : Serial) : Prop :=
  a.bits = b.bits ∧ ((a.value : Int) - b.value).natAbs = 2 ^ (a.bits - 1)

theorem Opposite.symm (h : a.Opposite b) : b.Opposite a :=
  ⟨h.1.symm, by rw [← h.1, ← h.2]; omega⟩

/-! ## Steps

A step is less than half of the circle, and so the place that it leads to is off by one turn at
most. Two steps of this size that lead to the same place are therefore the same step, and every
place can be reached by one except that which is just half of the circle away. -/

/-- A remainder is reached with one turn of the circle at most. -/
theorem emod_double {n : Int} {h : Nat} (low : -2 * (h : Int) ≤ n) (high : n < 4 * (h : Int)) :
    n % (2 * h) = n ∨ n % (2 * h) = n + 2 * h ∨ n % (2 * h) = n - 2 * h := by
  rcases Int.lt_or_le n 0 with below | above
  · right; left
    rw [← Int.add_emod_right, Int.emod_eq_of_lt (by omega) (by omega)]
  · rcases Int.lt_or_le n (2 * h) with within | beyond
    · left
      exact Int.emod_eq_of_lt above within
    · right; right
      rw [← Int.sub_emod_right, Int.emod_eq_of_lt (by omega) (by omega)]

/-- The number at the place that is reached with one turn of the circle at most. -/
theorem withValue_eq_iff {n : Int} (low : -2 * (a.half : Int) ≤ n) (high : n < 4 * (a.half : Int)) :
    a.withValue (n % a.modulus).toNat = b ↔
      b.bits = a.bits ∧ ((b.value : Int) = n ∨ (b.value : Int) = n + 2 * a.half ∨
        (b.value : Int) = n - 2 * a.half) := by
  have positive := a.half_pos
  have size : (a.modulus : Int) = 2 * a.half := by rw [modulus_eq, Int.natCast_mul]; rfl
  have place := emod_double low high
  have nonnegative : 0 ≤ n % (2 * (a.half : Int)) := Int.emod_nonneg _ (by omega)
  have small : n % (2 * (a.half : Int)) < 2 * a.half := Int.emod_lt_of_pos _ (by omega)
  have value : (a.withValue (n % a.modulus).toNat).value = (n % (2 * (a.half : Int))).toNat := by
    rw [size]
    exact Nat.mod_eq_of_lt (by rw [← modulus, modulus_eq]; omega)
  rw [eq_iff, value]
  constructor
  · rintro ⟨number, width⟩
    exact ⟨width.symm, by omega⟩
  · rintro ⟨width, number⟩
    have bound := b.value_lt_double
    rw [half_eq width] at bound
    exact ⟨by omega, width.symm⟩

theorem add_error_iff {x : SerialError} :
    a.add d = .error x ↔ x = .deltaOutOfRange ∧ a.half ≤ d.natAbs := by
  have positive := a.half_pos
  unfold add
  rw [maxDelta_eq]
  split
  · exact ⟨fun h => ⟨(Except.error.inj h).symm, by omega⟩, fun h => by rw [h.1]⟩
  · exact ⟨nofun, fun h => by omega⟩

/-- A step leads to a number exactly if it is less than half of the circle and the number is where
it leads, with or without a turn of the circle in either direction. -/
theorem add_ok_iff : a.add d = .ok b ↔
    d.natAbs < a.half ∧ b.bits = a.bits ∧
      ((b.value : Int) = a.value + d ∨ (b.value : Int) = a.value + d + 2 * a.half ∨
        (b.value : Int) = a.value + d - 2 * a.half) := by
  have positive := a.half_pos
  have bound := a.value_lt_double
  unfold add
  rw [maxDelta_eq]
  split
  · exact ⟨nofun, fun h => by omega⟩
  · rw [Except.ok.injEq, withValue_eq_iff (by omega) (by omega), iff_and_self]
    intro
    omega

theorem sub_eq_add_neg (a : Serial) (d : Int) : a.sub d = a.add (-d) := by
  rw [sub, add, Int.natAbs_neg, Int.sub_eq_add_neg]

/-- A step is taken exactly if it is not too large, in either direction. -/
theorem add_succeeds_iff : (∃ b, a.add d = .ok b) ↔ d.natAbs ≤ 2 ^ (a.bits - 1) - 1 := by
  have positive := a.half_pos
  rw [← half]
  cases result : a.add d with
  | error x =>
    have large := (add_error_iff.mp result).2
    constructor
    · rintro ⟨b, taken⟩
      cases taken
    · intro small
      omega
  | ok b =>
    have small := (add_ok_iff.mp result).1
    exact ⟨fun _ => by omega, fun _ => ⟨b, rfl⟩⟩

/-- A step can be taken back. -/
theorem add_reverse (h : a.add d = .ok b) : b.add (-d) = .ok a := by
  obtain ⟨small, width, place⟩ := add_ok_iff.mp h
  rw [add_ok_iff, half_eq width]
  exact ⟨by omega, width.symm, by omega⟩

/-- Only one step leads from one number to another. -/
theorem add_inj (first : a.add d = .ok b) (second : a.add e = .ok b) : d = e := by
  obtain ⟨small, -, place⟩ := add_ok_iff.mp first
  obtain ⟨small', -, place'⟩ := add_ok_iff.mp second
  omega

theorem not_opposite_of_add (h : a.add d = .ok b) : ¬ a.Opposite b := by
  obtain ⟨small, -, place⟩ := add_ok_iff.mp h
  rintro ⟨-, distance⟩
  rw [← half] at distance
  omega

/-- There is a step between two numbers of one width that are not opposite. -/
theorem exists_add (same : a.bits = b.bits) (apart : ¬ a.Opposite b) : ∃ d, a.add d = .ok b := by
  have positive := a.half_pos
  have first := a.value_lt_double
  have second := b.value_lt_double
  rw [← half_eq same] at second
  have distance : ((a.value : Int) - b.value).natAbs ≠ a.half := fun half => apart ⟨same, half⟩
  -- The way is straight, or shorter the other way round.
  rcases Nat.lt_or_ge ((a.value : Int) - b.value).natAbs a.half with near | far
  · exact ⟨b.value - a.value, add_ok_iff.mpr ⟨by omega, same.symm, by omega⟩⟩
  · rcases Nat.lt_or_ge a.value b.value with below | above
    · exact ⟨b.value - a.value - 2 * a.half, add_ok_iff.mpr ⟨by omega, same.symm, by omega⟩⟩
    · exact ⟨b.value - a.value + 2 * a.half, add_ok_iff.mpr ⟨by omega, same.symm, by omega⟩⟩

/-! ## Order -/

theorem forward_eq (same : a.bits = b.bits) :
    a.forward b = if a.value ≤ b.value then b.value - a.value
      else b.value + 2 * a.half - a.value := by
  have first := a.value_lt_double
  have second := b.value_lt_double
  rw [← half_eq same] at second
  rw [forward, modulus_eq]
  split
  · rw [show b.value + 2 * a.half - a.value = b.value - a.value + 2 * a.half by omega,
      Nat.add_mod_right, Nat.mod_eq_of_lt (by omega)]
  · exact Nat.mod_eq_of_lt (by omega)

theorem compare?_same (same : a.bits = b.bits) : a.compare? b =
    if a.value = b.value then .ok (some .eq)
    else if a.forward b < a.half then .ok (some .lt)
    else if a.half < a.forward b then .ok (some .gt)
    else .ok none := by
  unfold compare?
  rw [if_neg (not_not.mpr same), modulus_eq, Nat.mul_div_cancel_left _ (by decide)]

/-- A number that a step leads to is larger or smaller as the step leads on or back. -/
theorem compare?_add (h : a.add d = .ok b) : a.compare? b = .ok (some (compare 0 d)) := by
  obtain ⟨small, width, place⟩ := add_ok_iff.mp h
  have first := a.value_lt_double
  have second := b.value_lt_double
  rw [half_eq width] at second
  rw [compare?_same width.symm, forward_eq width.symm]
  rcases Int.lt_trichotomy 0 d with on | none | back
  · rw [Int.compare_eq_lt.mpr on, if_neg (by omega), if_pos (by split <;> omega)]
  · rw [Int.compare_eq_eq.mpr none, if_pos (by omega)]
  · rw [Int.compare_eq_gt.mpr back, if_neg (by omega), if_neg (by split <;> omega),
      if_pos (by split <;> omega)]

theorem compare?_opposite (h : a.Opposite b) : a.compare? b = .ok none := by
  obtain ⟨same, distance⟩ := h
  have positive := a.half_pos
  rw [← half] at distance
  rw [compare?_same same, forward_eq same, if_neg (by omega), if_neg (by split <;> omega),
    if_neg (by split <;> omega)]

theorem compare?_different (h : a.bits ≠ b.bits) : a.compare? b = .error .notComparable :=
  if_pos h

/-- There is no order between opposite numbers, and only between these. -/
theorem compare?_none_iff (same : a.bits = b.bits) : a.compare? b = .ok none ↔ a.Opposite b := by
  constructor
  · intro none
    by_contra apart
    obtain ⟨d, step⟩ := exists_add same apart
    rw [compare?_add step] at none
    cases none
  · exact compare?_opposite

theorem compare_zero_neg (d : Int) : compare 0 (-d) = (compare 0 d).swap := by
  rcases Int.lt_trichotomy 0 d with on | none | back
  · rw [Int.compare_eq_lt.mpr on, Int.compare_eq_gt.mpr (by omega)]
    rfl
  · rw [Int.compare_eq_eq.mpr none, Int.compare_eq_eq.mpr (by omega)]
    rfl
  · rw [Int.compare_eq_gt.mpr back, Int.compare_eq_lt.mpr (by omega)]
    rfl

/-- Two numbers are compared the other way round with the other result, if there is one. -/
theorem compare?_swap (a b : Serial) :
    b.compare? a = (a.compare? b).map (Option.map Ordering.swap) := by
  by_cases same : a.bits = b.bits
  · by_cases opposite : a.Opposite b
    · rw [compare?_opposite opposite, compare?_opposite opposite.symm]
      rfl
    · obtain ⟨d, step⟩ := exists_add same opposite
      rw [compare?_add step, compare?_add (add_reverse step), compare_zero_neg]
      rfl
  · rw [compare?_different same, compare?_different (Ne.symm same)]
    rfl

end Serial

end Dns
