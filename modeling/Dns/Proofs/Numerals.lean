import Dns.Text.Decimal
import Mathlib.Data.List.Basic

/-!
# Numerals and their numbers

A numeral may have a plus sign and zeros in front and still be read (`Decimal.read?_eq_some_iff`).
What is written for a number has neither, and there is one such numeral only
(`Decimal.numeral_of_digits`).

`Decimal.Denotes` is what a numeral means, without a limit: the digits behind the sign have a value.
A reader has a limit, and it stops at the first digit with which it goes beyond. It is not wrong to
stop there, since the value of digits never becomes smaller by more digits (`le_ofDigitChars`). So a
text is read exactly if it denotes a number below the limit, however many zeros there are in front,
and a sign alone denotes nothing.

The value of digits is `Nat.ofDigitChars` of the library, and what is written for a number are its
`Nat.toDigits`. Two facts are added to what is known of these: that more digits behind the numeral
of a number give the numeral of what they are read into, and that a numeral of more than one digit
does not begin with a zero. Other formats than this one, which allow numerals without zeros in front
only, need both.
-/

set_option autoImplicit false

namespace Dns.Decimal

/-! ## Digits and their value

The induction is on the digits that are left, with the value of those before them as a parameter. A
sign can only be the first character. What the reader accepts is more than the numerals: zeros may
stand in front and one `+` before everything. `Denotes` says so without mentioning the reader. -/

/-- Numerals of a number are digits of its value, with or without a plus sign in front. -/
def Denotes (text : List Char) (n : Nat) : Prop :=
  ∃ digits, (text = digits ∨ text = '+' :: digits) ∧ digits ≠ [] ∧
    (∀ c ∈ digits, c.isDigit = true) ∧ Nat.ofDigitChars 10 digits 0 = n

variable {limit acc n : Nat} {c : Char} {text digits rest : List Char}

theorem digit?_eq (c : Char) :
    digit? c = if c.isDigit then some (c.toNat - '0'.toNat) else none := by
  have same : ('0' ≤ c ∧ c ≤ '9') ↔ c.isDigit = true := by
    simp [Char.isDigit, Char.le_def]
  unfold digit?
  simp only [same]
  rfl

theorem le_ofDigitChars (digits : List Char) (acc : Nat) :
    acc ≤ Nat.ofDigitChars 10 digits acc := by
  rw [Nat.ofDigitChars_eq_ofDigitChars_zero]
  have power : 0 < 10 ^ digits.length := Nat.pow_pos (by decide)
  exact Nat.le_add_right_of_le (Nat.le_mul_of_pos_left acc power)

/-- Digits are read as their value behind what was read before, if it is below the limit. -/
theorem readDigits_ok_iff (small : acc < limit) (digits : List Char) :
    readDigits limit acc digits = .ok n ↔
      ((∀ c ∈ digits, c.isDigit = true) ∧ Nat.ofDigitChars 10 digits acc = n) ∧ n < limit := by
  induction digits generalizing acc with
  | nil =>
    simp only [readDigits, Except.ok.injEq, List.not_mem_nil, false_implies, implies_true,
      Nat.ofDigitChars_nil, true_and]
    constructor
    · rintro rfl
      exact ⟨rfl, small⟩
    · exact And.left
  | cons c rest ih =>
    have next : 10 * acc + (c.toNat - '0'.toNat) = acc * 10 + (c.toNat - '0'.toNat) := by omega
    rw [readDigits, digit?_eq, Nat.ofDigitChars_cons, next, List.forall_mem_cons]
    by_cases digit : c.isDigit = true
    · simp only [digit, if_true, true_and]
      split
      · rename_i below
        exact ih below
      · rename_i above
        -- Beyond the limit there is no way back.
        have grown := le_ofDigitChars rest (acc * 10 + (c.toNat - '0'.toNat))
        refine iff_of_false nofun ?_
        rintro ⟨⟨-, rfl⟩, below⟩
        omega
    · rw [if_neg digit]
      exact iff_of_false nofun fun digits => digit digits.1.1.1

theorem denotes_plus : Denotes ('+' :: text) n ↔
    text ≠ [] ∧ (∀ c ∈ text, c.isDigit = true) ∧ Nat.ofDigitChars 10 text 0 = n := by
  constructor
  · rintro ⟨digits, rfl | sign, some, all, value⟩
    · exact absurd (all '+' List.mem_cons_self) (by decide)
    · obtain rfl := (List.cons.inj sign).2
      exact ⟨some, all, value⟩
  · rintro ⟨some, all, value⟩
    exact ⟨text, .inr rfl, some, all, value⟩

theorem denotes_digits (noSign : c ≠ '+') : Denotes (c :: text) n ↔
    (∀ d ∈ c :: text, d.isDigit = true) ∧ Nat.ofDigitChars 10 (c :: text) 0 = n := by
  constructor
  · rintro ⟨digits, rfl | sign, -, all, value⟩
    · exact ⟨all, value⟩
    · exact absurd (List.cons.inj sign).1 noSign
  · rintro ⟨all, value⟩
    exact ⟨c :: text, .inl rfl, List.cons_ne_nil _ _, all, value⟩

/-- A text is read as the number of which it is a numeral, if that is below the limit. -/
theorem read?_eq_some_iff (positive : 0 < limit) :
    read? limit text = some n ↔ Denotes text n ∧ n < limit := by
  have ok : ∀ {ε : Type} (result : Except ε Nat), result.toOption = some n ↔ result = .ok n := by
    intro ε result
    cases result <;> simp [Except.toOption]
  rw [read?, ok]
  unfold read
  split
  · refine iff_of_false nofun ?_
    rintro ⟨⟨digits, empty | sign, some, -⟩, -⟩
    · exact some empty.symm
    · cases sign
  · refine iff_of_false nofun ?_
    rintro ⟨denotes, -⟩
    exact (denotes_plus.mp denotes).1 rfl
  · rename_i rest nonempty
    have some : rest ≠ [] := fun empty => nonempty (by rw [empty])
    rw [readDigits_ok_iff positive, denotes_plus]
    simp only [ne_eq, some, not_false_eq_true, true_and]
  · rename_i nonempty _ noSign
    cases text with
    | nil => exact absurd rfl nonempty
    | cons c rest =>
      have plain : c ≠ '+' := fun sign => noSign rest (by rw [sign])
      rw [readDigits_ok_iff positive, denotes_digits plain]

theorem isDigit_of_mem_numeral (mem : c ∈ numeral n) : c.isDigit = true :=
  Nat.isDigit_of_mem_toDigits (by decide) (by decide) mem

/-- A numeral begins with a digit. -/
theorem numeral_cons (n : Nat) : ∃ c more, numeral n = c :: more ∧ c.isDigit = true := by
  cases shape : numeral n with
  | nil => exact absurd shape Nat.toDigits_ne_nil
  | cons c more => exact ⟨c, more, rfl, isDigit_of_mem_numeral (shape ▸ List.mem_cons_self)⟩

/-- What is written for a number is a numeral of it. -/
theorem denotes_numeral (n : Nat) : Denotes (numeral n) n :=
  ⟨numeral n, .inl rfl, Nat.toDigits_ne_nil, fun _ => isDigit_of_mem_numeral,
    Nat.ofDigitChars_ten_toDigits⟩

theorem Denotes.isDigit_or_plus (denotes : Denotes text n) :
    ∀ c ∈ text, c = '+' ∨ c.isDigit = true := by
  obtain ⟨digits, rfl | rfl, -, all, -⟩ := denotes
  · exact fun c mem => .inr (all c mem)
  · exact List.forall_mem_cons.mpr ⟨.inl rfl, fun c mem => .inr (all c mem)⟩

/-- There are no letters in numerals. -/
theorem Denotes.lower (denotes : Denotes text n) : text.map Char.toLower = text := by
  have same : ∀ c ∈ text, c.toLower = id c := by
    intro c mem
    rcases denotes.isDigit_or_plus c mem with rfl | digit
    · rfl
    · refine dif_neg fun capital => ?_
      have small : c.toNat ≤ '9'.toNat := (Char.isDigit_iff_toNat.mp digit).2
      have large : 'A'.toNat ≤ c.toNat := UInt32.le_iff_toNat_le.mp capital.1
      exact absurd (Nat.le_trans large small) (by decide)
  rw [List.map_congr_left same, List.map_id]

/-! ## Numerals without zeros in front

A number is taken apart at its last digit, and a text is read from its first. The lemmas about one
more digit behind a numeral bring the two together. So every text of digits that has no zero in
front is the numeral of its value (`numeral_of_digits`). -/

theorem digit_lt_ten (digit : c.isDigit = true) : c.toNat - '0'.toNat < 10 := by
  obtain ⟨low, high⟩ := Char.isDigit_iff_toNat.mp digit
  exact Nat.sub_lt_left_of_lt_add low (Nat.lt_succ_of_le high)

theorem numeral_digit (digit : c.isDigit = true) : numeral (c.toNat - '0'.toNat) = [c] := by
  have low : '0'.toNat ≤ c.toNat := (Char.isDigit_iff_toNat.mp digit).1
  -- There are ten digits.
  have all : ∀ i : Fin 10, numeral i = [Char.ofNat ('0'.toNat + i)] := by decide
  have known := all ⟨c.toNat - '0'.toNat, digit_lt_ten digit⟩
  simp only [Nat.add_sub_cancel' low, Char.ofNat_toNat] at known
  exact known

/-- More digits are written behind the numeral of the number that they are read into. -/
theorem numeral_ofDigitChars (positive : 0 < n) (all : ∀ c ∈ rest, c.isDigit = true) :
    numeral (Nat.ofDigitChars 10 rest n) = numeral n ++ rest := by
  induction rest generalizing n with
  | nil => rw [Nat.ofDigitChars_nil, List.append_nil]
  | cons c rest ih =>
    obtain ⟨digit, all⟩ := List.forall_mem_cons.mp all
    have step : numeral (10 * n + (c.toNat - '0'.toNat)) = numeral n ++ [c] := by
      rw [← numeral_digit digit]
      exact (Nat.toDigits_append_toDigits (by decide) positive (digit_lt_ten digit)).symm
    rw [Nat.ofDigitChars_cons, ih (by omega) all, step, List.append_assoc, List.singleton_append]

/-- A numeral begins with a zero only if it is one. -/
theorem eq_nil_of_numeral (zero : numeral n = '0' :: rest) : rest = [] := by
  induction n using Nat.strongRecOn generalizing rest with
  | ind n ih =>
    rcases Nat.lt_or_ge n 10 with digit | more
    · rw [numeral, Nat.toDigits_of_lt_base digit] at zero
      exact (List.cons.inj zero).2.symm
    · -- The first digit is that of the tenth of the number.
      rw [numeral, Nat.toDigits_of_base_le (by decide) more] at zero
      cases front : numeral (n / 10) with
      | nil => exact absurd front Nat.toDigits_ne_nil
      | cons c others =>
        rw [show Nat.toDigits 10 (n / 10) = c :: others from front] at zero
        obtain rfl := (List.cons.inj zero).1
        obtain rfl := ih (n / 10) (by omega) front
        have value : Nat.ofDigitChars 10 (numeral (n / 10)) 0 = n / 10 :=
          Nat.ofDigitChars_ten_toDigits
        rw [front] at value
        have none : (0 : Nat) = n / 10 := value
        omega

/-- Digits without zeros in front are the numeral of their value. -/
theorem numeral_of_digits (all : ∀ c ∈ digits, c.isDigit = true) (some : digits ≠ [])
    (first : ∀ rest, digits = '0' :: rest → rest = []) :
    numeral (Nat.ofDigitChars 10 digits 0) = digits := by
  cases digits with
  | nil => exact absurd rfl some
  | cons c rest =>
    obtain ⟨digit, others⟩ := List.forall_mem_cons.mp all
    have value := numeral_digit digit
    rw [Nat.ofDigitChars_cons, Nat.mul_zero, Nat.zero_add]
    by_cases zero : c = '0'
    · subst zero
      -- A zero stands alone.
      rw [first rest rfl, Nat.ofDigitChars_nil, value]
    · have low : '0'.toNat ≤ c.toNat := (Char.isDigit_iff_toNat.mp digit).1
      have other : c.toNat ≠ '0'.toNat := fun same => zero (Char.toNat_inj.mp same)
      rw [numeral_ofDigitChars (by omega) others, value, List.singleton_append]

end Dns.Decimal
