import Dns.Json.Basic
import Dns.Proofs.Numerals
import Mathlib.Data.List.TakeWhile

/-!
# Numbers in JSON

The only JSON texts that are numbers with a value are numerals without zeros in front, between
blanks (`Json.ofText?_number_iff`). There is no value for minus zero, nor behind a fraction or an
exponent, even if it would be a whole number: those make the rest of the text shorter, and a number
has a value only if nothing did.

A number is read in three parts, of which the integer part alone has to be there. Reading the other
two is skipping them: a part is taken off the front of the text, and what is left is an ending of
it. This is all that has to be known of them here. An ending that is as long as the text is the
text, and so a number with a value was an integer part and nothing else (`Json.readNumber_ok`).

The other direction needs that nothing behind the numeral is taken for a part of the number
(`Json.EndsNumber`). Behind a whole value there are only blanks, and blanks are not.

Values that are no numbers begin otherwise. A numeral begins with a digit, which begins neither a
string nor a list nor a record nor one of the three words, and so reading comes to numbers
(`Json.readValue_numeral`).
-/

set_option autoImplicit false

namespace Dns.Json

open Decimal

variable {n : Nat} {text rest found : List Char}

/-- A text that does not go on with a number in front of it. -/
def EndsNumber (rest : List Char) : Prop :=
  ∀ c ∈ rest.head?, c.isDigit = false ∧ c ≠ '.' ∧ c ≠ 'e' ∧ c ≠ 'E'

/-- A text that is the numeral of a number between blanks. -/
def Tells (text : List Char) (n : Nat) : Prop :=
  ∃ before behind, text = before ++ (numeral n ++ behind) ∧
    (∀ c ∈ before, isBlank c = true) ∧ ∀ c ∈ behind, isBlank c = true

/-! ## Parts of numbers

What is skipped is taken off the front. An integer part has no zeros in front of other digits, and
so it is the one numeral of its value. Fractions and exponents are skipped and not evaluated. A
number that has one of them is accepted as a number and has no value here. -/

theorem isSome_digit? (c : Char) : (digit? c).isSome = c.isDigit := by
  rw [digit?_eq]
  split
  · rename_i digit
    exact digit.symm
  · rename_i other
    exact (Bool.eq_false_iff.mpr other).symm

theorem behindDigits_suffix (h : (match digits text with
    | [] => none
    | found => some (text.drop found.length)) = some rest) : rest <:+ text := by
  split at h
  · cases h
  · cases h
    exact List.drop_suffix _ _

theorem skipFraction?_suffix (h : skipFraction? text = some rest) : rest <:+ text := by
  unfold skipFraction? at h
  split at h
  · exact (behindDigits_suffix h).trans (List.suffix_cons _ _)
  · cases h
    exact List.suffix_rfl

theorem skipExponent?_suffix (h : skipExponent? text = some rest) : rest <:+ text := by
  unfold skipExponent? at h
  split at h
  · cases h
    exact List.suffix_rfl
  · rename_i e unsigned
    split at h
    · refine List.IsSuffix.trans ?_ (List.suffix_cons e unsigned)
      split at h
      · exact (behindDigits_suffix h).trans (List.suffix_cons _ _)
      · exact (behindDigits_suffix h).trans (List.suffix_cons _ _)
      · exact behindDigits_suffix h
    · cases h
      exact List.suffix_rfl

theorem digits_append (all : ∀ c ∈ found, c.isDigit = true)
    (stops : ∀ c ∈ rest.head?, c.isDigit = false) : digits (found ++ rest) = found := by
  simp only [digits, isSome_digit?]
  rw [List.takeWhile_append_of_pos all]
  cases rest with
  | nil => rw [List.takeWhile_nil, List.append_nil]
  | cons c rest =>
    have other : c.isDigit = false := stops c rfl
    rw [List.takeWhile_cons_of_neg (by rw [other]; exact Bool.false_ne_true), List.append_nil]

/-- The value that a reader gives to digits. -/
theorem value_digits (all : ∀ c ∈ found, c.isDigit = true) :
    found.foldl (fun n c => n * 10 + (digit? c).getD 0) 0 = Nat.ofDigitChars 10 found 0 := by
  rw [Nat.ofDigitChars_eq_foldl]
  refine List.foldl_ext _ _ 0 fun n c mem => ?_
  rw [digit?_eq, if_pos (all c mem), Nat.mul_comm]
  rfl

theorem isDigit_of_mem_digits {c : Char} (mem : c ∈ digits text) : c.isDigit = true := by
  have passes := List.mem_takeWhile_imp (p := fun c => (digit? c).isSome) mem
  rwa [isSome_digit?] at passes

/-- An integer part is the numeral of its value. -/
theorem integerPart?_ok (h : integerPart? text = some (found, rest)) :
    text = found ++ rest ∧ numeral (Nat.ofDigitChars 10 found 0) = found ∧
      ∀ c ∈ found, c.isDigit = true := by
  have whole : digits text ++ text.drop (digits text).length = text :=
    List.prefix_iff_eq_append.mp (List.takeWhile_prefix _)
  have all : ∀ c ∈ digits text, c.isDigit = true := fun _ => isDigit_of_mem_digits
  unfold integerPart? at h
  split at h
  · cases h
  · cases h
  · rename_i some zero
    cases h
    refine ⟨whole.symm, numeral_of_digits all some fun rest begins => ?_, all⟩
    cases rest with
    | nil => rfl
    | cons c rest => exact absurd begins (zero c rest)

/-- A numeral is an integer part, if no digits come behind it. -/
theorem integerPart?_numeral (n : Nat) (stops : ∀ c ∈ rest.head?, c.isDigit = false) :
    integerPart? (numeral n ++ rest) = some (numeral n, rest) := by
  have found : digits (numeral n ++ rest) = numeral n :=
    digits_append (fun _ => isDigit_of_mem_numeral) stops
  unfold integerPart?
  split
  · rename_i none
    rw [found] at none
    exact absurd none Nat.toDigits_ne_nil
  · rename_i zero
    rw [found] at zero
    exact absurd (eq_nil_of_numeral zero) (List.cons_ne_nil _ _)
  · rw [found, List.drop_left]

/-! ## Numbers -/

/-- Whether a text has a minus sign in front, and the text without it. -/
def unsigned : List Char → Bool × List Char
  | '-' :: rest => (true, rest)
  | rest => (false, rest)

theorem readNumber_eq (text : List Char) : readNumber text
    = (integerPart? (unsigned text).2).bind fun (found, rest) =>
      (skipFraction? rest).bind fun behindFraction =>
      (skipExponent? behindFraction).bind fun behindAll =>
        some (if !(unsigned text).1 && behindAll.length == rest.length then
          some (found.foldl (fun n c => n * 10 + (digit? c).getD 0) 0) else none, behindAll) :=
  rfl

/-- A number with a value is the numeral of it. -/
theorem readNumber_ok (h : readNumber text = some (some n, rest)) : text = numeral n ++ rest := by
  simp only [readNumber_eq, Option.bind_eq_some_iff] at h
  obtain ⟨⟨found, behind⟩, integer, behindFraction, fraction, behindAll, exponent, last⟩ := h
  obtain ⟨parts, canonical, all⟩ := integerPart?_ok integer
  obtain ⟨value, rfl⟩ := Prod.mk.inj (Option.some.inj last)
  split at value
  · rename_i plain
    obtain ⟨positive, same⟩ := Bool.and_eq_true _ _ |>.mp plain
    -- Neither a fraction nor an exponent was there, since the text did not get shorter.
    have suffix := (skipExponent?_suffix exponent).trans (skipFraction?_suffix fraction)
    obtain rfl := suffix.eq_of_length (beq_iff_eq.mp same)
    rw [value_digits all] at value
    rw [← Option.some.inj value, canonical, ← parts]
    unfold unsigned at positive ⊢
    split at positive
    · cases positive
    · rfl
  · cases value

/-- A numeral is a number with its value, if the text behind it does not go on with the number. -/
theorem readNumber_numeral (n : Nat) (stops : EndsNumber rest) :
    readNumber (numeral n ++ rest) = some (some n, rest) := by
  have sign : unsigned (numeral n ++ rest) = (false, numeral n ++ rest) := by
    obtain ⟨c, more, shape, digit⟩ := numeral_cons n
    unfold unsigned
    split
    · rename_i minus
      rw [shape] at minus
      obtain rfl := (List.cons.inj minus).1
      exact absurd digit (by decide)
    · rfl
  -- What follows upon a number in an ended text is neither a dot nor an exponent, so that nothing
  -- is skipped.
  have fraction : skipFraction? rest = some rest := by
    unfold skipFraction?
    split
    · exact absurd rfl (stops '.' rfl).2.1
    · rfl
  have exponent : skipExponent? rest = some rest := by
    cases rest with
    | nil => rfl
    | cons c more =>
      obtain ⟨-, -, small, capital⟩ := stops c rfl
      exact if_neg (not_or.mpr ⟨small, capital⟩)
  have integer := integerPart?_numeral n fun c mem => (stops c mem).1
  have value : Nat.ofDigitChars 10 (numeral n) 0 = n := Nat.ofDigitChars_ten_toDigits
  simp only [readNumber_eq, sign, integer, fraction, exponent, Option.bind_some, Bool.not_false,
    Bool.true_and, beq_self_eq_true, if_true]
  rw [value_digits fun _ => isDigit_of_mem_numeral, value]

/-! ## Values

Both directions go through the ways in which a value may begin. Whatever value comes of the others,
it is no number with a value. Blanks in front of a value are skipped, and what stands behind it is
left for the caller. -/

theorem endsNumber_of_blanks (blanks : ∀ c ∈ rest, isBlank c = true) : EndsNumber rest := by
  intro c mem
  have blank := blanks c (List.mem_of_head? mem)
  simp only [isBlank, Bool.or_eq_true, beq_iff_eq] at blank
  rcases blank with ((rfl | rfl) | rfl) | rfl <;> decide

theorem isBlank_of_isDigit {c : Char} (digit : c.isDigit = true) : isBlank c = false := by
  refine Bool.eq_false_iff.mpr fun blank => ?_
  have ends : EndsNumber [c] := endsNumber_of_blanks (List.forall_mem_singleton.mpr blank)
  rw [(ends c rfl).1] at digit
  cases digit

/-- A number is read where no other value begins. -/
theorem readValue_numeral {fuel : Nat} (start : skipBlanks text = numeral n ++ rest)
    (stops : EndsNumber rest) :
    readValue (fuel + 1) text = some (.number (some n), rest) := by
  have number := readNumber_numeral n stops
  obtain ⟨c, more, shape, digit⟩ := numeral_cons n
  have apart : ∀ d : Char, d.isDigit = false → c ≠ d := fun d other same => by
    rw [same, other] at digit
    cases digit
  have word : ∀ w rest : List Char, ∀ d : Char, d.isDigit = false →
      behind? (d :: w) (c :: rest) = none := fun w rest d other => if_neg (apart d other).symm
  -- What begins with this digit is neither a string nor a list nor a record, and none of the words.
  rw [shape, List.cons_append] at number start
  rw [readValue, start]
  split
  · rename_i begins
    exact absurd (List.cons.inj begins).1 (apart _ rfl)
  · rename_i begins
    exact absurd (List.cons.inj begins).1 (apart _ rfl)
  · rename_i begins
    exact absurd (List.cons.inj begins).1 (apart _ rfl)
  · rw [show "null".toList = ['n', 'u', 'l', 'l'] from rfl, word _ _ _ rfl,
      show "true".toList = ['t', 'r', 'u', 'e'] from rfl, word _ _ _ rfl,
      show "false".toList = ['f', 'a', 'l', 's', 'e'] from rfl, word _ _ _ rfl, number]
    rfl

/-- A value that is a number with a value is the numeral of it. -/
theorem readValue_ok {fuel : Nat} (h : readValue fuel text = some (.number (some n), rest)) :
    skipBlanks text = numeral n ++ rest := by
  -- What the other ways of reading find is wrapped in a constructor that is not the one of numbers.
  have other : ∀ {α : Type} {found : Option (α × List Char)} {value : α → Json},
      (∀ a, value a ≠ .number (some n)) →
      (found.map fun (a, rest) => (value a, rest)) ≠ some (.number (some n), rest) := by
    intro α found value differs h
    obtain ⟨⟨a, behind⟩, -, parts⟩ := Option.map_eq_some_iff.mp h
    exact differs a (Prod.mk.inj parts).1
  cases fuel with
  | zero => cases h
  | succ fuel =>
    rw [readValue] at h
    split at h
    · exact absurd h (other nofun)
    · split at h
      · cases h
      · exact absurd h (other nofun)
    · split at h
      · cases h
      · exact absurd h (other nofun)
    · split at h
      · cases h
      · split at h
        · cases h
        · split at h
          · cases h
          · obtain ⟨⟨value, behind⟩, number, parts⟩ := Option.map_eq_some_iff.mp h
            cases parts
            exact readNumber_ok number

/-! ## Texts -/

theorem skipBlanks_eq (text : List Char) : ∃ before, text = before ++ skipBlanks text ∧
    ∀ c ∈ before, isBlank c = true :=
  ⟨text.takeWhile isBlank, List.takeWhile_append_dropWhile.symm, fun _ => List.mem_takeWhile_imp⟩

theorem skipBlanks_numeral {before : List Char} (blanks : ∀ c ∈ before, isBlank c = true)
    (n : Nat) (rest : List Char) :
    skipBlanks (before ++ (numeral n ++ rest)) = numeral n ++ rest := by
  obtain ⟨c, more, shape, digit⟩ := numeral_cons n
  rw [skipBlanks, List.dropWhile_append_of_pos blanks, shape, List.cons_append]
  refine List.dropWhile_cons_of_neg ?_
  rw [isBlank_of_isDigit digit]
  exact Bool.false_ne_true

/-- A JSON text is a number with a value if it is the numeral of it, but for blanks. -/
theorem ofText?_number_iff {text : String} :
    ofText? text = some (.number (some n)) ↔ Tells text.toList n := by
  simp only [ofText?]
  constructor
  · intro h
    split at h
    · rename_i value rest read
      split at h
      · rename_i nothing
        cases h
        obtain ⟨before, parts, blanks⟩ := skipBlanks_eq text.toList
        rw [readValue_ok read] at parts
        have blanks' := List.dropWhile_eq_nil_iff.mp (List.isEmpty_iff.mp nothing)
        exact ⟨before, rest, parts, blanks, blanks'⟩
      · cases h
    · cases h
  · rintro ⟨before, behind, parts, blanks, blanks'⟩
    have start : skipBlanks text.toList = numeral n ++ behind := by
      rw [parts, skipBlanks_numeral blanks]
    rw [readValue_numeral start (endsNumber_of_blanks blanks')]
    exact if_pos (List.isEmpty_iff.mpr (List.dropWhile_eq_nil_iff.mpr blanks'))

end Dns.Json
