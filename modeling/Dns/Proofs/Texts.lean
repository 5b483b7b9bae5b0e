import Dns.Proofs.Presentation

/-!
# Names that are read back from their texts

The text of a name means the name. Of the ways in which an octet may be written the writer takes one
that the reader does not take for something else (`Name.octetText_presents`), and so the text of a
name presents its labels. What comes of a text that presents labels has been told before, without
the reader: here the writer has only to be compared with the relation (`Name.texts_present`), and
the recursion of the reader plays no part.

Two texts mean names without a label. They are not in the way of any other name, because a label
that begins with a dot or with `@` is written with a backslash in front. The text of a name with
labels begins like the text of its first label, and this like that of the first octet
(`Name.text_begins`), so that one look at the octets is enough.

The number sign is treated otherwise. It is written as it is, and the reader of names takes it as it
is. Only where lines are read does it mean something, and there it will be in the way; therefore the
beginning of a text says when it is a number sign.

A text goes to the reader as UTF-8. The writer uses visible ASCII characters only, of which every
one is a single octet (`Text.toUTF8_of_visible`).
-/

set_option autoImplicit false

namespace Dns

/-! ## Visible characters

Visible characters are neither blanks nor line breaks, and of the octets that are written as
themselves every one is the octet of its character. So a text of visible characters is a single word
on a single line. -/

namespace Text

/-- A printable ASCII character other than the space. -/
def Visible (c : Char) : Prop := 0x21 ≤ c.toNat ∧ c.toNat ≤ 0x7E

instance (c : Char) : Decidable (Visible c) := inferInstanceAs (Decidable (_ ∧ _))

/-- The octet of an ASCII character. -/
def octet (c : Char) : UInt8 := UInt8.ofNat c.toNat

theorem toNat_char {n : Nat} (small : n < 256) : (Char.ofNat n).toNat = n := by
  have valid : n.isValidChar := .inl (by omega)
  rw [Char.ofNat, dif_pos valid]
  rfl

@[simp] theorem octet_char (b : UInt8) : octet (Char.ofNat b.toNat) = b := by
  rw [octet, toNat_char b.toNat_lt, UInt8.ofNat_toNat]

theorem octet_inj {c d : Char} (visible : Visible c) (visible' : Visible d) :
    octet c = octet d ↔ c = d := by
  refine ⟨fun same => ?_, congrArg octet⟩
  have value := congrArg UInt8.toNat same
  rw [octet, octet, UInt8.toNat_ofNat', UInt8.toNat_ofNat', Nat.mod_eq_of_lt, Nat.mod_eq_of_lt]
    at value
  · exact Char.toNat_inj.mp value
  · exact Nat.lt_of_le_of_lt visible'.2 (by decide)
  · exact Nat.lt_of_le_of_lt visible.2 (by decide)

/-- Visible characters are octets in UTF-8. -/
theorem toUTF8_of_visible {text : List Char} (visible : ∀ c ∈ text, Visible c) :
    (String.ofList text).toUTF8.data.toList = text.map octet := by
  rw [String.toUTF8, String.toByteArray_ofList, List.utf8Encode, List.toList_data_toByteArray]
  induction text with
  | nil => rfl
  | cons c rest ih =>
    have single : String.utf8EncodeChar c = [octet c] := by
      refine String.utf8EncodeChar_eq_singleton (Char.utf8Size_eq_one_iff.mpr ?_)
      exact Nat.le_trans (visible c List.mem_cons_self).2 (by decide)
    rw [List.flatMap_cons, single, ih fun d mem => visible d (List.mem_cons_of_mem _ mem)]
    rfl

end Text

open Text

/-! ## Octets of labels

An octet is written in one of three ways. The first character is a backslash in two of them, and the
octet itself in the third, where it is none of the special ones. Where it ends is told by how it
begins, and the scanner reads it in this order. -/

namespace Label

theorem visible_digitChar (n : Nat) : Visible (Decimal.digitChar n) := by
  rw [Visible, Decimal.digitChar, toNat_char (by omega)]
  omega

theorem special_iff {b : UInt8} : special b = true ↔
    b = 46 ∨ b = 92 ∨ b = 34 ∨ b = 40 ∨ b = 41 ∨ b = 59 ∨ b = 64 ∨ b = 36 := by
  simp only [special, Bool.or_eq_true, decide_eq_true_eq, or_assoc]

/-- Octets are written in visible characters. -/
theorem visible_octetText (b : UInt8) : ∀ c ∈ octetText b, Visible c := by
  intro c mem
  unfold octetText at mem
  split at mem
  · rename_i isSpecial
    simp only [List.mem_cons, List.not_mem_nil, or_false] at mem
    rcases mem with rfl | rfl
    · decide
    · -- Each of the special octets is a visible character.
      rcases special_iff.mp isSpecial with h | h | h | h | h | h | h | h <;> subst h <;> decide
  · split at mem
    · rename_i printable
      cases List.mem_singleton.mp mem
      rw [Visible, toNat_char b.toNat_lt]
      exact printable
    · simp only [Decimal.threeDigits, List.mem_cons, List.not_mem_nil, or_false] at mem
      rcases mem with rfl | rfl | rfl | rfl
      · decide
      · exact visible_digitChar _
      · exact visible_digitChar _
      · exact visible_digitChar _

/-- How an octet is written begins in its own way: neither like the text of a name without labels
nor, unless it is the number sign itself, with a number sign. -/
theorem octetText_cons (b : UInt8) : ∃ c rest, octetText b = c :: rest ∧ c ≠ '.' ∧ c ≠ '@' ∧
    (c = '#' ↔ b = 35) := by
  unfold octetText
  split
  · rename_i isSpecial
    refine ⟨'\\', _, rfl, by decide, by decide, fun h => absurd h (by decide), fun h => ?_⟩
    subst h
    exact absurd isSpecial (by decide)
  · rename_i ordinary
    split
    · refine ⟨_, _, rfl, fun h => ?_, fun h => ?_, fun h => ?_, fun h => ?_⟩
      · have same : b = 46 := by rw [← octet_char b, h]; rfl
        exact ordinary (special_iff.mpr (.inl same))
      · have same : b = 64 := by rw [← octet_char b, h]; rfl
        exact ordinary (by rw [same]; rfl)
      · rw [← octet_char b, h]
        rfl
      · rw [h]
        rfl
    · rename_i unprintable
      refine ⟨'\\', _, rfl, by decide, by decide, fun h => absurd h (by decide), fun h => ?_⟩
      subst h
      exact absurd (by decide) unprintable

theorem text_cons (l : Label) : ∃ c rest, l.text = c :: rest ∧ c ≠ '.' ∧ c ≠ '@' ∧
    (c = '#' ↔ l.octets.head? = some 35) := by
  cases octets : l.octets with
  | nil => exact absurd octets l.nonempty
  | cons b more =>
    obtain ⟨c, rest, first, dot, at', number⟩ := octetText_cons b
    refine ⟨c, rest ++ more.flatMap octetText, ?_, dot, at', number.trans ?_⟩
    · rw [text, octets, List.flatMap_cons, first, List.cons_append]
    · rw [List.head?_cons, Option.some.injEq]

theorem visible_text (l : Label) : ∀ c ∈ l.text, Visible c := by
  intro c mem
  obtain ⟨b, -, mem⟩ := List.mem_flatMap.mp mem
  exact visible_octetText b c mem

end Label

/-! ## Presenting -/

namespace Name

theorem toNat_octet_digitChar (n : Nat) : (octet (Decimal.digitChar n)).toNat = 48 + n % 10 := by
  rw [octet, Decimal.digitChar, toNat_char (by omega), UInt8.toNat_ofNat']
  omega

theorem isDigit_digitChar (n : Nat) : IsDigit (octet (Decimal.digitChar n)) := by
  rw [IsDigit, toNat_octet_digitChar]
  omega

/-- An octet is written in one of the ways that it may be written in. -/
theorem octetText_presents (b : UInt8) : PresentsOctet ((Label.octetText b).map octet) b := by
  unfold Label.octetText
  split
  · rename_i special
    have noDigit : ¬ IsDigit b := by
      rcases Label.special_iff.mp special with h | h | h | h | h | h | h | h <;> subst h <;> decide
    simp only [List.map_cons, List.map_nil, octet_char]
    exact .escaped noDigit
  · rename_i ordinary
    rw [Label.special_iff] at ordinary
    split
    · simp only [List.map_cons, List.map_nil, octet_char]
      exact .itself (fun dot => ordinary (.inl dot)) fun slash => ordinary (.inr (.inl slash))
    · simp only [Decimal.threeDigits, List.map_cons, List.map_nil]
      -- Three digits are enough for an octet.
      refine .byValue (isDigit_digitChar _) (isDigit_digitChar _) (isDigit_digitChar _) ?_
      have small : b.toNat < 256 := b.toNat_lt
      simp only [toNat_octet_digitChar, Nat.add_sub_cancel_left]
      omega

theorem text_presents (l : Label) : PresentsLabel (l.text.map octet) l.octets := by
  unfold Label.text
  induction l.octets with
  | nil => exact ⟨[], .nil, rfl⟩
  | cons b rest ih =>
    rw [List.flatMap_cons, List.map_append]
    exact ih.cons (octetText_presents b)

/-- The text of labels begins as the text of the first one does. -/
theorem text_begins (l : Label) (rest : List Label) (absolute : Bool) : ∃ c more,
    List.intercalate ['.'] ((l :: rest).map Label.text) ++ (if absolute then ['.'] else [])
      = c :: more ∧ c ≠ '.' ∧ c ≠ '@' ∧ (c = '#' ↔ l.octets.head? = some 35) := by
  obtain ⟨c, more, first, begins⟩ := l.text_cons
  cases rest with
  | nil =>
    exact ⟨c, _, by rw [List.map_singleton, List.intercalate_singleton, first]; rfl, begins⟩
  | cons m rest =>
    exact ⟨c, _, by rw [List.map_cons, List.map_cons, List.intercalate_cons_cons, first]; rfl,
      begins⟩

/-- Labels are written with dots between them, and with a dot behind them if they are absolute. -/
theorem texts_present (l : Label) (rest : List Label) (absolute : Bool) :
    PresentsLabels ((List.intercalate ['.'] ((l :: rest).map Label.text)
        ++ if absolute then ['.'] else []).map octet) ((l :: rest).map Label.octets) absolute := by
  induction rest generalizing l with
  | nil =>
    rw [List.map_singleton, List.intercalate_singleton, List.map_append]
    exact presentsLabels_single.mpr ⟨_, text_presents l, by cases absolute <;> rfl⟩
  | cons m rest ih =>
    have behind := ih m
    rw [List.map_cons] at behind ⊢
    rw [List.map_cons, List.intercalate_cons_cons, List.append_assoc, List.append_assoc,
      List.map_append]
    exact presentsLabels_cons.mpr ⟨_, _, text_presents l, behind, rfl⟩

/-! ## Names -/

theorem textChars_eq {n : Name} {l : Label} {rest : List Label} (labels : n.labels = l :: rest) :
    n.textChars = List.intercalate ['.'] ((l :: rest).map Label.text)
      ++ if n.absolute then ['.'] else [] := by
  simp [textChars, labels]

theorem visible_intercalate (labels : List Label) :
    ∀ c ∈ List.intercalate ['.'] (labels.map Label.text), Visible c := by
  intro c mem
  induction labels with
  | nil => cases mem
  | cons l rest ih =>
    cases rest with
    | nil =>
      rw [List.map_singleton, List.intercalate_singleton] at mem
      exact l.visible_text c mem
    | cons m rest =>
      rw [List.map_cons, List.map_cons, List.intercalate_cons_cons, List.mem_append,
        List.mem_append] at mem
      rcases mem with (label | dot) | others
      · exact l.visible_text c label
      · cases List.mem_singleton.mp dot
        decide
      · exact ih others

/-- The text of a name is ASCII without blanks. -/
theorem visible_textChars (n : Name) : ∀ c ∈ n.textChars, Visible c := by
  have dot : Visible '.' := by decide
  have at' : Visible '@' := by decide
  unfold textChars
  split
  · cases n.absolute
    · exact List.forall_mem_singleton.mpr at'
    · exact List.forall_mem_singleton.mpr dot
  · refine List.forall_mem_append.mpr ⟨visible_intercalate n.labels, ?_⟩
    cases n.absolute
    · exact List.forall_mem_nil _
    · exact List.forall_mem_singleton.mpr dot

theorem ofTextOctets_textChars (n : Name) : ofTextOctets (n.textChars.map octet) = .ok n := by
  cases labels : n.labels with
  | nil =>
    obtain ⟨_, absolute, fits⟩ := n
    cases labels
    cases absolute <;> rfl
  | cons l rest =>
    obtain ⟨c, more, shape, dot, at', -⟩ := text_begins l rest n.absolute
    have presents := texts_present l rest n.absolute
    have visible : Visible c := n.visible_textChars c (by
      rw [textChars_eq labels, shape]
      exact List.mem_cons_self)
    -- The texts that mean names without labels begin otherwise.
    have noDot : octet c ≠ octet '.' := mt (octet_inj visible (by decide)).mp dot
    have noAt : octet c ≠ octet '@' := mt (octet_inj visible (by decide)).mp at'
    rw [show octet '.' = 46 from rfl] at noDot
    rw [show octet '@' = 64 from rfl] at noAt
    rw [ofTextOctets_ok_iff, Presents, textChars_eq labels]
    rw [shape] at presents ⊢
    rw [← labels] at presents
    simp only [List.map_cons, List.cons.injEq, reduceCtorEq, noDot, noAt, false_and, or_self,
      if_false]
    exact ⟨presents, fit_iff.mpr ⟨n, rfl, rfl⟩⟩

/-- The text of a name means the name, with the letters as they are. -/
theorem ofText_text (n : Name) : ofText n.text = .ok n := by
  rw [ofText, text, toUTF8_of_visible n.visible_textChars]
  exact n.ofTextOctets_textChars

end Name

end Dns
