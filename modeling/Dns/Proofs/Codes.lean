import Dns.Iana.Class
import Dns.Iana.Opcode
import Dns.Iana.OptionCode
import Dns.Iana.Rtype
import Dns.Iana.TsigRcode
import Dns.Proofs.CutTexts
import Dns.Proofs.Numerals
import Mathlib.Data.List.Pairwise

/-!
# The texts of registered numbers

Which texts mean a registered number is said here without a reader: its mnemonic in any case, or a
numeral of it, in one style behind a word in any case, in the other alone. A reader accepts these
texts and no others (`Registered.ofText_ok_iff_worded`, `Registered.ofText_ok_iff_plain`). It tries
the mnemonics first, but since no mnemonic begins with the word, none of them is in the way of a
number (`Registered.Worded.not_numbered`).

In the style with a word, writing is the other direction of reading. In the plain style it is not: a
number with a mnemonic is written with both of them, the number in parentheses, and such a text is
neither a mnemonic nor a numeral (`Registered.ofText_text_of_mnemonic`).

The reader of the first style counts characters and cuts octets. The cut is never inside of a
character (`Registered.ofCutText?_eq`).

All five types are covered by two lemmas, one for each style. What the registry of a type has to
satisfy for it is in `Registered.Lawful`, `Registered.Worded` and `Registered.Plain`: that no number
and no mnemonic is there twice, that no mnemonic begins with the word, or could be taken for a
numeral. Registries are lists, and so these are decided; a new entry that breaks one of them does
not compile.
-/

set_option autoImplicit false

namespace Dns

/-! ## Registries

Texts that agree up to letter case are treated as an equivalence, and mnemonics are distinct up to
it. If two of them agreed, one of the two would never be found. -/

namespace Registry

variable {r : Registry} {a b c : List Char} {n : Nat} {m : String} {limit : Nat}
  {word text : List Char}

theorem sameLetters_iff : sameLetters a b = true ↔ a.map Char.toLower = b.map Char.toLower :=
  beq_iff_eq

theorem sameLetters_refl (a : List Char) : sameLetters a a = true := sameLetters_iff.mpr rfl

theorem sameLetters_comm : sameLetters a b = sameLetters b a := BEq.comm

theorem sameLetters_trans (first : sameLetters a b = true) (second : sameLetters b c = true) :
    sameLetters a c = true :=
  sameLetters_iff.mpr ((sameLetters_iff.mp first).trans (sameLetters_iff.mp second))

theorem length_eq_of_sameLetters (same : sameLetters a b = true) : a.length = b.length := by
  have lengths := congrArg List.length (sameLetters_iff.mp same)
  rwa [List.length_map, List.length_map] at lengths

theorem sameLetters_take (same : sameLetters a b = true) (count : Nat) :
    sameLetters (a.take count) (b.take count) = true := by
  rw [sameLetters_iff, List.map_take, List.map_take, sameLetters_iff.mp same]

/-- A registry in which every number and, in any case, every mnemonic stands once. -/
structure Distinct (r : Registry) : Prop where
  numbers : r.entries.Pairwise fun a b => a.1 ≠ b.1
  mnemonics : r.entries.Pairwise fun a b => sameLetters a.2.toList b.2.toList = false

theorem mnemonic?_eq_some_iff (h : r.Distinct) : r.mnemonic? n = some m ↔ (n, m) ∈ r.entries := by
  rw [mnemonic?, List.lookup_eq_some_iff]
  constructor
  · rintro ⟨before, after, entries, -⟩
    rw [entries]
    exact List.mem_append_right _ List.mem_cons_self
  · intro mem
    obtain ⟨before, after, entries⟩ := List.append_of_mem mem
    refine ⟨before, after, entries, fun p earlier => ?_⟩
    -- A number that stands twice would be found with the mnemonic that comes first.
    have numbers := h.numbers
    rw [entries] at numbers
    have other := (List.pairwise_append.mp numbers).2.2 p earlier (n, m) List.mem_cons_self
    exact bne_iff_ne.mpr other.symm

/-- A text that is a mnemonic in any case is read as its number, and other texts are not. -/
theorem ofMnemonic?_eq_some_iff (h : r.Distinct) : r.ofMnemonic? text = some n ↔
    ∃ m, r.mnemonic? n = some m ∧ sameLetters text m.toList = true := by
  simp only [mnemonic?_eq_some_iff h]
  rw [ofMnemonic?, Option.map_eq_some_iff]
  constructor
  · rintro ⟨⟨_, m⟩, found, rfl⟩
    refine ⟨m, List.mem_of_find?_eq_some found, ?_⟩
    have agrees := List.find?_some found
    rw [sameLetters_comm]
    exact agrees
  · rintro ⟨m, mem, same⟩
    obtain ⟨before, after, entries⟩ := List.append_of_mem mem
    refine ⟨(n, m), List.find?_eq_some_iff_append.mpr ⟨?_, before, after, entries, ?_⟩, rfl⟩
    · rwa [sameLetters_comm]
    · intro p earlier
      -- Another mnemonic that the text agrees with would agree with this one.
      have mnemonics := h.mnemonics
      rw [entries] at mnemonics
      have other := (List.pairwise_append.mp mnemonics).2.2 p earlier (n, m) List.mem_cons_self
      refine Bool.not_eq_true' _ |>.mpr (Bool.eq_false_iff.mpr fun agrees => ?_)
      rw [sameLetters_trans agrees same] at other
      cases other

/-- A text is read as the number of which there is a numeral behind the word. -/
theorem ofWordedNumber?_eq_some_iff (positive : 0 < limit) :
    ofWordedNumber? limit word text = some n ↔
      (∃ front numeral, text = front ++ numeral ∧ sameLetters front word = true ∧
        Decimal.Denotes numeral n) ∧ n < limit := by
  constructor
  · intro read
    unfold ofWordedNumber? at read
    split at read
    · cases read
    · split at read
      · rename_i same
        obtain ⟨denotes, small⟩ := (Decimal.read?_eq_some_iff positive).mp read
        exact ⟨⟨_, _, (List.take_append_drop word.length text).symm, same, denotes⟩, small⟩
      · cases read
  · rintro ⟨⟨front, numeral, rfl, same, denotes⟩, small⟩
    have length := length_eq_of_sameLetters same
    have read := (Decimal.read?_eq_some_iff positive).mpr ⟨denotes, small⟩
    unfold ofWordedNumber?
    rw [← length, List.drop_left, List.take_left]
    cases numeral with
    | nil => cases read
    | cons c rest => exact (if_pos same).trans read

/-- The number behind the word, with the word cut off where the character begins that has as many
before it as there are octets in the word. There is no result if there is no such cut. -/
def ofCutWord? (limit : Nat) (word text : String) : Option (Option Nat) :=
  match Text.place? text word.utf8ByteSize with
  | none => some none
  | some place => do
    let (front, numeral) ← Text.cut? text place
    return if Text.sameOctets front word then Decimal.read? limit numeral.toList else none

/-- The cut is always there. -/
theorem ofCutWord?_eq {word : String} (ascii : word.utf8ByteSize = word.toList.length)
    (limit : Nat) (text : String) :
    ofCutWord? limit word text = some (ofWordedNumber? limit word.toList text.toList) := by
  rw [ofCutWord?, ofWordedNumber?, ascii]
  rcases Nat.lt_or_ge word.toList.length text.toList.length with longer | short
  · obtain ⟨place, begins, cut⟩ := Text.exists_place longer
    rw [begins]
    simp only [cut, Option.bind_eq_bind, Option.bind_some, Text.sameOctets_eq, String.toList_ofList]
    cases numeral : text.toList.drop word.toList.length with
    | nil => exact absurd (List.drop_eq_nil_iff.mp numeral) (Nat.not_le.mpr longer)
    | cons c rest => rfl
  · rw [Text.place?_of_le short, List.drop_eq_nil_of_le short]

end Registry

/-! ## Types of registered numbers -/

namespace Registered

open Registry

variable {α : Type} [Registered α]

/-- A type of which every value is a number of its width, with a registry of such numbers. -/
class Lawful (α : Type) [Registered α] : Prop where
  number_lt (c : α) : number c < Nat.pow 256 (width α)
  ofNumber_number (c : α) : ofNumber (number c) = c
  number_ofNumber (n : Nat) : n < Nat.pow 256 (width α) → number (ofNumber n : α) = n
  distinct : (registry α).Distinct
  small : ∀ entry ∈ (registry α).entries, entry.1 < Nat.pow 256 (width α)

/-- A text that is the mnemonic of a value, but for the case of its letters. -/
def Named (text : String) (c : α) : Prop :=
  ∃ m, mnemonic? c = some m ∧ sameLetters text.toList m.toList = true

/-- A text that is a word, but for the case of its letters, and a numeral of a value behind it. -/
def Numbered (word text : String) (c : α) : Prop :=
  ∃ front numeral, text.toList = front ++ numeral ∧ sameLetters front word.toList = true ∧
    Decimal.Denotes numeral (number c)

theorem limit_pos : 0 < Nat.pow 256 (width α) := Nat.pow_pos (by decide)

variable {text word : String} {c : α}

theorem named_of_mnemonic? {m : String} (mnemonic : mnemonic? c = some m) : Named m c :=
  ⟨m, mnemonic, sameLetters_refl _⟩

/-! ## The two styles

The conditions are on the mnemonics only, for what is to be excluded is that one of them stands in
the way of a number. They are finite conditions on a table, and everything below follows from them
and from nothing else about the type. -/

/-- A type whose numbers are written behind a word, with which no mnemonic begins. -/
structure Worded (α : Type) [Registered α] (word : String) : Prop where
  style : style α = .worded word
  apart : ∀ entry ∈ (registry α).entries,
    sameLetters (entry.2.toList.take word.toList.length) word.toList = false

/-- A type whose numbers are written without a word. Of its mnemonics none can be taken for a
numeral, and none has a parenthesis in it. -/
structure Plain (α : Type) [Registered α] : Prop where
  style : style α = .plain
  lettered : ∀ entry ∈ (registry α).entries,
    (entry.2.toList.map Char.toLower).all (fun c => c == '+' || c.isDigit) = false
  bare : ∀ entry ∈ (registry α).entries, '(' ∉ entry.2.toList.map Char.toLower

theorem Worded.numberOfText?_eq (h : Worded α word) (text : String) :
    numberOfText? α text = ((registry α).ofMnemonic? text.toList).or
      (ofWordedNumber? (Nat.pow 256 (width α)) word.toList text.toList) := by
  rw [numberOfText?, h.style]
  show ofWordedText? _ _ _ _ = _
  unfold ofWordedText?
  split <;> rename_i first <;> rw [first] <;> rfl

theorem Plain.numberOfText?_eq (h : Plain α) (text : String) :
    numberOfText? α text = ((registry α).ofMnemonic? text.toList).or
      (Decimal.read? (Nat.pow 256 (width α)) text.toList) := by
  rw [numberOfText?, h.style]
  show ofPlainText? _ _ _ = _
  unfold ofPlainText?
  split <;> rename_i first <;> rw [first] <;> rfl

theorem text_of_mnemonic (h : Plain α) {m : String} (mnemonic : mnemonic? c = some m) :
    Registered.text c
      = String.ofList (m.toList ++ '(' :: Decimal.numeral (number c) ++ [')']) := by
  have known : (registry α).mnemonic? (number c) = some m := mnemonic
  rw [Registered.text, h.style]
  show (registry α).plainText (number c) = _
  rw [plainText, known]

/-- A text that means no value is refused. -/
theorem ofText_error_iff : (ofText text : Except CodeError α) = .error ⟨title α⟩ ↔
    ∀ c : α, ofText text ≠ .ok c := by
  unfold ofText
  split
  · exact iff_of_false nofun fun refused => refused _ rfl
  · exact iff_of_true rfl fun _ => nofun

/-! ## Mnemonics first

What comes after the mnemonics is a parameter, `other`, which is a number behind the word in one
style and a plain one in the other. A text that is a mnemonic is never asked whether it is a number.
That a number would be taken for a mnemonic is what the two styles exclude, each in its own way. -/

variable [Lawful α]

theorem named_iff : Named text c ↔ (registry α).ofMnemonic? text.toList = some (number c) :=
  (ofMnemonic?_eq_some_iff Lawful.distinct).symm

/-- What mnemonics are read as are values. -/
theorem exists_named {n : Nat} (read : (registry α).ofMnemonic? text.toList = some n) :
    ∃ c : α, number c = n ∧ Named text c := by
  obtain ⟨m, mnemonic, -⟩ := (ofMnemonic?_eq_some_iff (Lawful.distinct (α := α))).mp read
  have small := Lawful.small _ ((mnemonic?_eq_some_iff Lawful.distinct).mp mnemonic)
  have number := Lawful.number_ofNumber n small
  exact ⟨_, number, named_iff.mpr (by rw [number, read])⟩

/-- Mnemonics are tried first. If no text is a mnemonic and something else, too, then it does not
matter that they are. -/
theorem ofText_ok_iff {other : Option Nat}
    (read : numberOfText? α text = ((registry α).ofMnemonic? text.toList).or other)
    (small : ∀ n, other = some n → n < Nat.pow 256 (width α))
    (apart : ∀ d : α, Named text d → other = none) :
    ofText text = .ok c ↔ Named text c ∨ other = some (number c) := by
  unfold ofText
  rw [read, named_iff]
  cases first : (registry α).ofMnemonic? text.toList with
  | some n =>
    -- A text that is a mnemonic is nothing else, and so it does not matter what the second reader
    -- says.
    obtain ⟨d, rfl, named⟩ := exists_named first
    simp only [Option.some_or, apart d named, Except.ok.injEq, Option.some.injEq, reduceCtorEq,
      or_false]
    constructor
    · rintro rfl
      rw [Lawful.ofNumber_number]
    · intro same
      rw [same, Lawful.ofNumber_number]
  | none =>
    rw [Option.none_or]
    cases other with
    | none => simp
    | some n =>
      simp only [Except.ok.injEq, Option.some.injEq, reduceCtorEq, false_or]
      constructor
      · rintro rfl
        exact (Lawful.number_ofNumber n (small n rfl)).symm
      · rintro rfl
        exact Lawful.ofNumber_number c

/-! ## Numbers behind a word -/

/-- No text is a mnemonic and also the word with a numeral. -/
theorem Worded.not_numbered (h : Worded α word) (named : Named text c) (d : α) :
    ¬ Numbered word text d := by
  rintro ⟨front, numeral, parts, same, -⟩
  obtain ⟨m, mnemonic, agrees⟩ := named
  -- The text would begin with the word, and then its mnemonic would, too.
  have begins := sameLetters_take agrees front.length
  rw [parts, List.take_left, length_eq_of_sameLetters same] at begins
  have apart := h.apart _ ((mnemonic?_eq_some_iff Lawful.distinct).mp mnemonic)
  rw [sameLetters_trans (sameLetters_comm.trans begins) same] at apart
  cases apart

theorem numbered_iff : Numbered word text c ↔
    ofWordedNumber? (Nat.pow 256 (width α)) word.toList text.toList = some (number c) := by
  rw [ofWordedNumber?_eq_some_iff limit_pos]
  exact (and_iff_left (Lawful.number_lt c)).symm

/-- A text is read as a value exactly if it is its mnemonic, or the word with a numeral of it. -/
theorem ofText_ok_iff_worded (h : Worded α word) :
    ofText text = .ok c ↔ Named text c ∨ Numbered word text c := by
  rw [numbered_iff]
  have small : ∀ n, ofWordedNumber? (Nat.pow 256 (width α)) word.toList text.toList = some n →
      n < Nat.pow 256 (width α) :=
    fun n read => ((ofWordedNumber?_eq_some_iff limit_pos).mp read).2
  refine ofText_ok_iff (h.numberOfText?_eq text) small fun d named => ?_
  refine Option.eq_none_iff_forall_not_mem.mpr fun n read => ?_
  have number := Lawful.number_ofNumber n (small n read)
  exact h.not_numbered named _ (numbered_iff.mpr (number ▸ read))

/-- What is written for a value means the value. -/
theorem ofText_text_worded (h : Worded α word) (c : α) : ofText (Registered.text c) = .ok c := by
  rw [ofText_ok_iff_worded h, Registered.text, h.style]
  show Named ((registry α).wordedText _ _) c ∨ Numbered _ ((registry α).wordedText _ _) c
  unfold wordedText
  split
  · rename_i m mnemonic
    exact .inl (named_of_mnemonic? mnemonic)
  · exact .inr ⟨_, _, String.toList_ofList, sameLetters_refl _, Decimal.denotes_numeral _⟩

/-! ## Cutting off the word

The word has as many octets as characters. A text may not: what is cut is found by counting its
characters, and the cut is made at the octet where the next of them begins. -/

/-- The value that a text means, read from its octets. There is no result if the text would have to
be cut inside of a character. -/
def ofCutText? (word text : String) : Option (Except CodeError α) :=
  match (registry α).entries.find? fun entry => Text.sameOctets entry.2 text with
  | some entry => some (.ok (ofNumber entry.1))
  | none => do
    match ← ofCutWord? (Nat.pow 256 (width α)) word text with
    | some n => return .ok (ofNumber n)
    | none => return .error ⟨title α⟩

omit [Lawful α] in
theorem ofCutText?_eq (h : Worded α word) (ascii : word.utf8ByteSize = word.toList.length)
    (text : String) : ofCutText? word text = some (ofText text : Except CodeError α) := by
  unfold ofCutText? ofText
  rw [h.numberOfText?_eq, Registry.ofMnemonic?, ofCutWord?_eq ascii]
  simp only [Text.sameOctets_eq]
  cases (registry α).entries.find? fun entry => sameLetters entry.2.toList text.toList with
  | some entry => rfl
  | none =>
    simp only [Option.map_none, Option.none_or, Option.bind_eq_bind, Option.bind_some]
    cases ofWordedNumber? (Nat.pow 256 (width α)) word.toList text.toList with
    | some n => rfl
    | none => rfl

/-! ## Plain numbers -/

theorem Plain.not_denotes (h : Plain α) (named : Named text c) (n : Nat) :
    ¬ Decimal.Denotes text.toList n := by
  intro denotes
  obtain ⟨m, mnemonic, agrees⟩ := named
  have lettered := h.lettered _ ((mnemonic?_eq_some_iff Lawful.distinct).mp mnemonic)
  rw [← sameLetters_iff.mp agrees, denotes.lower, List.all_eq_false] at lettered
  obtain ⟨c, mem, letter⟩ := lettered
  rw [Bool.or_eq_true, beq_iff_eq] at letter
  exact letter (denotes.isDigit_or_plus c mem)

theorem ofText_ok_iff_plain (h : Plain α) :
    ofText text = .ok c ↔ Named text c ∨ Decimal.Denotes text.toList (number c) := by
  have value : Decimal.read? (Nat.pow 256 (width α)) text.toList = some (number c) ↔
      Decimal.Denotes text.toList (number c) := by
    rw [Decimal.read?_eq_some_iff limit_pos]
    exact and_iff_left (Lawful.number_lt c)
  rw [← value]
  refine ofText_ok_iff (h.numberOfText?_eq text) ?_ fun d named => ?_
  · exact fun n read => ((Decimal.read?_eq_some_iff limit_pos).mp read).2
  · refine Option.eq_none_iff_forall_not_mem.mpr fun n read => ?_
    exact h.not_denotes named n ((Decimal.read?_eq_some_iff limit_pos).mp read).1

theorem ofText_ne_of_parenthesis (h : Plain α) (mem : '(' ∈ text.toList) (c : α) :
    ofText text ≠ .ok c := by
  rw [ne_eq, ofText_ok_iff_plain h]
  rintro (⟨m, mnemonic, agrees⟩ | denotes)
  · have bare := h.bare _ ((mnemonic?_eq_some_iff Lawful.distinct).mp mnemonic)
    rw [← sameLetters_iff.mp agrees] at bare
    exact bare (List.mem_map.mpr ⟨'(', mem, rfl⟩)
  · exact absurd (denotes.isDigit_or_plus '(' mem) (by decide)

/-- What is written for a value with a mnemonic means nothing. -/
theorem ofText_text_of_mnemonic (h : Plain α) {m : String} (mnemonic : mnemonic? c = some m) :
    (ofText (Registered.text c) : Except CodeError α) = .error ⟨title α⟩ := by
  refine ofText_error_iff.mpr fun d => ofText_ne_of_parenthesis h ?_ d
  rw [text_of_mnemonic h mnemonic, String.toList_ofList]
  exact List.mem_append_left _ (List.mem_append_right _ List.mem_cons_self)

theorem ofText_numeral (h : Plain α) (c : α) :
    ofText (String.ofList (Decimal.numeral (number c))) = .ok c := by
  rw [ofText_ok_iff_plain h, String.toList_ofList]
  exact .inr (Decimal.denotes_numeral _)

theorem ofText_text_plain_iff (h : Plain α) (c : α) :
    ofText (Registered.text c) = .ok c ↔ mnemonic? c = none := by
  cases mnemonic : mnemonic? c with
  | some m =>
    rw [ofText_text_of_mnemonic h mnemonic]
    exact iff_of_false nofun nofun
  | none =>
    have unknown : (registry α).mnemonic? (number c) = none := mnemonic
    refine iff_of_true ?_ rfl
    rw [Registered.text, h.style]
    show ofText ((registry α).plainText (number c)) = .ok c
    rw [plainText, unknown]
    exact ofText_numeral h c

end Registered

/-! ## The types -/

open Registered

instance : Lawful Class where
  number_lt c := c.code.toNat_lt
  ofNumber_number c := congrArg Class.mk UInt16.ofNat_toNat
  number_ofNumber n small := UInt16.toNat_ofNat_of_lt small
  distinct := ⟨by decide, by decide⟩
  small := by decide

instance : Lawful Rtype where
  number_lt c := c.code.toNat_lt
  ofNumber_number c := congrArg Rtype.mk UInt16.ofNat_toNat
  number_ofNumber n small := UInt16.toNat_ofNat_of_lt small
  distinct := ⟨by decide, by decide⟩
  small := by decide

instance : Lawful OptionCode where
  number_lt c := c.code.toNat_lt
  ofNumber_number c := congrArg OptionCode.mk UInt16.ofNat_toNat
  number_ofNumber n small := UInt16.toNat_ofNat_of_lt small
  distinct := ⟨by decide, by decide⟩
  small := by decide

instance : Lawful Opcode where
  number_lt c := c.code.toNat_lt
  ofNumber_number c := congrArg Opcode.mk UInt8.ofNat_toNat
  number_ofNumber n small := UInt8.toNat_ofNat_of_lt small
  distinct := ⟨by decide, by decide⟩
  small := by decide

instance : Lawful TsigRcode where
  number_lt c := c.code.toNat_lt
  ofNumber_number c := congrArg TsigRcode.mk UInt16.ofNat_toNat
  number_ofNumber n small := UInt16.toNat_ofNat_of_lt small
  distinct := ⟨by decide, by decide⟩
  small := by decide

/-- How reading and writing belong together where a word introduces numbers. -/
structure WordedTexts (α : Type) [Registered α] (read : String → Except CodeError α)
    (write : α → String) (word : String) : Prop where
  /-- What is read are the mnemonics and the numerals behind the word. -/
  accepts (text : String) (c : α) : read text = .ok c ↔ Named text c ∨ Numbered word text c
  refuses (text : String) :
    read text = .error ⟨title α⟩ ↔ ∀ c : α, ¬ Named text c ∧ ¬ Numbered word text c
  /-- In no text a character is cut in two. -/
  cuts (text : String) : ofCutText? word text = some (read text)
  apart (text : String) (c d : α) : Named text c → ¬ Numbered word text d
  reads_back (c : α) : read (write c) = .ok c

/-- How reading and writing belong together where numbers stand alone. -/
structure PlainTexts (α : Type) [Registered α] (read : String → Except CodeError α)
    (write : α → String) (text : String) : Prop where
  /-- What is read are the mnemonics and the numerals. -/
  accepts (c : α) : read text = .ok c ↔ Named text c ∨ Decimal.Denotes text.toList (number c)
  refuses : read text = .error ⟨title α⟩ ↔
    ∀ c : α, ¬ Named text c ∧ ¬ Decimal.Denotes text.toList (number c)
  /-- What is written for the value that was read is read back only where there is no mnemonic. -/
  reads_back_iff (c : α) : read text = .ok c → (read (write c) = .ok c ↔ mnemonic? c = none)
  /-- Where there is one, it and the numeral are written, which would be read one by one. -/
  decorates (c : α) (m : String) : mnemonic? c = some m →
    write c = String.ofList (m.toList ++ '(' :: Decimal.numeral (number c) ++ [')']) ∧
    read (write c) = .error ⟨title α⟩ ∧
    read m = .ok c ∧ read (String.ofList (Decimal.numeral (number c))) = .ok c

namespace Registered

variable {α : Type} [Registered α] [Lawful α]

theorem Worded.texts {word : String} (h : Worded α word)
    (ascii : word.utf8ByteSize = word.toList.length) : WordedTexts α ofText text word where
  accepts text c := ofText_ok_iff_worded h
  refuses text := by
    rw [ofText_error_iff]
    exact forall_congr' fun c => (not_congr (ofText_ok_iff_worded h)).trans not_or
  cuts := ofCutText?_eq h ascii
  apart text c d named := h.not_numbered named d
  reads_back := ofText_text_worded h

theorem Plain.texts (h : Plain α) (text : String) : PlainTexts α ofText Registered.text text where
  accepts c := ofText_ok_iff_plain h
  refuses := by
    rw [ofText_error_iff]
    exact forall_congr' fun c => (not_congr (ofText_ok_iff_plain h)).trans not_or
  reads_back_iff c _ := ofText_text_plain_iff h c
  decorates c m mnemonic := ⟨text_of_mnemonic h mnemonic, ofText_text_of_mnemonic h mnemonic,
    (ofText_ok_iff_plain h).mpr (.inl (named_of_mnemonic? mnemonic)), ofText_numeral h c⟩

/-- Classes, record types and option codes are read from their mnemonics and from numerals behind
the word, in any case, and from no other texts. No text is both, no text is cut inside of a
character, and what is written is read back. -/
theorem worded_texts_read : WordedTexts Class Class.ofText Class.text "CLASS" ∧
    WordedTexts Rtype Rtype.ofText Rtype.text "TYPE" ∧
    WordedTexts OptionCode OptionCode.ofText OptionCode.text "OPT" := by
  have classes : Worded Class "CLASS" := ⟨rfl, by decide⟩
  have types : Worded Rtype "TYPE" := ⟨rfl, by decide⟩
  have codes : Worded OptionCode "OPT" := ⟨rfl, by decide⟩
  exact ⟨classes.texts rfl, types.texts rfl, codes.texts rfl⟩

/-- The sixth character of the second text begins behind its sixth octet, not behind its fifth. -/
example : Class.ofText "cLass001" = .ok .internet ∧ Class.ofText "CLASÉ1" = .error ⟨"class"⟩ :=
  ⟨rfl, rfl⟩

/-- Opcodes and error codes are read from their mnemonics, in any case, and from numerals. What is
written for one of them is read back if it has no mnemonic, and otherwise means nothing. -/
theorem plain_texts_read (text : String) : PlainTexts Opcode Opcode.ofText Opcode.text text ∧
    PlainTexts TsigRcode TsigRcode.ofText TsigRcode.text text := by
  have opcodes : Plain Opcode := ⟨rfl, by decide, by decide⟩
  have errors : Plain TsigRcode := ⟨rfl, by decide, by decide⟩
  exact ⟨opcodes.texts text, errors.texts text⟩

end Registered

/-- A mnemonic is read, and what is written for its value is not. -/
theorem Opcode.query_not_read_back : Opcode.ofText "QUERY" = .ok .query ∧
    Opcode.query.text = "QUERY(0)" ∧ Opcode.ofText "QUERY(0)" = .error ⟨"opcode"⟩ :=
  ⟨rfl, rfl, rfl⟩

end Dns
