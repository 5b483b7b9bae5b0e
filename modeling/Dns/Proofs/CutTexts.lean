import Dns.Iana.Registry
import Dns.Octets

/-!
# Texts as octets

Characters are counted where a text is looked at, and octets where it is cut: a text can only be cut
where a character begins or behind the last one, and anywhere else there would be half a character
on both sides. The place at which a character begins is such a place, whatever characters stand
before it (`Text.exists_place`). It is in general not the place with the number of the character,
for characters take up to four octets each.

To cut a text at a place where there is half a character on both sides is `none` here. Where texts
are read from their octets, that has to be ruled out, and no length is enough for it: a text of six
octets may have a character of two octets on its fifth and sixth.

Letter case is a matter of octets, too. Those of an ASCII letter change with it, and octets of other
characters are never taken for letters, because none of them is below 128. So two texts agree up to
case in their octets exactly if they do in their characters (`Text.sameOctets_eq`). The other
letters are left as they are in both ways of comparing.
-/

set_option autoImplicit false

namespace Dns.Text

/-! ## Places

The places at which characters begin add up from the widths of those before them, and so they are
the lengths of the beginnings of the text. A cut at such a place leaves the characters before it and
those behind it; any other place lies within a character, and there is no cut. -/

/-- The places of the octets with which characters begin, from a place on. -/
def placesFrom (place : Nat) : List Char → List Nat
  | [] => []
  | c :: rest => place :: placesFrom (place + c.utf8Size) rest

/-- The place at which a character begins that has so many others before it. -/
def place? (text : String) (count : Nat) : Option Nat := (placesFrom 0 text.toList)[count]?

/-- The parts of a text before and behind a place, unless the place is inside of a character or
beyond the end. -/
def cut? (text : String) (place : Nat) : Option (String × String) :=
  if boundary : String.Pos.Raw.IsValid text ⟨place⟩ then
    let middle : text.Pos := ⟨⟨place⟩, boundary⟩
    some (text.extract text.startPos middle, text.extract middle text.endPos)
  else none

theorem getElem?_placesFrom (place : Nat) (text : List Char) (count : Nat) :
    (placesFrom place text)[count]? =
      if count < text.length then some (place + (String.ofList (text.take count)).utf8ByteSize)
      else none := by
  induction text generalizing place count with
  | nil => rfl
  | cons c rest ih =>
    cases count with
    | zero => simp [placesFrom]
    | succ count =>
      rw [placesFrom, List.getElem?_cons_succ, ih]
      simp only [List.length_cons, Nat.add_lt_add_iff_right, List.take_succ_cons,
        String.ofList_cons, String.utf8ByteSize_append, String.utf8ByteSize_singleton,
        Nat.add_assoc]

theorem cut?_append (front rest : String) :
    cut? (front ++ rest) front.utf8ByteSize = some (front, rest) := by
  have boundary : String.Pos.Raw.IsValid (front ++ rest) ⟨front.utf8ByteSize⟩ :=
    String.Pos.Raw.isValid_iff_exists_append.mpr ⟨front, rest, rfl, rfl⟩
  rw [cut?, dif_pos boundary]
  refine congrArg some (Prod.ext ?_ ?_)
  · rw [← String.toByteArray_inj, String.toByteArray_extract, String.toByteArray_append]
    exact ByteArray.extract_append_eq_left rfl
  · rw [← String.toByteArray_inj, String.toByteArray_extract, String.toByteArray_append]
    exact ByteArray.extract_append_eq_right rfl ByteArray.size_append

theorem place?_of_le {text : String} {count : Nat} (none : text.toList.length ≤ count) :
    place? text count = .none := by
  rw [place?, getElem?_placesFrom, if_neg (Nat.not_lt.mpr none)]

/-- A text is cut at the place of one of its characters into those before it and the others. -/
theorem exists_place {text : String} {count : Nat} (inside : count < text.toList.length) :
    ∃ place, place? text count = some place ∧
      cut? text place = some
        (String.ofList (text.toList.take count), String.ofList (text.toList.drop count)) := by
  have parts : String.ofList (text.toList.take count) ++ String.ofList (text.toList.drop count)
      = text := by
    rw [← String.ofList_append, List.take_append_drop, String.ofList_toList]
  have cut := cut?_append (String.ofList (text.toList.take count))
    (String.ofList (text.toList.drop count))
  rw [parts] at cut
  exact ⟨_, by rw [place?, getElem?_placesFrom, if_pos inside, Nat.zero_add], cut⟩

/-! ## Letter case

There are 128 characters of one octet, which are tried one by one. Of all others there is nothing to
be tried, since making letters small does not touch them. So comparing octets up to letter case is
comparing characters up to the letter case of those that are one octet. -/

/-- Whether the octets of two texts agree up to the case of ASCII letters. -/
def sameOctets (a b : String) : Bool :=
  Octets.lower a.toUTF8.data.toList == Octets.lower b.toUTF8.data.toList

/-- The octets of characters beyond ASCII. -/
theorem le_of_mem_utf8EncodeChar {c : Char} (wide : 128 ≤ c.val.toNat) :
    ∀ b ∈ String.utf8EncodeChar c, 128 ≤ b.toNat := by
  have bound : c.val.toNat < 0x110000 := by
    rcases c.valid with low | ⟨-, high⟩
    · exact Nat.lt_trans low (by decide)
    · exact high
  have marked : ∀ n, n < 256 → 128 ≤ n → 128 ≤ (UInt8.ofNat n).toNat := by
    intro n small large
    rwa [UInt8.toNat_ofNat_of_lt' small]
  -- One octet is excluded; two, three and four all have the upper bit.
  unfold String.utf8EncodeChar
  simp only
  split
  · omega
  · split
    · simp only [List.forall_mem_cons]
      exact ⟨marked _ (by omega) (by omega), marked _ (by omega) (by omega), nofun⟩
    · split
      · simp only [List.forall_mem_cons]
        exact ⟨marked _ (by omega) (by omega), marked _ (by omega) (by omega),
          marked _ (by omega) (by omega), nofun⟩
      · simp only [List.forall_mem_cons]
        exact ⟨marked _ (by omega) (by omega), marked _ (by omega) (by omega),
          marked _ (by omega) (by omega), marked _ (by omega) (by omega), nofun⟩

theorem lower_utf8EncodeChar (c : Char) :
    Octets.lower (String.utf8EncodeChar c) = String.utf8EncodeChar c.toLower := by
  rcases Nat.lt_or_ge c.val.toNat 128 with ascii | wide
  · have all : ∀ i : Fin 128, Octets.lower (String.utf8EncodeChar (Char.ofNat i))
        = String.utf8EncodeChar (Char.ofNat i).toLower := by decide
    have known := all ⟨c.val.toNat, ascii⟩
    rwa [show Char.ofNat c.val.toNat = c from c.ofNat_toNat] at known
  · have other : c.toLower = c := by
      refine dif_neg fun capital => ?_
      have small : c.val.toNat ≤ 90 := UInt32.le_iff_toNat_le.mp capital.2
      omega
    have same : ∀ b ∈ String.utf8EncodeChar c, lowerOctet b = id b := by
      intro b mem
      -- A capital letter is an octet below 91, and there is none.
      have high := le_of_mem_utf8EncodeChar wide b mem
      refine if_neg fun capital => ?_
      have low : b.toNat ≤ 90 := UInt8.le_iff_toNat_le.mp capital.2
      omega
    rw [other, Octets.lower, List.map_congr_left same, List.map_id]

theorem lower_octets (text : List Char) :
    Octets.lower (text.flatMap String.utf8EncodeChar)
      = (text.map Char.toLower).flatMap String.utf8EncodeChar := by
  induction text with
  | nil => rfl
  | cons c rest ih =>
    rw [List.map_cons, List.flatMap_cons, List.flatMap_cons, ← ih, ← lower_utf8EncodeChar]
    exact List.map_append

theorem sameOctets_eq (a b : String) :
    sameOctets a b = Registry.sameLetters a.toList b.toList := by
  have octets : ∀ s : String, Octets.lower s.toUTF8.data.toList
      = (String.ofList (s.toList.map Char.toLower)).toUTF8.data.toList := by
    intro s
    conv => lhs; rw [← s.ofList_toList]
    rw [String.toUTF8, String.toUTF8, String.toByteArray_ofList, String.toByteArray_ofList,
      List.utf8Encode, List.utf8Encode, List.toList_data_toByteArray, List.toList_data_toByteArray,
      lower_octets]
  rw [Bool.eq_iff_iff, sameOctets, Registry.sameLetters, beq_iff_eq, beq_iff_eq, octets, octets,
    Array.toList_inj, ← ByteArray.ext_iff, String.toUTF8, String.toUTF8, String.toByteArray_inj,
    String.ofList_inj]

end Dns.Text
