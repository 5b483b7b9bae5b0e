/-!
# Octets: what a message is made of

Everything that travels is a list of octets, and a number travels with its most significant octet
first. Both directions are written once, for any width: `Octets.ofNat` lays a number out and
`Octets.toNat` reads it back. A number too large for its width loses its high octets, so reading
back gives the number reduced modulo `256 ^ width` (`toNat_ofNat`), and octets laid out again are
the octets that were read (`ofNat_toNat`).

Letter case matters nowhere in a domain name, and only ASCII letters have case there. `lowerOctet`
is that rule for one octet; names, equality of record data and canonical forms all rest on it.
-/

set_option autoImplicit false

namespace Dns

abbrev Octets := List UInt8

/-- An ASCII capital becomes the small letter; every other octet stays. -/
def lowerOctet (b : UInt8) : UInt8 :=
  if 65 ≤ b ∧ b ≤ 90 then b + 32 else b

namespace Octets

/-! ## Numbers, most significant octet first

Laying out and reading back are shown inverse to each other here, for numbers below the bound and
for octets of the width, and no later module opens either of the two. -/

def ofNat : (width : Nat) → Nat → Octets
  | 0, _ => []
  | width + 1, n => UInt8.ofNat (n >>> (8 * width)) :: ofNat width n

def toNat (octets : Octets) : Nat :=
  octets.foldl (fun n b => n * 256 + b.toNat) 0

@[simp] theorem length_ofNat (width n : Nat) : (ofNat width n).length = width := by
  induction width with
  | zero => rfl
  | succ width ih => simp [ofNat, ih]

/-- Digits already read only add their own weight in front. -/
theorem foldl_toNat (octets : Octets) (acc : Nat) :
    octets.foldl (fun n b => n * 256 + b.toNat) acc
      = acc * Nat.pow 256 octets.length + toNat octets := by
  induction octets generalizing acc with
  | nil => exact (Nat.mul_one acc).symm
  | cons b rest ih =>
    have pow : Nat.pow 256 (b :: rest).length = Nat.pow 256 rest.length * 256 := rfl
    simp only [List.foldl_cons, toNat]
    rw [ih, ih (0 * 256 + b.toNat), pow]
    grind

theorem toNat_cons (b : UInt8) (rest : Octets) :
    toNat (b :: rest) = b.toNat * Nat.pow 256 rest.length + toNat rest := by
  have h := foldl_toNat rest (0 * 256 + b.toNat)
  rw [Nat.zero_mul, Nat.zero_add] at h
  rw [← h, toNat, List.foldl_cons, Nat.zero_mul, Nat.zero_add]

theorem toNat_lt (octets : Octets) : toNat octets < Nat.pow 256 octets.length := by
  induction octets with
  | nil => exact Nat.one_pos
  | cons b rest ih =>
    have pow : Nat.pow 256 (b :: rest).length = Nat.pow 256 rest.length * 256 := rfl
    have hb : b.toNat < 256 := b.toNat_lt
    have : (b.toNat + 1) * Nat.pow 256 rest.length ≤ 256 * Nat.pow 256 rest.length :=
      Nat.mul_le_mul_right _ hb
    rw [toNat_cons, pow]
    grind

theorem shiftRight_octets (width n : Nat) : n >>> (8 * width) = n / Nat.pow 256 width := by
  rw [Nat.shiftRight_eq_div_pow, Nat.pow_mul]
  rfl

theorem toNat_ofNat (width n : Nat) : toNat (ofNat width n) = n % Nat.pow 256 width := by
  induction width with
  | zero => exact (Nat.mod_one n).symm
  | succ width ih =>
    have pow : Nat.pow 256 (width + 1) = Nat.pow 256 width * 256 := rfl
    rw [ofNat, toNat_cons, ih, length_ofNat, UInt8.toNat_ofNat', shiftRight_octets, pow,
      Nat.mod_mul]
    grind

theorem ofNat_toNat (octets : Octets) : ofNat octets.length (toNat octets) = octets := by
  have key : ∀ (o : Octets) (high : Nat),
      ofNat o.length (high * Nat.pow 256 o.length + toNat o) = o := by
    intro o
    induction o with
    | nil => intro high; rfl
    | cons b rest ih =>
      intro high
      have hlt := toNat_lt rest
      have hpos : 0 < Nat.pow 256 rest.length := Nat.pow_pos (by decide)
      have pow : Nat.pow 256 (b :: rest).length = Nat.pow 256 rest.length * 256 := rfl
      have e : high * Nat.pow 256 (b :: rest).length + toNat (b :: rest)
          = (high * 256 + b.toNat) * Nat.pow 256 rest.length + toNat rest := by
        rw [toNat_cons, pow]
        grind
      rw [e, List.length_cons, ofNat, ih]
      congr 1
      rw [shiftRight_octets, Nat.add_comm, Nat.add_mul_div_right _ _ hpos, Nat.div_eq_of_lt hlt]
      apply UInt8.toNat_inj.mp
      have hb : b.toNat < 256 := b.toNat_lt
      rw [UInt8.toNat_ofNat']
      omega
  have h := key octets 0
  rwa [Nat.zero_mul, Nat.zero_add] at h

/-! ## Changing octets in place -/

/-- Writes octets over those from a place on; what lies behind the end of the message is lost. -/
def overwrite (message : Array UInt8) (place : Nat) : Octets → Array UInt8
  | [] => message
  | b :: rest => overwrite (message.setIfInBounds place b) (place + 1) rest

/-! ## Letter case

The rule is for octets and not for characters: octets that belong to longer characters are above the
letters and stay as they are. -/

def lower (octets : Octets) : Octets := octets.map lowerOctet

@[simp] theorem length_lower (octets : Octets) : (lower octets).length = octets.length := by
  simp [lower]

theorem lowerOctet_lowerOctet (b : UInt8) : lowerOctet (lowerOctet b) = lowerOctet b := by
  unfold lowerOctet
  split
  · rename_i h
    have h1 : 65 ≤ b.toNat := UInt8.le_iff_toNat_le.mp h.1
    have h2 : b.toNat ≤ 90 := UInt8.le_iff_toNat_le.mp h.2
    rw [if_neg]
    intro hc
    have := UInt8.le_iff_toNat_le.mp hc.2
    rw [UInt8.toNat_add] at this
    simp at this
    omega
  · rfl

@[simp] theorem lower_lower (octets : Octets) : lower (lower octets) = lower octets := by
  simp [lower, lowerOctet_lowerOctet]

/-! ## Text of octets

Two hexadecimal digits for an octet, written in small letters and read in either case. An odd number
of digits stands for nothing. -/

/-- A hexadecimal digit, small letters for ten and above. -/
def hexDigit (n : Nat) : Char :=
  if n < 10 then Char.ofNat (48 + n) else Char.ofNat (87 + n)

def hex (octets : Octets) : String :=
  octets.foldl (fun s b => (s.push (hexDigit (b.toNat / 16))).push (hexDigit (b.toNat % 16))) ""

/-- The value of a hexadecimal digit of either case. -/
def hexValue? (c : Char) : Option Nat :=
  if '0' ≤ c ∧ c ≤ '9' then some (c.toNat - 48)
  else if 'a' ≤ c ∧ c ≤ 'f' then some (c.toNat - 87)
  else if 'A' ≤ c ∧ c ≤ 'F' then some (c.toNat - 55)
  else none

/-- The octets that digits stand for, two digits each, behind those found so far. -/
def ofHexDigits? (found : Array UInt8) : List Char → Option Octets
  | [] => some found.toList
  | [_] => none
  | a :: b :: rest =>
    match hexValue? a, hexValue? b with
    | some high, some low => ofHexDigits? (found.push (.ofNat (high * 16 + low))) rest
    | _, _ => none

/-- The octets that a text of hexadecimal digits stands for. -/
def ofHex? (text : String) : Option Octets := ofHexDigits? #[] text.toList

end Octets

end Dns
