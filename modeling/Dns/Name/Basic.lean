import Dns.Wire.Compose

/-!
# Domain names

A name is a list of labels and the statement whether the root label follows them. The limits of the
format are part of the types: a label has 1 to 63 octets, and a name has at most 255 octets with
the length octet of every label and the root label counted. So every `Name` there is has a wire
form, and no operation below needs to check what it was given.

Letter case is kept and does not count. `a == b` compares names as the domain name system does,
without ASCII case but with absoluteness; `a = b` is identity. The two meet in `Name.canonical`,
the name in small letters: `a == b` holds exactly when the canonical names are identical, which
makes `==` an equivalence and gives equal names equal hashes.
-/

set_option autoImplicit false

namespace Dns

/-- Why labels or a text give no name. -/
inductive NameError where
  | emptyLabel
  | longLabel
  | longName
  /-- A backslash that is followed by neither a character nor three digits of an octet. -/
  | badEscape
  deriving DecidableEq, Repr

def NameError.message : NameError → String
  | .emptyLabel => "empty label in domain name"
  | .longLabel => "domain name label longer than 63 bytes"
  | .longName => "domain name longer than 255 bytes"
  | .badEscape => "invalid escape sequence"

instance : ToString NameError := ⟨NameError.message⟩

/-! ## Labels

The root label is not among them: it has no content and stands at the end of a name only, so that
names just say whether they have it. What is left are labels with something in them, and the zero
octet of the wire form cannot be confused with one. -/

/-- A label other than the root label: 1 to 63 octets of any value. -/
structure Label where
  octets : Octets
  nonempty : octets ≠ []
  short : octets.length ≤ 63
  deriving DecidableEq

namespace Label

def ofOctets (octets : Octets) : Except NameError Label :=
  if nonempty : octets = [] then .error .emptyLabel
  else if short : octets.length ≤ 63 then .ok ⟨octets, nonempty, short⟩
  else .error .longLabel

/-- The length in one octet, then the content. -/
def wire (l : Label) : Octets := UInt8.ofNat l.octets.length :: l.octets

def wireLength (l : Label) : Nat := l.octets.length + 1

def lower (l : Label) : Label where
  octets := l.octets.lower
  nonempty := by
    have := l.nonempty
    simpa [Octets.lower] using this
  short := by simpa using l.short

@[simp] theorem wireLength_lower (l : Label) : l.lower.wireLength = l.wireLength := by
  simp [wireLength, lower]

@[simp] theorem lower_lower (l : Label) : l.lower.lower = l.lower := by
  simp [lower]

@[simp] theorem length_wire (l : Label) : l.wire.length = l.wireLength := by
  simp [wire, wireLength]

end Label

/-- The number of octets that labels take up in the wire form. -/
def labelsLength : (labels : List Label) → Nat
  | [] => 0
  | l :: rest => l.wireLength + labelsLength rest

@[simp] theorem labelsLength_nil : labelsLength [] = 0 := rfl

@[simp] theorem labelsLength_cons (l : Label) (rest : List Label) :
    labelsLength (l :: rest) = l.wireLength + labelsLength rest := rfl

@[simp] theorem labelsLength_append (a b : List Label) :
    labelsLength (a ++ b) = labelsLength a + labelsLength b := by
  induction a with
  | nil => simp
  | cons l rest ih => simp [ih, Nat.add_assoc]

@[simp] theorem labelsLength_lower (labels : List Label) :
    labelsLength (labels.map Label.lower) = labelsLength labels := by
  induction labels with
  | nil => rfl
  | cons l rest ih => simp [ih]

theorem labelsLength_drop_le (labels : List Label) (n : Nat) :
    labelsLength (labels.drop n) ≤ labelsLength labels := by
  conv => rhs; rw [← List.take_append_drop n labels, labelsLength_append]
  omega

theorem labelsLength_take_le (labels : List Label) (n : Nat) :
    labelsLength (labels.take n) ≤ labelsLength labels := by
  conv => rhs; rw [← List.take_append_drop n labels, labelsLength_append]
  omega

/-! ## Names -/

/-- A domain name: its labels, and whether the root label ends it. -/
structure Name where
  labels : List Label
  absolute : Bool
  fits : labelsLength labels + absolute.toNat ≤ 255
  deriving DecidableEq

namespace Name

def root : Name := ⟨[], true, by decide⟩

def empty : Name := ⟨[], false, by decide⟩

instance : Inhabited Name := ⟨root⟩

/-- The name with these labels, if it is not too long. -/
def ofLabels (labels : List Label) (absolute : Bool) : Except NameError Name :=
  if fits : labelsLength labels + absolute.toNat ≤ 255 then .ok ⟨labels, absolute, fits⟩
  else .error .longName

/-- The name whose labels have these octets. The first label that cannot be one decides the error,
and only labels that can be are measured together. -/
def ofOctets (labels : List Octets) (absolute : Bool) : Except NameError Name := do
  ofLabels (← labels.mapM Label.ofOctets) absolute

def isRoot (n : Name) : Bool := n.absolute && n.labels.isEmpty

/-- Whether this is the relative name without labels. -/
def isEmpty (n : Name) : Bool := !n.absolute && n.labels.isEmpty

/-- The number of labels, the root label counted. -/
def labelCount (n : Name) : Nat := n.labels.length + n.absolute.toNat

def wireLength (n : Name) : Nat := labelsLength n.labels + n.absolute.toNat

/-- The wire form without compression: all labels, and a zero octet for the root label. -/
def wire (n : Name) : Octets :=
  n.labels.flatMap Label.wire ++ (if n.absolute then [0] else [])

/-- The contents of all labels, the root label's being empty. -/
def labelOctets (n : Name) : List Octets :=
  n.labels.map Label.octets ++ (if n.absolute then [[]] else [])

theorem length_wire (n : Name) : n.wire.length = n.wireLength := by
  have : ∀ labels : List Label, (labels.flatMap Label.wire).length = labelsLength labels := by
    intro labels
    induction labels with
    | nil => rfl
    | cons l rest ih => simp [ih]
  cases h : n.absolute <;> simp [wire, wireLength, h, this]

/-! ## Equality without case

Both the comparison and the hash go through the name in small letters. The length octets of labels
are below the letters, so that lowering the octets of a wire form gives the wire form of the lowered
name (`wire_canonical`); and a hash over these octets is one that equal names share. -/

def canonical (n : Name) : Name where
  labels := n.labels.map Label.lower
  absolute := n.absolute
  fits := by simpa using n.fits

@[simp] theorem canonical_canonical (n : Name) : n.canonical.canonical = n.canonical := by
  simp [canonical, Function.comp_def]

/-- Names are equal if they differ in the case of ASCII letters at most. -/
instance : BEq Name := ⟨fun a b => decide (a.canonical = b.canonical)⟩

theorem beq_iff_canonical {a b : Name} : (a == b) = true ↔ a.canonical = b.canonical := by
  show decide _ = true ↔ _
  simp

instance : EquivBEq Name where
  rfl := beq_iff_canonical.mpr rfl
  symm h := beq_iff_canonical.mpr (beq_iff_canonical.mp h).symm
  trans h₁ h₂ := beq_iff_canonical.mpr ((beq_iff_canonical.mp h₁).trans (beq_iff_canonical.mp h₂))

/-- The octets that stand for a name wherever one is hashed: one octet for absoluteness, then the
wire form in small letters. -/
def hashOctets (n : Name) : Octets :=
  (if n.absolute then 1 else 0) :: n.wire.lower

theorem wire_canonical (n : Name) : n.canonical.wire = n.wire.lower := by
  have low : ∀ l : Label, l.lower.wire = l.wire.lower := by
    intro l
    have hl := l.short
    have : lowerOctet (UInt8.ofNat l.octets.length) = UInt8.ofNat l.octets.length := by
      -- A length is at most 63, and capital letters begin at 65.
      unfold lowerOctet
      rw [if_neg]
      intro hc
      have := UInt8.le_iff_toNat_le.mp hc.1
      rw [UInt8.toNat_ofNat'] at this
      simp at this
      omega
    simp only [Label.wire, Label.lower, Octets.lower, List.length_map, List.map_cons, this]
  have : ∀ labels : List Label,
      (labels.map Label.lower).flatMap Label.wire = Octets.lower (labels.flatMap Label.wire) := by
    intro labels
    induction labels with
    | nil => rfl
    | cons l rest ih =>
      rw [List.map_cons, List.flatMap_cons, ih, low, List.flatMap_cons]
      simp [Octets.lower]
  have zero : Octets.lower [0] = [0] := by decide
  cases h : n.absolute
  · simp [wire, canonical, h, this]
  · simp only [wire, canonical, h, this, ↓reduceIte]
    rw [← zero]
    simp [Octets.lower]
    decide

theorem hashOctets_canonical (n : Name) : n.canonical.hashOctets = n.hashOctets := by
  rw [hashOctets, hashOctets, wire_canonical, Octets.lower_lower]
  rfl

instance : Hashable Name := ⟨fun n => hash n.hashOctets⟩

instance : LawfulHashable Name where
  hash_eq a b h := by
    show hash a.hashOctets = hash b.hashOctets
    rw [← hashOctets_canonical a, ← hashOctets_canonical b, beq_iff_canonical.mp h]

/-! ## Deriving names

Each of these takes names and gives one. Taking labels away cannot make a name too long and needs no
check; putting names together can, and this is the one way in which completing a name with an
absolute origin fails. -/

/-- The name without its first labels; the root label always stays. -/
def suffix (n : Name) (count : Nat) : Name where
  labels := n.labels.drop count
  absolute := n.absolute
  fits := by
    have := labelsLength_drop_le n.labels count
    have := n.fits
    omega

/-- A relative name followed by `origin`; an absolute name stays as it is. -/
def concat (n origin : Name) : Except ComposeError Name :=
  if n.absolute then .ok n
  else if fits : labelsLength (n.labels ++ origin.labels) + origin.absolute.toNat ≤ 255 then
    .ok ⟨n.labels ++ origin.labels, origin.absolute, fits⟩
  else .error .longName

/-- Whether a name is equal to `parent` or below it. A relative and an absolute name are never
related. -/
def isSubdomain (n parent : Name) : Bool :=
  n.absolute == parent.absolute && decide (parent.canonical.labels <:+ n.canonical.labels)

/-- The part of a name before `origin`, if it is below it, and the name itself otherwise. -/
def relativize (n origin : Name) : Name :=
  if n.isSubdomain origin then
    { labels := n.labels.take (n.labels.length - origin.labels.length)
      absolute := false
      fits := by
        have := labelsLength_take_le n.labels (n.labels.length - origin.labels.length)
        have := n.fits
        simp
        omega }
  else n

theorem absolute_of_concat {n origin m : Name} (ho : origin.absolute = true)
    (h : n.concat origin = .ok m) : m.absolute = true := by
  unfold concat at h
  split at h
  · cases h; assumption
  · split at h <;> cases h
    exact ho

/-- The absolute name meant by a name: itself, or itself in front of an absolute origin. -/
def completed (n : Name) (origin : Option Name) :
    Except ComposeError { m : Name // m.absolute = true } :=
  if ha : n.absolute = true then .ok ⟨n, ha⟩
  else match origin with
    | none => .error .needAbsoluteName
    | some origin =>
      if ho : origin.absolute = true then
        match h : n.concat origin with
        | .ok m => .ok ⟨m, absolute_of_concat ho h⟩
        | .error e => .error e
      else .error .needAbsoluteName

end Name

end Dns
