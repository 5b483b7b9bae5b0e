import Dns.Proofs.Names
import Mathlib.Data.List.Infix

/-!
# Names as they are stored

A `Name` cannot be anything but labels that fit, and its operations are operations on lists of
labels. A `StoredName` is the octets of the wire form and a flag, and nothing keeps the two from
being something else than a name. Every operation on it works on the octets: labels are found by
walking over length octets, a suffix is cut off at an offset that is added up on the way, and equal
is what has the same octets but for the case of letters, be they letters of a label or not.

Nothing of this is total by assumption. A length octet can lead behind the end, an offset can lie
there, and a number of labels can be smaller than what is taken off it; all that is `none`.

What `Name.stored` makes of a name is `WellFormed`, and all that is well formed is made like this
(`wellFormed_iff`). On stored names each operation comes to the stored result of the operation on
names, and never to `none`. There is one lemma for each operation, `…_stored`, and whoever needs to
know that octets are never left cites that lemma and does not look into the operation.

Names are taken apart in one place only. `firstLabels?_wireOf` says what a walk over the octets of
labels finds, and `take_wireOf` and `drop_wireOf` what is in front of an offset and behind it. The
other operations are put together from these.
-/

set_option autoImplicit false

namespace Dns

/-- The difference of two numbers where there are none below zero. -/
def difference? (a b : Nat) : Option Nat := if b ≤ a then some (a - b) else none

namespace Octets

/-- The octets from one place to another. -/
def slice? (octets : Octets) (start stop : Nat) : Option Octets :=
  if start ≤ stop ∧ stop ≤ octets.length then some ((octets.take stop).drop start) else none

/-- Whether octets are the same but for the case of letters. -/
def alike (a b : Octets) : Bool :=
  a.length == b.length && (a.zip b).all fun (x, y) => lowerOctet x == lowerOctet y

/-- The contents of the first labels, or of all if there are not so many. -/
def firstLabels? : (count : Nat) → Octets → Option (List Octets)
  | 0, _ => some []
  | _ + 1, [] => some []
  | count + 1, length :: rest =>
    if length.toNat ≤ rest.length then
      (firstLabels? count (rest.drop length.toNat)).map (rest.take length.toNat :: ·)
    else none

/-- The contents of all labels, of which there are no more than octets. -/
def labels? (octets : Octets) : Option (List Octets) := firstLabels? octets.length octets

theorem slice?_eq {octets : Octets} {start stop : Nat} (ordered : start ≤ stop)
    (inside : stop ≤ octets.length) :
    slice? octets start stop = some ((octets.take stop).drop start) := if_pos ⟨ordered, inside⟩

theorem alike_iff {a b : Octets} : alike a b = true ↔ lower a = lower b := by
  unfold alike lower
  induction a generalizing b with
  | nil => cases b <;> simp
  | cons x a ih =>
    cases b with
    | nil => simp
    | cons y b =>
      simp only [List.length_cons, List.zip_cons_cons, List.all_cons, List.map_cons,
        List.cons.injEq, ← ih, Bool.and_eq_true, beq_iff_eq, Nat.add_right_cancel_iff]
      exact and_left_comm

end Octets

open Octets

/-- The octets of a name, and whether it is absolute. -/
structure StoredName where
  octets : Octets
  absolute : Bool
  deriving DecidableEq

namespace StoredName

/-! ## Operations

They are written as they work on octets, with their own arithmetic. An offset is a sum of lengths
and not the length of a list, and the root label is a label like the others. What is cut out of an
array has to lie within it, or the operation comes to nothing; that this does not happen to names is
part of what is shown. -/

def root : StoredName := ⟨[0], true⟩

def empty : StoredName := ⟨[], false⟩

def isRoot (n : StoredName) : Bool := n.absolute && n.octets.length == 1

def labelCount? (n : StoredName) : Option Nat := (labels? n.octets).map List.length

/-- The place behind the first labels. -/
def labelOffset? (n : StoredName) (count : Nat) : Option Nat :=
  (firstLabels? count n.octets).map fun labels =>
    labels.foldl (fun place l => place + (l.length + 1)) 0

/-- The place behind the first labels, but never behind the last octet of an absolute name. -/
def suffixOffset? (n : StoredName) (count : Nat) : Option Nat :=
  (n.labelOffset? count).bind fun offset =>
    if n.absolute ∧ n.octets.length ≤ offset then difference? n.octets.length 1 else some offset

/-- The name without its first labels. The root label always stays. -/
def suffix? (n : StoredName) (count : Nat) : Option StoredName := do
  let octets ← slice? n.octets (← n.suffixOffset? count) n.octets.length
  return ⟨octets, n.absolute⟩

def concat (n origin : StoredName) : Except ComposeError StoredName :=
  if n.absolute then .ok n
  else
    let octets := n.octets ++ origin.octets
    if 255 < octets.length then .error .longName else .ok ⟨octets, origin.absolute⟩

/-- Compares labels from the last one on. -/
def isSubdomain? (n parent : StoredName) : Option Bool :=
  if n.absolute ≠ parent.absolute then some false
  else do
    let mine ← labels? n.octets
    let theirs ← labels? parent.octets
    if mine.length < theirs.length then return false
    else return (mine.reverse.zip theirs.reverse).all fun (l, r) => alike l r

def relativize? (n origin : StoredName) : Option StoredName := do
  if ← n.isSubdomain? origin then
    let keep ← difference? (← n.labelCount?) (← origin.labelCount?)
    let octets ← slice? n.octets 0 (← n.labelOffset? keep)
    return ⟨octets, false⟩
  else return n

def canonical (n : StoredName) : StoredName := ⟨lower n.octets, n.absolute⟩

/-! ## Comparing -/

instance : BEq StoredName := ⟨fun a b => a.absolute == b.absolute && alike a.octets b.octets⟩

/-- What is fed into a hash: the flag, and every octet in small letters. -/
def hashOctets (n : StoredName) : Octets := (if n.absolute then 1 else 0) :: lower n.octets

instance : Hashable StoredName := ⟨fun n => hash n.hashOctets⟩

theorem beq_iff {a b : StoredName} :
    (a == b) = true ↔ a.absolute = b.absolute ∧ lower a.octets = lower b.octets := by
  show (a.absolute == b.absolute && alike a.octets b.octets) = true ↔ _
  rw [Bool.and_eq_true, beq_iff_eq, alike_iff]

instance : EquivBEq StoredName where
  rfl := beq_iff.mpr ⟨rfl, rfl⟩
  symm h := beq_iff.mpr ⟨(beq_iff.mp h).1.symm, (beq_iff.mp h).2.symm⟩
  trans h₁ h₂ := beq_iff.mpr
    ⟨(beq_iff.mp h₁).1.trans (beq_iff.mp h₂).1, (beq_iff.mp h₁).2.trans (beq_iff.mp h₂).2⟩

theorem hashOctets_eq {a b : StoredName} (h : (a == b) = true) : a.hashOctets = b.hashOctets := by
  obtain ⟨absolute, octets⟩ := beq_iff.mp h
  rw [hashOctets, hashOctets, absolute, octets]

instance : LawfulHashable StoredName where
  hash_eq _ _ h := congrArg (fun octets : Octets => hash octets) (hashOctets_eq h)

/-! ## Well-formed octets

The condition is the one of the format, in terms of octets, and owes nothing to `Name`. The octets
that satisfy it are those that names have (`wellFormed_iff`), and so everything that is said of such
octets can be said of names. -/

/-- The octets are labels of 1 to 63 octets behind their lengths, and then a zero octet exactly if
the name is absolute. There are 255 of them at most. -/
def WellFormed (n : StoredName) : Prop :=
  ∃ labels : List Octets, (∀ l ∈ labels, 1 ≤ l.length ∧ l.length ≤ 63) ∧
    n.octets = (labels.flatMap fun l => UInt8.ofNat l.length :: l)
      ++ (if n.absolute then [0] else []) ∧
    n.octets.length ≤ 255

end StoredName

/-- The octets of labels, with the root label behind them. -/
def wireOf (labels : List Label) (absolute : Bool) : Octets :=
  labels.flatMap Label.wire ++ (if absolute then [0] else [])

/-- The contents of labels, with that of the root label behind them. -/
def contentsOf (labels : List Label) (absolute : Bool) : List Octets :=
  labels.map Label.octets ++ (if absolute then [[]] else [])

theorem Label.octets_injective : Function.Injective Label.octets := by
  rintro ⟨octets, _, _⟩ ⟨octets', _, _⟩ rfl
  rfl

theorem length_wires (labels : List Label) :
    (labels.flatMap Label.wire).length = labelsLength labels := by
  induction labels with
  | nil => rfl
  | cons l rest ih => rw [List.flatMap_cons, List.length_append, Label.length_wire, ih]; rfl

theorem length_wireOf (labels : List Label) (absolute : Bool) :
    (wireOf labels absolute).length = labelsLength labels + absolute.toNat := by
  rw [wireOf, List.length_append, length_wires]
  cases absolute <;> rfl

/-- Walking over octets finds the labels that were written. -/
theorem firstLabels?_wireOf (count : Nat) (labels : List Label) (absolute : Bool) :
    firstLabels? count (wireOf labels absolute)
      = some ((contentsOf labels absolute).take count) := by
  induction labels generalizing count with
  | nil =>
    cases count with
    | zero => cases absolute <;> rfl
    | succ count => cases absolute <;> cases count <;> rfl
  | cons l rest ih =>
    cases count with
    | zero => rfl
    | succ count =>
      have length := Name.toNat_labelLength l
      have octets : wireOf (l :: rest) absolute
          = UInt8.ofNat l.octets.length :: (l.octets ++ wireOf rest absolute) := by
        simp only [wireOf, List.flatMap_cons, Label.wire, List.cons_append, List.append_assoc]
      have enough : l.octets.length ≤ (l.octets ++ wireOf rest absolute).length := by
        rw [List.length_append]
        exact Nat.le_add_right _ _
      -- The length octet leads to the next label, since it is the length of this one.
      rw [octets, firstLabels?, length, if_pos enough, List.drop_left, List.take_left, ih]
      rfl

theorem labels?_wireOf (labels : List Label) (absolute : Bool) :
    labels? (wireOf labels absolute) = some (contentsOf labels absolute) := by
  -- As many labels as there are octets are enough, since every label has a length octet.
  have few : (contentsOf labels absolute).length ≤ (wireOf labels absolute).length := by
    have some : labels.length ≤ labelsLength labels := by
      induction labels with
      | nil => exact Nat.le_refl _
      | cons l rest ih =>
        rw [List.length_cons, labelsLength_cons, Label.wireLength]
        omega
    rw [length_wireOf, contentsOf, List.length_append, List.length_map]
    cases absolute
    · exact some
    · exact Nat.succ_le_succ some
  rw [labels?, firstLabels?_wireOf, List.take_of_length_le few]

/-- The lengths of the first labels add up to the place behind them. -/
theorem foldl_contentsOf (labels : List Label) (absolute : Bool) (count start : Nat) :
    ((contentsOf labels absolute).take count).foldl (fun place l => place + (l.length + 1)) start
      = start + (labelsLength (labels.take count)
        + if labels.length < count then absolute.toNat else 0) := by
  induction labels generalizing count start with
  | nil =>
    cases count with
    | zero => rfl
    | succ count => cases absolute <;> simp [contentsOf]
  | cons l rest ih =>
    cases count with
    | zero => rfl
    | succ count =>
      have contents : contentsOf (l :: rest) absolute = l.octets :: contentsOf rest absolute := rfl
      rw [contents, List.take_succ_cons, List.foldl_cons, ih, List.take_succ_cons,
        labelsLength_cons, Label.wireLength, Nat.add_assoc, Nat.add_assoc (l.octets.length + 1)]
      simp only [List.length_cons, Nat.add_lt_add_iff_right]

theorem take_wireOf (labels : List Label) (absolute : Bool) (count : Nat) :
    (wireOf labels absolute).take (labelsLength (labels.take count))
      = wireOf (labels.take count) false := by
  conv_lhs => rw [wireOf, ← List.take_append_drop count labels, List.flatMap_append,
    List.append_assoc]
  rw [List.take_append_drop, List.take_left' (length_wires _), wireOf]
  exact (List.append_nil _).symm

theorem drop_wireOf (labels : List Label) (absolute : Bool) (count : Nat) :
    (wireOf labels absolute).drop (labelsLength (labels.take count))
      = wireOf (labels.drop count) absolute := by
  conv_lhs => rw [wireOf, ← List.take_append_drop count labels, List.flatMap_append,
    List.append_assoc]
  rw [List.take_append_drop, List.drop_left' (length_wires _), wireOf]

namespace Name

/-- The name as it is stored. -/
def stored (n : Name) : StoredName := ⟨n.wire, n.absolute⟩

theorem length_labelOctets (n : Name) : n.labelOctets.length = n.labelCount := by
  rw [labelOctets, List.length_append, List.length_map, labelCount]
  cases n.absolute <;> rfl

theorem isSubdomain_iff {n parent : Name} : n.isSubdomain parent = true ↔
    n.absolute = parent.absolute ∧
      parent.labels.map Label.lower <:+ n.labels.map Label.lower := by
  rw [isSubdomain, Bool.and_eq_true, beq_iff_eq, decide_eq_true_iff]
  rfl

/-- A name is known by the contents of its labels and the flag. -/
theorem eq_iff_labelOctets {a b : Name} :
    a = b ↔ a.absolute = b.absolute ∧ a.labelOctets = b.labelOctets := by
  constructor
  · rintro rfl
    exact ⟨rfl, rfl⟩
  · rintro ⟨absolute, contents⟩
    obtain ⟨labels, flag, _⟩ := a
    obtain ⟨labels', flag', _⟩ := b
    cases absolute
    -- With the same flag both have a root label or none, and it can be left out.
    have octets := List.append_cancel_right contents
    cases List.map_injective_iff.mpr Label.octets_injective octets
    rfl

end Name

namespace StoredName

open Name

/-- What is well formed is stored of a name, and all that is stored of names is well formed. -/
theorem wellFormed_iff {s : StoredName} : s.WellFormed ↔ ∃ n : Name, n.stored = s := by
  constructor
  · rintro ⟨contents, short, octets, fits⟩
    -- The strings become labels together with the proofs of their lengths, which are attached to
    -- them for this.
    have labels : ∃ labels : List Label, labels.map Label.octets = contents := by
      refine ⟨contents.attach.map fun ⟨l, mem⟩ =>
        ⟨l, List.ne_nil_of_length_pos (short l mem).1, (short l mem).2⟩, ?_⟩
      rw [List.map_map]
      exact List.attach_map_subtype_val contents
    obtain ⟨labels, rfl⟩ := labels
    rw [List.flatMap_map] at octets
    have wire : s.octets = wireOf labels s.absolute := octets
    rw [wire, length_wireOf] at fits
    refine ⟨⟨labels, s.absolute, fits⟩, ?_⟩
    cases s
    exact congrArg (StoredName.mk · _) wire.symm
  · rintro ⟨n, rfl⟩
    refine ⟨n.labels.map Label.octets, ?_, ?_, ?_⟩
    · intro l mem
      obtain ⟨l, -, rfl⟩ := List.mem_map.mp mem
      exact ⟨length_pos_label l, l.short⟩
    · rw [List.flatMap_map]
      rfl
    · show n.wire.length ≤ 255
      rw [length_wire]
      exact n.fits

/-! ## Walking over the octets of a name

The root label counts as a label in walks. So a walk over all labels of an absolute name ends behind
its last octet, where a suffix must not begin. -/

section Walks

variable (n : Name)

theorem labels?_stored : labels? n.stored.octets = some n.labelOctets :=
  labels?_wireOf n.labels n.absolute

theorem labelCount?_stored : n.stored.labelCount? = some n.labelCount := by
  rw [labelCount?, labels?_stored, Option.map_some, length_labelOctets]

theorem length_stored : n.stored.octets.length = labelsLength n.labels + n.absolute.toNat :=
  length_wireOf n.labels n.absolute

theorem labelOffset?_stored (count : Nat) : n.stored.labelOffset? count
    = some (labelsLength (n.labels.take count)
      + if n.labels.length < count then n.absolute.toNat else 0) := by
  have labels : firstLabels? count n.stored.octets = some (n.labelOctets.take count) :=
    firstLabels?_wireOf count n.labels n.absolute
  rw [labelOffset?, labels, Option.map_some]
  exact congrArg some ((foldl_contentsOf n.labels n.absolute count 0).trans (Nat.zero_add _))

/-- A count that takes the root label, too, leads behind the end, and is brought back in front of
it. -/
theorem suffixOffset?_stored (count : Nat) :
    n.stored.suffixOffset? count = some (labelsLength (n.labels.take count)) := by
  have length := length_stored n
  have before := labelsLength_take_le n.labels count
  have absolute : n.stored.absolute = n.absolute := rfl
  rw [suffixOffset?, labelOffset?_stored, Option.bind_some, length, absolute]
  cases flag : n.absolute with
  | false => simp
  | true =>
    -- Only a count that takes the root label, too, leads behind the end.
    by_cases all : n.labels.length < count
    · have taken : n.labels.take count = n.labels := List.take_of_length_le (Nat.le_of_lt all)
      simp [all, taken, difference?]
    · have inside : ¬labelsLength n.labels + 1 ≤ labelsLength (n.labels.take count) := by omega
      simp [all, inside]

theorem suffix?_stored (count : Nat) : n.stored.suffix? count = some (n.suffix count).stored := by
  have length := length_stored n
  have before := labelsLength_take_le n.labels count
  have rest : slice? n.stored.octets (labelsLength (n.labels.take count)) n.stored.octets.length
      = some (n.suffix count).stored.octets := by
    rw [slice?_eq (by omega) (Nat.le_refl _), List.take_length]
    exact congrArg some (drop_wireOf n.labels n.absolute count)
  rw [suffix?, suffixOffset?_stored, Option.bind_eq_bind, Option.bind_some, rest]
  rfl

/-- The labels of a suffix are those of the name behind the first ones, and the root label. -/
theorem labelOctets_suffix (count : Nat) :
    (n.suffix count).labelOctets = n.labelOctets.drop (min count n.labels.length) := by
  have few : min count n.labels.length ≤ (n.labels.map Label.octets).length := by
    rw [List.length_map]
    exact Nat.min_le_right _ _
  have same : (n.labels.map Label.octets).drop (min count n.labels.length)
      = (n.labels.drop count).map Label.octets := by
    rw [List.map_drop]
    rcases Nat.le_total count n.labels.length with le | le
    · rw [Nat.min_eq_left le]
    · rw [Nat.min_eq_right le, List.drop_of_length_le, List.drop_of_length_le] <;> simp [le]
  rw [labelOctets, labelOctets, List.drop_append_of_le_length few, same]
  rfl

end Walks

/-- A name is known by its octets and the flag. -/
theorem stored_inj {a b : Name} : a.stored = b.stored ↔ a = b := by
  constructor
  · intro same
    have absolute : a.absolute = b.absolute := congrArg StoredName.absolute same
    have contents : some a.labelOctets = some b.labelOctets := by
      rw [← labels?_stored, ← labels?_stored, same]
    exact eq_iff_labelOctets.mpr ⟨absolute, Option.some.inj contents⟩
  · intro same
    rw [same]

/-! ## Joining and parting -/

theorem concat_stored (n origin : Name) :
    n.stored.concat origin.stored = (n.concat origin).map Name.stored := by
  obtain ⟨labels, flag, fits⟩ := n
  unfold StoredName.concat Name.concat
  cases flag with
  | true => rfl
  | false =>
    have octets : (stored ⟨labels, false, fits⟩).octets ++ origin.stored.octets
        = wireOf (labels ++ origin.labels) origin.absolute := by
      show wireOf labels false ++ wireOf origin.labels origin.absolute = _
      simp [wireOf]
    have absolute : (stored ⟨labels, false, fits⟩).absolute = false := rfl
    simp only [octets, absolute, Bool.false_eq_true, if_false, length_wireOf]
    by_cases short : labelsLength (labels ++ origin.labels) + origin.absolute.toNat ≤ 255
    · rw [if_neg (Nat.not_lt.mpr short), dif_pos short]
      rfl
    · rw [if_pos (Nat.lt_of_not_le short), dif_neg short]
      rfl

/-- Labels that are compared one by one are the same if they begin in the same way. -/
theorem all_alike_iff {mine theirs : List Octets} :
    (theirs.length ≤ mine.length ∧ ((mine.zip theirs).all fun (l, r) => alike l r) = true) ↔
      theirs.map lower <+: mine.map lower := by
  induction theirs generalizing mine with
  | nil => simp
  | cons r theirs ih =>
    cases mine with
    | nil => simp
    | cons l mine =>
      rw [List.map_cons, List.map_cons, List.cons_prefix_cons, ← ih, List.zip_cons_cons,
        List.all_cons, Bool.and_eq_true, alike_iff, List.length_cons, List.length_cons,
        Nat.add_le_add_iff_right, eq_comm (a := lower r)]
      exact and_left_comm

theorem contentsOf_suffix_iff {labels labels' : List Label} (absolute : Bool) :
    contentsOf labels absolute <:+ contentsOf labels' absolute ↔ labels <:+ labels' := by
  constructor
  · rintro ⟨front, whole⟩
    rw [contentsOf, contentsOf, ← List.append_assoc] at whole
    have octets : labels.map Label.octets <:+ labels'.map Label.octets :=
      ⟨front, List.append_cancel_right whole⟩
    obtain ⟨behind, suffix, same⟩ := List.suffix_map_iff.mp octets
    cases List.map_injective_iff.mpr Label.octets_injective same
    exact suffix
  · rintro ⟨front, rfl⟩
    exact ⟨front.map Label.octets, by simp [contentsOf]⟩

theorem contentsOf_lower (labels : List Label) (absolute : Bool) :
    (contentsOf labels absolute).map lower = contentsOf (labels.map Label.lower) absolute := by
  rw [contentsOf, contentsOf, List.map_append, List.map_map, List.map_map]
  cases absolute <;> rfl

/-- Comparing labels from the last one on tells whether one name is below another. -/
theorem all_alike_iff_isSubdomain {n parent : Name} (same : n.absolute = parent.absolute) :
    (parent.labelOctets.length ≤ n.labelOctets.length ∧
      ((n.labelOctets.reverse.zip parent.labelOctets.reverse).all fun (l, r) => alike l r)
        = true) ↔ n.isSubdomain parent = true := by
  have reversed : ∀ m : Name, m.labelOctets.length = m.labelOctets.reverse.length :=
    fun _ => List.length_reverse.symm
  rw [reversed n, reversed parent, all_alike_iff, List.map_reverse, List.map_reverse,
    List.reverse_prefix, isSubdomain_iff]
  show (contentsOf parent.labels parent.absolute).map lower
    <:+ (contentsOf n.labels n.absolute).map lower ↔ _
  rw [contentsOf_lower, contentsOf_lower, same, contentsOf_suffix_iff]
  exact (and_iff_right rfl).symm

theorem isSubdomain?_stored (n parent : Name) :
    n.stored.isSubdomain? parent.stored = some (n.isSubdomain parent) := by
  have flags : n.stored.absolute = n.absolute ∧ parent.stored.absolute = parent.absolute :=
    ⟨rfl, rfl⟩
  unfold StoredName.isSubdomain?
  rw [labels?_stored, labels?_stored, flags.1, flags.2]
  by_cases same : n.absolute = parent.absolute
  · have compared := all_alike_iff_isSubdomain same
    rw [if_neg (not_not_intro same)]
    simp only [Option.bind_eq_bind, Option.bind_some]
    by_cases fewer : n.labelOctets.length < parent.labelOctets.length
    · -- With fewer labels than the parent the comparison is not made at all.
      have unrelated := mt compared.mpr fun both => absurd both.1 (Nat.not_le.mpr fewer)
      rw [if_pos fewer, Bool.eq_false_iff.mpr unrelated]
      rfl
    · have enough := Nat.le_of_not_lt fewer
      rw [if_neg fewer]
      refine congrArg some (Bool.eq_iff_iff.mpr ?_)
      rw [← compared]
      exact ⟨fun all => ⟨enough, all⟩, fun both => both.2⟩
  · have unrelated : n.isSubdomain parent = false :=
      Bool.eq_false_iff.mpr fun below => same (isSubdomain_iff.mp below).1
    rw [if_pos same, unrelated]

/-- A name has as many labels as its parent at least, and both have a root label or none. -/
theorem relativize?_stored (n origin : Name) :
    n.stored.relativize? origin.stored = some (n.relativize origin).stored := by
  unfold StoredName.relativize? Name.relativize
  rw [isSubdomain?_stored, labelCount?_stored, labelCount?_stored]
  by_cases below : n.isSubdomain origin = true
  · obtain ⟨absolute, suffix⟩ := isSubdomain_iff.mp below
    have fewer : origin.labels.length ≤ n.labels.length := by
      simpa using suffix.length_le
    -- The root label is counted on both sides, and the difference does without it.
    have counts : difference? n.labelCount origin.labelCount
        = some (n.labels.length - origin.labels.length) := by
      rw [difference?, labelCount, labelCount, absolute, if_pos (by omega),
        Nat.add_sub_add_right]
    have offset : n.stored.labelOffset? (n.labels.length - origin.labels.length)
        = some (labelsLength (n.labels.take (n.labels.length - origin.labels.length))) := by
      rw [labelOffset?_stored, if_neg (by omega), Nat.add_zero]
    have inside : labelsLength (n.labels.take (n.labels.length - origin.labels.length))
        ≤ n.stored.octets.length := by
      have before := labelsLength_take_le n.labels (n.labels.length - origin.labels.length)
      rw [length_stored]
      omega
    have front := take_wireOf n.labels n.absolute (n.labels.length - origin.labels.length)
    simp only [Option.bind_eq_bind, Option.bind_some, below, if_true, counts, offset,
      slice?_eq (Nat.zero_le _) inside, List.drop_zero]
    exact congrArg (fun octets => some (StoredName.mk octets false)) front
  · simp only [Option.bind_eq_bind, Option.bind_some, below, Bool.false_eq_true, if_false]
    rfl

theorem canonical_stored (n : Name) : n.stored.canonical = n.canonical.stored :=
  congrArg (StoredName.mk · n.absolute) n.wire_canonical.symm

/-- Comparing octets compares names, since no length octet is a letter. -/
theorem beq_stored (a b : Name) : (a.stored == b.stored) = (a == b) := by
  rw [Bool.eq_iff_iff, beq_iff, beq_iff_canonical, ← stored_inj, ← canonical_stored,
    ← canonical_stored]
  show _ ↔ StoredName.mk _ _ = StoredName.mk _ _
  rw [StoredName.mk.injEq]
  exact and_comm

end StoredName

end Dns
