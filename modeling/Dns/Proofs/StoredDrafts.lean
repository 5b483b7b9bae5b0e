import Dns.Proofs.Records
import Dns.Proofs.StoredNames

/-!
# Composing the octets of names

A name is composed by walking over its octets: what is left from a place on is looked up, and if it
is new, the octets up to the next label are copied. The walk ends behind the root label because each
length octet leads to the next one; were one wrong, a suffix or a label would have to be cut out of
octets that are not there, which is `none`.

The table of a `StoredDraft` has stored names as its keys, and it looks them up by their octets and
their hash. It agrees with a table of names if the two find the same places for the same names
(`StoredDraft.Agrees`). Of keys that are the octets of no name, nothing is said: a walk over the
octets of a name does not look them up.

Composing keeps the tables in agreement, label by label (`composeFrom?_stored`). The induction is on
the labels that are left. Those in front of them have been written, and it is only by their octets
that they still count, for the place of the walk is the number of these octets. So each lemma here
is about a name that is split in two, `front ++ rest`, and a place between the two.

That the walk comes to an end is said of every table, and that it comes to the same as composing the
labels only of tables that agree.
-/

set_option autoImplicit false

namespace Dns

open Octets

/-- Octets with the stored names among them. -/
structure StoredDraft where
  octets : Array UInt8
  table : Std.HashMap StoredName (Fin 0x4000)

namespace StoredDraft

def put (d : StoredDraft) (octets : Octets) : StoredDraft := { d with octets := d.octets ++ octets }

/-- The place of a name, if names may be compressed and it has one. -/
def find? (d : StoredDraft) (compressed : Bool) (n : StoredName) : Option (Fin 0x4000) :=
  if compressed then d.table[n]? else none

/-- Notes that a name is going to stand at the end, if pointers reach that far. -/
def note (d : StoredDraft) (n : StoredName) : StoredDraft :=
  if reached : d.octets.size < 0x4000 then
    { d with table := d.table.insertIfNew n ⟨d.octets.size, reached⟩ }
  else d

/-- The octets are the same, and the same names are found at the same places. -/
structure Agrees (s : StoredDraft) (d : Draft) : Prop where
  octets : s.octets = d.octets
  found : ∀ n : Name, s.table[n.stored]? = d.table.get? n

/-- Composing came to the same: the same error, or drafts that agree. -/
def Matches : Except ComposeError StoredDraft → EStateM.Result ComposeError Draft Unit → Prop
  | .ok s, .ok _ d => s.Agrees d
  | .error e, .error e' _ => e = e'
  | _, _ => False

theorem agrees_of_empty (octets : Array UInt8) :
    Agrees ⟨octets, ∅⟩ ⟨octets, CompressionTable.empty⟩ := by
  refine ⟨rfl, ?_⟩
  intro n
  rw [CompressionTable.get?_empty]
  exact Std.HashMap.getElem?_empty

variable {s : StoredDraft} {d : Draft}

theorem Agrees.put (h : s.Agrees d) (o : Octets) : (s.put o).Agrees (d.put o) := by
  refine ⟨?_, h.found⟩
  show s.octets ++ o = d.octets ++ o
  rw [h.octets]

theorem Agrees.find? (h : s.Agrees d) (compressed : Bool) (n : Name) :
    s.find? compressed n.stored = d.find? compressed n := by
  cases compressed with
  | false => rfl
  | true => exact h.found n

theorem Agrees.note (h : s.Agrees d) (n : Name) : (s.note n.stored).Agrees (d.note n) := by
  have size : s.octets.size = d.size := congrArg Array.size h.octets
  unfold StoredDraft.note Draft.note CompressionTable.insert
  by_cases reached : d.size < 0x4000
  · -- What has a place keeps it, and by agreement the two tables know the same names.
    have known : n.stored ∈ s.table ↔ n ∈ d.table.positions := by
      rw [Std.HashMap.mem_iff_isSome_getElem?, Std.HashMap.mem_iff_isSome_getElem?, h.found]
      rfl
    simp only [size, reached, dif_pos]
    refine ⟨h.octets, ?_⟩
    intro m
    have before : s.table[m.stored]? = d.table.positions[m]? := h.found m
    show (s.table.insertIfNew n.stored _)[m.stored]? = (d.table.positions.insertIfNew n _)[m]?
    rw [Std.HashMap.getElem?_insertIfNew, Std.HashMap.getElem?_insertIfNew, before]
    simp only [StoredName.beq_stored, known]
  · simp only [size, reached, dif_neg, not_false_eq_true]
    exact h

end StoredDraft

namespace StoredName

/-! ## Composing

The loop copies the root label like any other. There is one difference: the root is not entered into
the table, for a pointer to it would be longer than itself. -/

/-- The place of the name that is left, and the draft with that name noted if it has none. The root
is looked up, and not noted. -/
def lookUp? (compressed : Bool) (octets : Octets) (place : Nat) (d : StoredDraft) :
    Option (Option (Fin 0x4000) × StoredDraft) :=
  if compressed then do
    let left : StoredName := ⟨← slice? octets place octets.length, true⟩
    match d.table[left]? with
    | some p => return (some p, d)
    | none => return (none, if left.isRoot then d else d.note left)
  else some (none, d)

/-- Composes the octets of an absolute name from a place on. -/
def composeFrom? (compressed canonical : Bool) (octets : Octets) (place : Nat) (d : StoredDraft) :
    Option StoredDraft :=
  if place < octets.length then
    match lookUp? compressed octets place d with
    | none => none
    | some (some p, d) => some (d.put (Name.pointer p))
    | some (none, d) =>
      match octets[place]? with
      | none => none
      | some length =>
        let stop := place + length.toNat + 1
        match slice? octets place stop with
        | none => none
        | some label =>
          composeFrom? compressed canonical octets stop
            (d.put (if canonical then lower label else label))
  else some d
termination_by octets.length - place

/-- The absolute name meant by a name. -/
def completed (n : StoredName) (origin : Option StoredName) : Except ComposeError StoredName :=
  if n.absolute then .ok n
  else match origin with
    | none => .error .needAbsoluteName
    | some origin => if origin.absolute then n.concat origin else .error .needAbsoluteName

/-- Composes a name, after completing it. -/
def compose? (n : StoredName) (compressed : Bool) (origin : Option StoredName) (canonical : Bool)
    (d : StoredDraft) : Option (Except ComposeError StoredDraft) :=
  match n.completed origin with
  | .error e => some (.error e)
  | .ok n => (composeFrom? compressed canonical n.octets 0 d).map .ok

/-! ## Composing what is left of a name

One lemma for each way in which a round may go: what is left is known, it is the root, or a label is
copied and the round after it begins one label further on. The octets in front of the place are not
looked at again, and a table is asked for what is left only, so that the induction needs nothing but
the labels. -/

theorem completed_stored (n : Name) (origin : Option Name) :
    n.stored.completed (origin.map Name.stored)
      = (n.completed origin).map fun full => full.val.stored := by
  -- What is composed wants a complete name with its proof. Here only the name is compared, and the
  -- error.
  have means : ((n.completed origin).map fun full => full.val.stored)
      = (n.absoluteName origin).map Name.stored := by
    rw [Name.absoluteName]
    cases n.completed origin <;> rfl
  have flag : ∀ m : Name, m.stored.absolute = m.absolute := fun _ => rfl
  rw [means, Name.absoluteName_eq]
  unfold StoredName.completed
  rw [flag]
  by_cases absolute : n.absolute = true
  · rw [if_pos absolute, if_pos absolute]
    rfl
  · rw [if_neg absolute, if_neg absolute]
    cases origin with
    | none => rfl
    | some origin =>
      simp only [Option.map_some, flag]
      by_cases rooted : origin.absolute = true
      · rw [if_pos rooted, if_pos rooted, concat_stored]
      · rw [if_neg rooted, if_neg rooted]
        rfl

theorem lower_wire (l : Label) : lower l.wire = l.lower.wire := by
  have short : labelsLength [l] + false.toNat ≤ 255 := by
    have := l.short
    simp only [labelsLength_cons, labelsLength_nil, Label.wireLength, Bool.toNat_false]
    omega
  have small := Name.wire_canonical ⟨[l], false, short⟩
  simpa [Name.wire, Name.canonical] using small.symm

section Walk

variable {compressed canonical : Bool} {s : StoredDraft} (front rest : List Label)

theorem drop_front (absolute : Bool) :
    (wireOf (front ++ rest) absolute).drop (labelsLength front) = wireOf rest absolute := by
  have dropped := drop_wireOf (front ++ rest) absolute front.length
  rwa [List.take_left, List.drop_left] at dropped

theorem slice?_rest : slice? (wireOf (front ++ rest) true) (labelsLength front)
    (wireOf (front ++ rest) true).length = some (wireOf rest true) := by
  have before : labelsLength front ≤ (wireOf (front ++ rest) true).length := by
    rw [length_wireOf, labelsLength_append]
    omega
  rw [slice?_eq before (Nat.le_refl _), List.take_length, drop_front]

/-- What is left is looked up as a stored name, and noted unless it is the root. -/
theorem lookUp?_rest (fits : labelsLength rest + 1 ≤ 255) :
    lookUp? compressed (wireOf (front ++ rest) true) (labelsLength front) s
      = match s.find? compressed (Name.stored ⟨rest, true, fits⟩) with
        | some p => some (some p, s)
        | none => some (none, if compressed ∧ rest ≠ [] then s.note (Name.stored ⟨rest, true, fits⟩)
            else s) := by
  unfold lookUp? StoredDraft.find?
  cases compressed with
  | false => simp
  | true =>
    have same : (⟨wireOf rest true, true⟩ : StoredName) = Name.stored ⟨rest, true, fits⟩ := rfl
    have length : (wireOf rest true).length = labelsLength rest + 1 := length_wireOf rest true
    -- The root is told by its length of one octet.
    have isRoot : (Name.stored ⟨rest, true, fits⟩).isRoot = true ↔ rest = [] := by
      show (true && (wireOf rest true).length == 1) = true ↔ _
      rw [Bool.true_and, beq_iff_eq, length, Nat.add_eq_right]
      cases rest with
      | nil => simp
      | cons l rest => simp [Label.wireLength]
    simp only [if_true, slice?_rest, Option.bind_eq_bind, Option.bind_some, same]
    cases s.table[Name.stored ⟨rest, true, fits⟩]? with
    | some p => rfl
    | none =>
      by_cases all : rest = []
      · simp only [if_pos (isRoot.mpr all), not_not_intro all, and_false, if_false]
        rfl
      · simp only [if_neg (mt isRoot.mp all), all, ne_eq, not_false_eq_true, and_self, if_true]
        rfl

/-- The octet at the place is the length of the next label, and leads behind it. -/
theorem next_label (l : Label) (rest : List Label) :
    (wireOf (front ++ l :: rest) true)[labelsLength front]? = some (UInt8.ofNat l.octets.length) ∧
      slice? (wireOf (front ++ l :: rest) true) (labelsLength front)
        (labelsLength (front ++ [l])) = some l.wire := by
  have joined : front ++ l :: rest = front ++ [l] ++ rest := by simp
  constructor
  · rw [← Nat.add_zero (labelsLength front), ← List.getElem?_drop, drop_front]
    rfl
  · have taken := take_wireOf (front ++ [l] ++ rest) true (front ++ [l]).length
    rw [List.take_left] at taken
    have ordered : labelsLength front ≤ labelsLength (front ++ [l]) := by
      rw [labelsLength_append]
      omega
    have inside : labelsLength (front ++ [l]) ≤ (wireOf (front ++ l :: rest) true).length := by
      rw [length_wireOf, joined, labelsLength_append _ rest]
      omega
    rw [slice?_eq ordered inside, joined, taken, drop_front]
    simp [wireOf]

/-- The last octet is the length of the root label. -/
theorem last_label : (wireOf front true)[labelsLength front]? = some 0 ∧
    slice? (wireOf front true) (labelsLength front) (wireOf front true).length = some [0] := by
  have rest := slice?_rest front []
  have dropped := drop_front front [] true
  rw [List.append_nil] at rest dropped
  refine ⟨?_, rest⟩
  rw [← Nat.add_zero (labelsLength front), ← List.getElem?_drop, dropped]
  rfl

/-- A name that is found takes the place of all that is left. -/
theorem composeFrom?_known {p : Fin 0x4000} (fits : labelsLength rest + 1 ≤ 255)
    (found : s.find? compressed (Name.stored ⟨rest, true, fits⟩) = some p) :
    composeFrom? compressed canonical (wireOf (front ++ rest) true) (labelsLength front) s
      = some (s.put (Name.pointer p)) := by
  have inside : labelsLength front < (wireOf (front ++ rest) true).length := by
    rw [length_wireOf, labelsLength_append, Bool.toNat_true]
    omega
  rw [composeFrom?, if_pos inside, lookUp?_rest front rest fits, found]

/-- The root label is the last thing that is copied. -/
theorem composeFrom?_root (new : s.find? compressed Name.root.stored = none) :
    composeFrom? compressed canonical (wireOf front true) (labelsLength front) s
      = some (s.put [0]) := by
  obtain ⟨zero, label⟩ := last_label front
  have looked := @lookUp?_rest compressed s front [] (by decide)
  have new' : s.find? compressed (Name.stored ⟨[], true, by decide⟩) = none := new
  rw [List.append_nil, new'] at looked
  have length : (wireOf front true).length = labelsLength front + (0 : UInt8).toNat + 1 :=
    length_wireOf front true
  have inside : labelsLength front < (wireOf front true).length := by
    rw [length]
    exact Nat.lt_succ_self _
  rw [composeFrom?, if_pos inside, looked]
  simp only [ne_eq, not_true_eq_false, and_false, if_false, zero]
  rw [← length, label]
  simp only []
  -- Behind the root label there is nothing left, and the walk is over.
  rw [composeFrom?, if_neg (Nat.lt_irrefl _)]
  cases canonical <;> rfl

/-- A label is copied, and composing goes on behind it. -/
theorem composeFrom?_label {l : Label} {fits : labelsLength (l :: rest) + 1 ≤ 255}
    (new : s.find? compressed (Name.stored ⟨l :: rest, true, fits⟩) = none) :
    composeFrom? compressed canonical (wireOf (front ++ l :: rest) true) (labelsLength front) s
      = composeFrom? compressed canonical (wireOf (front ++ [l] ++ rest) true)
          (labelsLength (front ++ [l]))
          ((if compressed then s.note (Name.stored ⟨l :: rest, true, fits⟩) else s).put
            (Name.labelWire canonical l)) := by
  obtain ⟨length, label⟩ := next_label front l rest
  have stop : labelsLength front + (UInt8.ofNat l.octets.length).toNat + 1
      = labelsLength (front ++ [l]) := by
    rw [Name.toNat_labelLength, labelsLength_append, labelsLength_cons, Label.wireLength,
      labelsLength_nil, Nat.add_assoc, Nat.add_zero]
  have inside : labelsLength front < (wireOf (front ++ l :: rest) true).length := by
    rw [length_wireOf, labelsLength_append, Bool.toNat_true]
    omega
  have copied : (if canonical then lower l.wire else l.wire) = Name.labelWire canonical l := by
    rw [lower_wire]
    rfl
  rw [composeFrom?, if_pos inside, lookUp?_rest front (l :: rest) fits, new]
  simp only [length, stop, label, copied, ne_eq, reduceCtorEq, not_false_eq_true, and_true,
    List.append_assoc, List.singleton_append]

/-- Composing the octets that are left of a name composes the labels that are left. The induction is
on these; the labels in front of them only tell the place. -/
theorem composeFrom?_stored (fits : labelsLength rest + 1 ≤ 255) :
    ∃ s', composeFrom? compressed canonical (wireOf (front ++ rest) true) (labelsLength front) s
        = some s' ∧
      ∀ d, s.Agrees d → s'.Agrees (Name.composeLabels compressed canonical rest fits d) := by
  induction rest generalizing front s with
  | nil =>
    cases found : s.find? compressed Name.root.stored with
    | some p =>
      refine ⟨s.put (Name.pointer p), composeFrom?_known front [] fits found, ?_⟩
      intro d h
      rw [h.find?] at found
      rw [Name.composeLabels, found]
      exact h.put _
    | none =>
      rw [List.append_nil]
      refine ⟨s.put [0], composeFrom?_root front found, ?_⟩
      intro d h
      rw [h.find?] at found
      rw [Name.composeLabels_root found]
      exact h.put _
  | cons l rest ih =>
    cases found : s.find? compressed (Name.stored ⟨l :: rest, true, fits⟩) with
    | some p =>
      refine ⟨s.put (Name.pointer p), composeFrom?_known front (l :: rest) fits found, ?_⟩
      intro d h
      rw [h.find?] at found
      rw [Name.composeLabels_known found]
      exact h.put _
    | none =>
      rw [composeFrom?_label front rest found]
      -- The label is behind now: it belongs to the labels in front, and the place has moved on by
      -- its octets.
      have fits' : labelsLength rest + 1 ≤ 255 := by
        rw [labelsLength_cons] at fits
        omega
      obtain ⟨s', composed, agrees⟩ := ih (front ++ [l]) fits'
      refine ⟨s', composed, ?_⟩
      intro d h
      rw [h.find?] at found
      rw [Name.composeLabels_new found]
      apply agrees
      cases compressed with
      | false => exact h.put _
      | true => exact (h.note _).put _

end Walk

/-- Whatever the table of a draft is, composing a stored name comes to an end. If the table agrees
with one of names, it comes to what composing the name comes to. -/
theorem compose?_stored (n : Name) (compressed : Bool) (origin : Option Name) (canonical : Bool)
    (s : StoredDraft) :
    ∃ outcome, n.stored.compose? compressed (origin.map Name.stored) canonical s = some outcome ∧
      ∀ d, s.Agrees d → StoredDraft.Matches outcome (n.compose compressed origin canonical d) := by
  unfold compose? Name.compose
  rw [completed_stored]
  cases n.completed origin with
  | error e => exact ⟨.error e, rfl, fun _ _ => rfl⟩
  | ok full =>
    obtain ⟨⟨labels, flag, fits⟩, absolute⟩ := full
    cases absolute
    obtain ⟨s', composed, agrees⟩ :=
      @composeFrom?_stored compressed canonical s [] labels fits
    exact ⟨.ok s', congrArg (Option.map Except.ok) composed, agrees⟩

end StoredName

end Dns
