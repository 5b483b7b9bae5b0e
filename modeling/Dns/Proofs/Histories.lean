import Dns.Proofs.Names

/-!
# Names that stay while a draft is written and cut

Messages are not the only place where names are composed: whoever has octets and a table may write
names with and without compression, put other octets between them, and cut both back to where one
of these steps ended. `History` is every draft that can come about like this, together with the
names that were written and have not been cut away.

The invariant of histories ties every entry of the table to the written name whose part it is:
that name ends where the entry's name ends, and all octets that reading will visit stand in front
of that end. Cutting keeps a name as a whole or not at all, and so it keeps with a name exactly the
entries that depend on it.

That cutting may not divide a name is a condition of `History` and no weakening of the result: a
name of which only a part is left is not there any more, and there is nothing to read back. What a
history may do otherwise is not restricted. Names may be composed with or without compression,
canonically or not, with an origin or without; octets may look like anything, even like names; and
the octets at the very beginning are arbitrary, such as those of a header or of another message.
Because names are read in a message and not by themselves, all of these matter: a pointer that is
written at the end of a history leads back to a name from its beginning, and that name has to have
survived everything in between.

The result is `History.names_read`. Its two halves are the two clauses of `History.Invariant` with
spelling replaced by reading.
-/

set_option autoImplicit false

namespace Dns

/-- A name that was written, completed if it was relative, and its place. -/
structure WrittenName where
  name : Name
  start : Nat
  stop : Nat

/-- A draft that began with some octets, and the names that were written to it since and are still
there. A name that cannot be completed is refused. Cutting may not divide a name. -/
inductive History : Draft → List WrittenName → Prop
  | start (octets : Array UInt8) : History ⟨octets, CompressionTable.empty⟩ []
  | compose {d d' : Draft} {names : List WrittenName} {n : Name} {compressed canonical : Bool}
      {origin : Option Name} {full : { m : Name // m.absolute = true }} (before : History d names)
      (completed : n.completed origin = .ok full)
      (run : n.compose compressed origin canonical d = .ok () d') :
      History d' (⟨full.val, d.size, d'.size⟩ :: names)
  | refuse {d d' : Draft} {names : List WrittenName} {n : Name} {compressed canonical : Bool}
      {origin : Option Name} {e : ComposeError} (before : History d names)
      (run : n.compose compressed origin canonical d = .error e d') : History d' names
  | put {d : Draft} {names : List WrittenName} (before : History d names) (octets : Octets) :
      History (d.put octets) names
  | truncate {d : Draft} {names : List WrittenName} (before : History d names) (length : Nat)
      (whole : ∀ w ∈ names, length ≤ w.start ∨ w.stop ≤ length) :
      History (d.truncate length) (names.filter fun w => w.stop ≤ length)

namespace History

open Name Draft

/-- A name stands at a place of a written name and ends with it. -/
def Within (d : Draft) (w : WrittenName) (n : Name) (p : Nat) : Prop :=
  n.absolute = true ∧ w.start ≤ p ∧ w.stop ≤ d.size ∧
    SpelledAs everywhere (d.octets.take w.stop) p n.labels p w.stop

/-- The written names are there, and every entry of the table belongs to one of them. -/
structure Invariant (d : Draft) (names : List WrittenName) : Prop where
  written : ∀ w ∈ names, Within d w w.name w.start
  noted : ∀ n p, (n, p) ∈ d.table.toList → ∃ w ∈ names, Within d w n p.val

variable {d d' : Draft} {names : List WrittenName} {w : WrittenName} {n : Name} {p : Nat}

theorem keeps_take (o : Array UInt8) (length : Nat) : Keeps everywhere (o.take length) o := by
  refine ⟨by rw [Array.take_eq_extract, Array.size_extract]; omega, fun i hi _ => ?_⟩
  rw [Array.take_eq_extract, Array.size_extract] at hi
  exact (getElem?_take o (by omega)).symm

/-- Names that end within octets do not notice when the octets go on. -/
theorem take_of_keeps {a b : Array UInt8} {length : Nat} (h : Keeps everywhere a b)
    (le : length ≤ a.size) : b.take length = a.take length := by
  have size := h.1
  refine Array.ext_getElem? fun i => ?_
  by_cases hi : i < length
  · rw [getElem?_take _ hi, getElem?_take _ hi, h.2 i (by omega) trivial]
  · rw [Array.getElem?_eq_none, Array.getElem?_eq_none] <;>
      rw [Array.take_eq_extract, Array.size_extract] <;> omega

theorem Within.grows (h : Within d w n p) (grown : d.Grows d') : Within d' w n p := by
  obtain ⟨absolute, start, stop, spelled⟩ := h
  refine ⟨absolute, start, Nat.le_trans stop grown.size_le, ?_⟩
  rwa [take_of_keeps grown.kept stop]

theorem Within.truncate {length : Nat} (h : Within d w n p) (le : w.stop ≤ length) :
    Within (d.truncate length) w n p := by
  obtain ⟨absolute, start, stop, spelled⟩ := h
  have size : (d.truncate length).size = min length d.size := by
    simp [Draft.truncate, Draft.size]
  refine ⟨absolute, start, by omega, ?_⟩
  have inside : w.stop ≤ (d.truncate length).size := by omega
  -- The octets up to the end of the name are the same before and after the cut.
  have cut : d.octets.take w.stop = (d.octets.take length).take w.stop :=
    take_of_keeps (keeps_take d.octets length) inside
  show SpelledAs _ ((d.octets.take length).take w.stop) _ _ _ _
  rwa [← cut]

theorem Within.lt_stop (h : Within d w n p) : p < w.stop := by
  obtain ⟨-, -, -, written, -, spelled⟩ := h
  have := spelled.lt_size
  rw [Array.take_eq_extract, Array.size_extract] at this
  omega

theorem Within.knows (h : Within d w n p) : d.Knows everywhere d.size n p := by
  have inside := h.lt_stop
  obtain ⟨absolute, -, stop, spelled⟩ := h
  exact ⟨absolute, by omega, w.stop, spelled.keeps (keeps_take _ _) fun _ _ _ => trivial⟩

theorem Invariant.sound (h : Invariant d names) : d.Sound everywhere := by
  intro n p there
  obtain ⟨w, -, within⟩ := h.noted n p there
  exact within.knows

theorem Invariant.compose {compressed canonical : Bool} {origin : Option Name}
    {full : { m : Name // m.absolute = true }} (h : Invariant d names)
    (completed : n.completed origin = .ok full)
    (run : n.compose compressed origin canonical d = .ok () d') :
    Invariant d' (⟨full.val, d.size, d'.size⟩ :: names) := by
  obtain ⟨m, absolute⟩ := full
  simp only [Name.compose, completed] at run
  cases run
  have fits : labelsLength m.labels + 1 ≤ 255 := by simpa [absolute] using m.fits
  generalize composed : composeLabels compressed canonical m.labels fits d = d'
  have grown : d.Grows d' := composed ▸ composeLabels_grows m.labels fits
  obtain ⟨spelled, noted⟩ := composeLabels_spelled compressed canonical m.labels fits
    (fun _ _ => trivial) fun n p there _ => h.sound n p there
  rw [composed] at spelled noted
  have whole : d'.octets.take d'.size = d'.octets := by simp [Draft.size]
  -- The new name is there, and the old ones have not moved.
  constructor
  · intro w mem
    rcases List.mem_cons.mp mem with rfl | old
    · refine ⟨absolute, Nat.le_refl _, Nat.le_refl _, ?_⟩
      rwa [whole]
    · exact (h.written w old).grows grown
  · intro n p there
    rcases noted n p there with old | ⟨behind, absolute, suffix⟩
    · obtain ⟨w, mem, within⟩ := h.noted n p old
      exact ⟨w, List.mem_cons_of_mem _ mem, within.grows grown⟩
    · -- What was noted now is a part of the name that was written now, and ends with it.
      refine ⟨_, List.mem_cons_self, absolute, behind, Nat.le_refl _, ?_⟩
      rw [whole]
      exact suffix.mono behind

theorem Invariant.truncate {length : Nat} (h : Invariant d names)
    (whole : ∀ w ∈ names, length ≤ w.start ∨ w.stop ≤ length) :
    Invariant (d.truncate length) (names.filter fun w => w.stop ≤ length) := by
  constructor
  · intro w mem
    obtain ⟨old, le⟩ := List.mem_filter.mp mem
    exact (h.written w old).truncate (of_decide_eq_true le)
  · intro n p there
    obtain ⟨old, inside⟩ := CompressionTable.mem_truncate.mp there
    obtain ⟨w, mem, within⟩ := h.noted n p old
    -- The entry is in front of the cut, and so its name is not behind it.
    have le : w.stop ≤ length := by
      rcases whole w mem with behind | front
      · have := within.2.1
        omega
      · exact front
    exact ⟨w, List.mem_filter.mpr ⟨mem, decide_eq_true le⟩, within.truncate le⟩

theorem invariant (h : History d names) : Invariant d names := by
  induction h with
  | start octets =>
    exact ⟨fun w mem => absurd mem List.not_mem_nil, fun n p there =>
      absurd (bounded_empty n p there) (Nat.not_lt_zero _)⟩
  | compose _ completed run ih => exact ih.compose completed run
  | @refuse d _ _ n _ _ origin _ _ run ih =>
    -- Names are completed before anything is written.
    rw [Name.compose] at run
    split at run <;> cases run
    exact ih
  | @put d names _ octets ih =>
    have grown := Grows.put d octets
    refine ⟨fun w mem => (ih.written w mem).grows grown, fun n p there => ?_⟩
    obtain ⟨w, mem, within⟩ := ih.noted n p there
    exact ⟨w, mem, within.grows grown⟩
  | truncate _ length whole ih => exact ih.truncate whole

theorem Within.read (h : Within d w n p) :
    ∃ found, (found == n) = true ∧ Name.read d.octets p = .ok found w.stop := by
  obtain ⟨absolute, -, -, spelled⟩ := h
  obtain ⟨found, equal, finds⟩ := spelled.finds absolute
  exact ⟨found, equal, finds _ (keeps_take _ _)⟩

/-- Every name that was written and is still there is read back at its place, and reading stops
behind it. Every name in the table is read at the place that the table tells. -/
theorem names_read (h : History d names) :
    (∀ w ∈ names, ∃ found, (found == w.name) = true ∧
      Name.read d.octets w.start = .ok found w.stop) ∧
    ∀ n p, (n, p) ∈ d.table.toList → ∃ found stop, (found == n) = true ∧
      Name.read d.octets p.val = .ok found stop := by
  constructor
  · intro w mem
    exact (h.invariant.written w mem).read
  · intro n p there
    obtain ⟨w, -, within⟩ := h.invariant.noted n p there
    obtain ⟨found, equal, read⟩ := within.read
    exact ⟨found, w.stop, equal, read⟩

/-- A name that is written twice, the second time as a pointer to the first. -/
theorem names_read_twice :
    let a : Name := ⟨[⟨[97], by decide, by decide⟩], true, by decide⟩
    ∃ d, History d [⟨a, 5, 7⟩, ⟨a, 2, 5⟩] ∧ d.octets = #[1, 2, 1, 97, 0, 192, 2] ∧
      (∀ w ∈ [WrittenName.mk a 5 7, ⟨a, 2, 5⟩], ∃ found, (found == w.name) = true ∧
        Name.read d.octets w.start = .ok found w.stop) ∧
      ∀ n p, (n, p) ∈ d.table.toList → ∃ found stop, (found == n) = true ∧
        Name.read d.octets p.val = .ok found stop := by
  intro a
  let table := CompressionTable.empty.insert a 2
  have new : find? ⟨#[1, 2], CompressionTable.empty⟩ true a = none := CompressionTable.get?_empty a
  have unknown : find? ⟨#[1, 2, 1, 97], table⟩ true root = none :=
    (CompressionTable.get?_insert_empty a root (by decide)).trans (if_neg (by decide))
  have known : find? ⟨#[1, 2, 1, 97, 0], table⟩ true a = some 2 :=
    (CompressionTable.get?_insert_empty a a (by decide)).trans (if_pos (by decide))
  have first : a.compose true none false ⟨#[1, 2], CompressionTable.empty⟩
      = .ok () ⟨#[1, 2, 1, 97, 0], table⟩ :=
    congrArg (EStateM.Result.ok ()) ((composeLabels_new new).trans (composeLabels_root unknown))
  have second : a.compose true none false ⟨#[1, 2, 1, 97, 0], table⟩
      = .ok () ⟨#[1, 2, 1, 97, 0, 192, 2], table⟩ :=
    congrArg (EStateM.Result.ok ()) (composeLabels_known known)
  have h : History _ _ := .compose (.compose (.start #[1, 2]) rfl first) rfl second
  exact ⟨_, h, rfl, names_read h⟩

end History

end Dns
