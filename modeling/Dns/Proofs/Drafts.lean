import Dns.Name.Wire
import Dns.Proofs.Reading

/-!
# What composing does to a draft

Composing only ever adds to the end of a draft. That alone does not make it possible to go back: a
draft is octets *and* a table of the names in them, and a call that fails has put names into the
table already. No copy of the old table is kept. The octets are cut back to their old length, and
the table is cut back by the places of its names, which brings the old table back for two reasons.

* All names that were noted meanwhile stand where the draft ended or behind. This is part of
  `Draft.Grows`, which relates the drafts before and after anything is composed, whether it
  succeeded or not.
* All names that were there before stand in front of that. This is `Draft.Bounded`, an invariant of
  drafts between calls. It may fail *within* a call: a name is noted where the draft ends, and only
  then its first label is put there.

`Composer.Confined` says of a composer that it keeps to both, and everything that is composed is
built from operations that pass this on (`Dns.Proofs.Composers`). `Draft.Grows.truncate` is where
the two come together, and undoing a call in `Dns.Proofs.Rollback` is an application of it.

Tables are compared by `CompressionTable.Same` and not by equality. They are hash tables, and
cutting one rebuilds it, so that the table that comes back has the entries of the old one and not
its buckets.
-/

set_option autoImplicit false

namespace Dns

/-! ## Tables

An entry of the table is a name in the spelling in which it was written first, and a place. Looking
up goes by equality of names, so a lookup finds the entry of a name that differs in letter case, but
what is *there* is told by `CompressionTable.toList`, with the spelling. Tables are compared by
these entries (`Same`), and never by `=`: two tables that came about in different ways may keep the
same entries in another order, and nothing that is done with a table depends on that. -/

namespace CompressionTable

variable {t a b c : CompressionTable} {n : Name} {p : Fin 0x4000} {length : Nat}

/-- The same names, letter for letter, at the same places. -/
def Same (a b : CompressionTable) : Prop := a.positions.Equiv b.positions

theorem Same.refl (t : CompressionTable) : Same t t := .rfl

theorem Same.symm (h : Same a b) : Same b a := Std.HashMap.Equiv.symm h

theorem Same.trans (h : Same a b) (g : Same b c) : Same a c := Std.HashMap.Equiv.trans h g

theorem Same.mem_iff (h : Same a b) : (n, p) ∈ a.toList ↔ (n, p) ∈ b.toList :=
  h.toList_perm.mem_iff

theorem Same.truncate (h : Same a b) (length : Nat) :
    Same (a.truncate length) (b.truncate length) :=
  Std.HashMap.Equiv.filter _ h

/-- An entry is a name as it was written, and its place. -/
theorem mem_toList : (n, p) ∈ t.toList ↔ t.positions.getKey? n = some n ∧ t.get? n = some p :=
  Std.HashMap.mem_toList_iff_getKey?_eq_some_and_getElem?_eq_some

/-- What is found was written so up to letter case. -/
theorem mem_of_get? (h : t.get? n = some p) : ∃ m, (m == n) = true ∧ (m, p) ∈ t.toList := by
  have there : n ∈ t.positions := Std.HashMap.mem_iff_isSome_getElem?.mpr (by
    rw [get?] at h
    rw [h, Option.isSome_some])
  have equal := Std.HashMap.getKey_beq there
  refine ⟨t.positions.getKey n there, equal, mem_toList.mpr ⟨?_, ?_⟩⟩
  · rw [Std.HashMap.getKey?_congr equal]
    exact Std.HashMap.getKey?_eq_some_getKey there
  · rw [← h]
    exact Std.HashMap.getElem?_congr equal

theorem nodup_toList (t : CompressionTable) : t.toList.Nodup :=
  Std.HashMap.distinct_keys_toList.imp fun {x y} unequal same => by
    subst same
    simp at unequal

/-- Tables are the same if they have the same entries. -/
theorem same_of_mem_iff (h : ∀ n p, (n, p) ∈ a.toList ↔ (n, p) ∈ b.toList) : Same a b := by
  refine Std.HashMap.equiv_iff_toList_perm.mpr ?_
  exact (List.perm_ext_iff_of_nodup (nodup_toList a) (nodup_toList b)).mpr fun (n, p) => h n p

/-! ### Cutting -/

theorem mem_truncate :
    (n, p) ∈ (t.truncate length).toList ↔ (n, p) ∈ t.toList ∧ p.val < length := by
  rw [toList, truncate, Std.HashMap.toList_filter.mem_iff, List.mem_filter, decide_eq_true_iff]
  rfl

/-- Cutting to a length forgets what a cut to a greater length would forget. -/
theorem truncate_truncate {short long : Nat} (h : short ≤ long) :
    Same ((t.truncate long).truncate short) (t.truncate short) := by
  refine same_of_mem_iff fun n p => ?_
  rw [mem_truncate, mem_truncate, mem_truncate]
  constructor
  · rintro ⟨⟨there, -⟩, hp⟩
    exact ⟨there, hp⟩
  · rintro ⟨there, hp⟩
    exact ⟨⟨there, Nat.lt_of_lt_of_le hp h⟩, hp⟩

/-- Nothing is forgotten if all places are in front of the length. -/
theorem truncate_of_forall (h : ∀ n p, (n, p) ∈ t.toList → p.val < length) :
    Same (t.truncate length) t := by
  refine same_of_mem_iff fun n p => ?_
  rw [mem_truncate]
  exact ⟨fun there => there.1, fun there => ⟨there, h n p there⟩⟩

/-! ### Noting -/

theorem get?_empty (n : Name) : empty.get? n = none := by
  rw [get?, empty]
  exact Std.HashMap.getElem?_empty

/-- Where there was no name, nothing is found but the one that was noted. -/
theorem get?_insert_empty (n m : Name) {pos : Nat} (reached : pos < 0x4000) :
    (empty.insert n pos).get? m = if (n == m) = true then some ⟨pos, reached⟩ else none := by
  rw [insert, dif_pos reached, get?, Std.HashMap.getElem?_insertIfNew]
  simp [empty]

/-- A new entry is the name at its place. -/
theorem mem_insert {m : Name} {pos : Nat} (h : (m, p) ∈ (t.insert n pos).toList) :
    (m, p) ∈ t.toList ∨ m = n ∧ p.val = pos := by
  by_cases reached : pos < 0x4000
  · rw [insert, dif_pos reached] at h
    obtain ⟨spelling, place⟩ := mem_toList.mp h
    rw [Std.HashMap.getKey?_insertIfNew] at spelling
    rw [get?, Std.HashMap.getElem?_insertIfNew] at place
    by_cases fresh : (n == m) = true ∧ ¬n ∈ t.positions
    · rw [if_pos fresh] at spelling place
      exact .inr ⟨(Option.some.inj spelling).symm, by rw [← Option.some.inj place]⟩
    · rw [if_neg fresh] at spelling place
      exact .inl (mem_toList.mpr ⟨spelling, place⟩)
  · rw [insert, dif_neg reached] at h
    exact .inl h

/-- What is there stays there. -/
theorem mem_insert_of_mem {m : Name} {pos : Nat} (h : (m, p) ∈ t.toList) :
    (m, p) ∈ (t.insert n pos).toList := by
  by_cases reached : pos < 0x4000
  · obtain ⟨spelling, place⟩ := mem_toList.mp h
    -- An equal name that is there already is not replaced, not even in another spelling.
    have known : ¬((n == m) = true ∧ ¬n ∈ t.positions) := by
      rintro ⟨equal, fresh⟩
      have there := Std.HashMap.getKey?_congr (m := t.positions) equal
      rw [spelling, Std.HashMap.getKey?_eq_none fresh] at there
      cases there
    rw [insert, dif_pos reached]
    refine mem_toList.mpr ⟨?_, ?_⟩
    · rw [Std.HashMap.getKey?_insertIfNew, if_neg known, spelling]
    · rw [get?, Std.HashMap.getElem?_insertIfNew, if_neg known]
      exact place
  · rwa [insert, dif_neg reached]

/-- What is noted from a length on is forgotten when the table is cut to it. -/
theorem truncate_insert {pos : Nat} (h : length ≤ pos) :
    Same ((t.insert n pos).truncate length) (t.truncate length) := by
  refine same_of_mem_iff fun m p => ?_
  rw [mem_truncate, mem_truncate]
  constructor
  · rintro ⟨there, hp⟩
    -- A name in front of the length is not the new one.
    rcases mem_insert there with old | ⟨-, new⟩
    · exact ⟨old, hp⟩
    · omega
  · rintro ⟨there, hp⟩
    exact ⟨mem_insert_of_mem there, hp⟩

end CompressionTable

/-! ## Drafts

Of the two relations, `Draft.Grows` is the one to compose with (`Draft.Grows.trans`), since it does
not ask for anything to be known of the draft it begins with. `Draft.Bounded` is needed at the ends
only. That a cut undoes what was composed follows from the two together: growing has not touched the
octets in front of the place, and the entries that came with it lie behind, where the cut forgets
them. -/

namespace Draft

variable {d d' d'' : Draft}

theorem put_put (d : Draft) (a b : Octets) : (d.put a).put b = d.put (a ++ b) :=
  congrArg (Draft.mk · d.table) (append_append_octets d.octets a b)

/-- What was put is taken away again. -/
theorem shorten_put (d : Draft) (o : Octets) : (d.put o).shorten d.size = d := by
  have octets : (d.octets ++ o).take d.octets.size = d.octets := by
    rw [← Array.toList_inj]
    simp
  exact congrArg (Draft.mk · d.table) octets

/-- Every place. -/
abbrev everywhere : Nat → Prop := fun _ => True

/-- One draft comes from another by composing. The octets of the old draft are in front, and of the
names that stand in front of its end, the new one has those that the old one had. -/
structure Grows (d d' : Draft) : Prop where
  kept : Keeps everywhere d.octets d'.octets
  names : (d'.table.truncate d.size).Same (d.table.truncate d.size)

/-- All names stand in front of the end. -/
def Bounded (d : Draft) : Prop := ∀ n p, (n, p) ∈ d.table.toList → p.val < d.size

namespace Grows

theorem refl (d : Draft) : d.Grows d := ⟨.refl _ _, .refl _⟩

theorem size_le (h : d.Grows d') : d.size ≤ d'.size := h.kept.1

theorem trans (h : d.Grows d') (g : d'.Grows d'') : d.Grows d'' := by
  refine ⟨h.kept.trans g.kept, ?_⟩
  -- `g` compares the tables where the second draft ends, which is behind the end of the first.
  have down := CompressionTable.truncate_truncate (t := d''.table) h.size_le
  have down' := CompressionTable.truncate_truncate (t := d'.table) h.size_le
  exact down.symm.trans ((g.names.truncate d.size).trans (down'.trans h.names))

theorem put (d : Draft) (o : Octets) : d.Grows (d.put o) := ⟨.append _ _ _, .refl _⟩

theorem note (d : Draft) (n : Name) : d.Grows (d.note n) :=
  ⟨.refl _ _, CompressionTable.truncate_insert (Nat.le_refl _)⟩

/-- Cutting back to the end of the old draft keeps it, even though it leaves the table. -/
theorem shorten (h : d.Grows d') : d.Grows (d'.shorten d.size) := by
  refine ⟨⟨?_, fun i hi _ => ?_⟩, h.names⟩
  · have := h.size_le
    simp only [Draft.shorten, Draft.size, Array.take_eq_extract, Array.size_extract] at *
    omega
  · rw [← h.kept.2 i hi trivial]
    exact getElem?_take _ hi

/-- Writing behind the end of the old draft keeps it. -/
theorem overwrite (h : d.Grows d') (o : Octets) : d.Grows (d'.overwrite d.size o) := by
  refine ⟨⟨?_, fun i hi _ => ?_⟩, h.names⟩
  · exact Nat.le_trans h.kept.1 (Nat.le_of_eq (size_overwrite o _ _).symm)
  · rw [← h.kept.2 i hi trivial]
    exact getElem?_overwrite o (.inl hi)

/-- What has been composed since can be taken back. -/
theorem truncate (h : d.Grows d') (bounded : d.Bounded) :
    (d'.truncate d.size).octets = d.octets ∧ (d'.truncate d.size).table.Same d.table := by
  refine ⟨?_, h.names.trans (CompressionTable.truncate_of_forall bounded)⟩
  refine Array.ext_getElem? fun i => ?_
  by_cases hi : i < d.octets.size
  · rw [← h.kept.2 i hi trivial]
    exact getElem?_take _ hi
  · -- Behind the old end there is nothing, neither before nor after.
    rw [Array.getElem?_eq_none (Nat.le_of_not_lt hi), Array.getElem?_eq_none]
    simp only [Draft.truncate, Draft.size, Array.take_eq_extract, Array.size_extract]
    omega

end Grows

theorem bounded_empty : Draft.empty.Bounded := by
  intro n p h
  rw [CompressionTable.mem_toList] at h
  simp [empty, CompressionTable.empty] at h

theorem Bounded.put (h : d.Bounded) (o : Octets) : (d.put o).Bounded := fun n p there =>
  Nat.lt_of_lt_of_le (h n p there) (Grows.put d o).size_le

/-- A name that is noted gets octets next, and then it stands in front of the end, too. -/
theorem Bounded.note_put (h : d.Bounded) (n : Name) {o : Octets} (nonempty : 0 < o.length) :
    ((d.note n).put o).Bounded := by
  have size : ((d.note n).put o).size = d.size + o.length := size_append_octets d.octets o
  intro m p there
  rcases CompressionTable.mem_insert there with old | ⟨-, new⟩
  · have := h m p old
    omega
  · omega

end Draft

/-! ## Composers

There are three clauses in `Composer.Confined` because success and failure differ: a failed composer
may leave a draft that is not bounded, but nobody looks at it before it is cut. The clauses are
closed under `bind` and under a length in front, and these are all the ways in which composers are
put together, so that a composer of a record is shown to be confined by its parts. -/

namespace Composer

variable {α β : Type}

/-- One composer after the other succeeds only if both do. -/
theorem bind_ok {c : Composer α} {k : α → Composer β} {d d' : Draft} {b : β}
    (run : (c >>= k) d = .ok b d') : ∃ a d₁, c d = .ok a d₁ ∧ k a d₁ = .ok b d' := by
  simp only [Bind.bind, EStateM.bind] at run
  split at run
  · rename_i a d₁ first
    exact ⟨a, d₁, first, run⟩
  · cases run

/-- A composer only adds to the end of a draft, whatever comes of it, and a draft that it completes
has its names in front of its end if it had them there before. -/
structure Confined (c : Composer α) : Prop where
  grows : ∀ {d a d'}, c d = .ok a d' → d.Grows d'
  fails : ∀ {d e d'}, c d = .error e d' → d.Grows d'
  bounded : ∀ {d a d'}, d.Bounded → c d = .ok a d' → d'.Bounded

namespace Confined

variable {c : Composer α}

theorem pure (a : α) : Confined (Pure.pure a) where
  grows h := by cases h; exact .refl _
  fails h := by cases h
  bounded b h := by cases h; exact b

theorem bind {k : α → Composer β} (h : Confined c) (g : ∀ a, Confined (k a)) :
    Confined (c >>= k) where
  grows {d b d'} run := by
    obtain ⟨a, d₁, first, run⟩ := bind_ok run
    exact (h.grows first).trans ((g a).grows run)
  fails {d e d'} run := by
    simp only [Bind.bind, EStateM.bind] at run
    split at run
    · rename_i a d₁ first
      exact (h.grows first).trans ((g a).fails run)
    · rename_i e d₁ first
      cases run
      exact h.fails first
  bounded {d b d'} bounded run := by
    obtain ⟨a, d₁, first, run⟩ := bind_ok run
    exact (g a).bounded (h.bounded bounded first) run

theorem put (o : Octets) : Confined (Composer.put o) where
  grows h := by cases h; exact .put _ _
  fails h := by cases h
  bounded b h := by cases h; exact b.put o

theorem putOrFail (o : Except ComposeError Octets) : Confined (Composer.putOrFail o) := by
  cases o with
  | ok o => exact put o
  | error e =>
    constructor
    · intro d a d' h; cases h
    · intro d e d' h; cases h; exact .refl _
    · intro d a d' _ h; cases h

/-- Data that fail behind their length leave their names in the table, but those stand behind the
octets that were there before, and nothing else is different. -/
theorem lengthPrefixed {c : Composer Unit} (h : Confined c) :
    Confined (Composer.lengthPrefixed c) := by
  have begun : ∀ d : Draft, d.Grows (d.put [0, 0]) := fun d => .put d _
  constructor
  · intro d a d' run
    simp only [Composer.lengthPrefixed] at run
    split at run
    · cases run
    · rename_i d₁ inner
      have grown := (begun d).trans (h.grows inner)
      split at run
      · cases run
      · split at run
        · cases run
          exact grown.overwrite _
        · cases run
          exact grown
  · intro d e d' run
    simp only [Composer.lengthPrefixed] at run
    split at run
    · rename_i e₁ d₁ inner
      cases run
      exact ((begun d).trans (h.fails inner)).shorten
    · rename_i d₁ inner
      split at run
      · cases run
        exact ((begun d).trans (h.grows inner)).shorten
      · split at run <;> cases run
  · intro d a d' bounded run
    simp only [Composer.lengthPrefixed] at run
    split at run
    · cases run
    · rename_i d₁ inner
      -- The length is written over octets that are there: no place moves.
      have inside := h.bounded (bounded.put [0, 0]) inner
      split at run
      · cases run
      · split at run
        · cases run
          intro n p there
          exact Nat.lt_of_lt_of_le (inside n p there)
            (Nat.le_of_eq (size_overwrite _ d₁.octets _).symm)
        · cases run
          exact inside

end Confined

end Composer

/-! ## Names -/

namespace Name

variable {compressed canonical : Bool} {d : Draft}

theorem length_labelWire (canonical : Bool) (l : Label) :
    (labelWire canonical l).length = l.wireLength := by
  cases canonical <;> simp [labelWire]

theorem length_labelWire_pos (canonical : Bool) (l : Label) :
    0 < (labelWire canonical l).length := by
  rw [length_labelWire, Label.wireLength]
  omega

theorem composeLabels_root {fits : labelsLength [] + 1 ≤ 255}
    (new : d.find? compressed root = none) :
    composeLabels compressed canonical [] fits d = d.put [0] := by
  rw [composeLabels, new]

variable {l : Label} {rest : List Label} {fits : labelsLength (l :: rest) + 1 ≤ 255}

theorem composeLabels_known {p : Fin 0x4000}
    (known : d.find? compressed ⟨l :: rest, true, fits⟩ = some p) :
    composeLabels compressed canonical (l :: rest) fits d = d.put (pointer p) := by
  rw [composeLabels]
  simp only [known]

theorem composeLabels_new (new : d.find? compressed ⟨l :: rest, true, fits⟩ = none) :
    composeLabels compressed canonical (l :: rest) fits d
      = composeLabels compressed canonical rest (by rw [labelsLength_cons] at fits; omega)
        (Draft.put (if compressed then d.note ⟨l :: rest, true, fits⟩ else d)
          (labelWire canonical l)) := by
  rw [composeLabels]
  simp only [new]

theorem composeLabels_grows (labels : List Label) (fits : labelsLength labels + 1 ≤ 255) :
    d.Grows (composeLabels compressed canonical labels fits d) := by
  -- The recursion of composing: a pointer ends it, and so does the root.
  induction labels generalizing d with
  | nil =>
    rw [composeLabels]
    split
    · exact .put _ _
    · exact .put _ _
  | cons l rest ih =>
    rw [composeLabels]
    simp only
    split
    · exact .put _ _
    · -- A name is noted where the draft ends, and only then its first label is put there.
      refine Draft.Grows.trans ?_ (ih _)
      split
      · exact (Draft.Grows.note d _).trans (.put _ _)
      · exact .put _ _

theorem composeLabels_bounded (labels : List Label) (fits : labelsLength labels + 1 ≤ 255)
    (h : d.Bounded) : (composeLabels compressed canonical labels fits d).Bounded := by
  induction labels generalizing d with
  | nil =>
    rw [composeLabels]
    split
    · exact h.put _
    · exact h.put _
  | cons l rest ih =>
    rw [composeLabels]
    simp only
    split
    · exact h.put _
    · refine ih _ ?_
      split
      · exact h.note_put _ (length_labelWire_pos canonical l)
      · exact h.put _

theorem compose_confined (n : Name) (compressed : Bool) (origin : Option Name)
    (canonical : Bool) : (n.compose compressed origin canonical).Confined := by
  constructor
  · intro d a d' run
    rw [compose] at run
    split at run
    · cases run
    · cases run
      exact composeLabels_grows _ _
  · intro d e d' run
    rw [compose] at run
    split at run
    · cases run
      exact .refl _
    · cases run
  · intro d a d' bounded run
    rw [compose] at run
    split at run
    · cases run
    · cases run
      exact composeLabels_bounded _ _ bounded

end Name

end Dns
