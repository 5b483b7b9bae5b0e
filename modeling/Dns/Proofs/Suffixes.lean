import Dns.Proofs.Histories
import Dns.Proofs.Room

/-!
# The longest suffix in the table

`Name.compose` looks suffixes up in the very table that it enters them into, while the draft grows
beneath it. What comes of this is simpler than how it is done (`Name.WrittenOut`): the labels in
front of the longest suffix that was in the table *before* are written, a pointer stands for the
rest, and every suffix that begins with a written label has one entry more, at the place of that
label.

The reason is that suffixes of one name differ in their number of labels. A suffix that was entered
for this name is longer than all that are still to be looked up, and so it is never found; and what
is entered was just looked up in vain, so that no entry takes the place of another. So the table of
the beginning decides everything, and the induction on labels may speak of that table alone.

All this holds of drafts that came about by composing and cutting (`History`), for in their tables
the root has no place. A table with the root in it would make a pointer of two octets stand for the
one octet of the root, and a compressed name could be longer than a plain one.

Entries are compared as lists up to order, since a table of hashes has none. That the list of a
table has no entry twice, and that inserting makes it longer by at most one, is all that is asked of
the table.
-/

set_option autoImplicit false

namespace Dns

/-! ## New entries

Places from 0x4000 on cannot be pointed to. Labels that are written there are entered nowhere, and
the table is what it was. Where a place can be pointed to, a name that has none gets its entry
(`toList_insert`), and one that has keeps it: the first place is the one that later names point to.
-/

namespace CompressionTable

variable {t : CompressionTable} {n m : Name} {pos : Nat}

/-- The entry of a name that stands at a place, if pointers reach that far. -/
def inserted? (n : Name) (pos : Nat) : Option (Name × Fin 0x4000) :=
  if reached : pos < 0x4000 then some (n, ⟨pos, reached⟩) else none

/-- Whatever is noted of one name, other names are found where they were. -/
theorem get?_insert_other (other : (n == m) = false) : (t.insert n pos).get? m = t.get? m := by
  unfold insert
  split
  · unfold get?
    rw [Std.HashMap.getElem?_insertIfNew, if_neg]
    rintro ⟨equal, -⟩
    simp [other] at equal
  · rfl

/-- A name without a place gets its entry, and nothing else changes. -/
theorem toList_insert (new : t.get? n = none) :
    (t.insert n pos).toList.Perm ((inserted? n pos).toList ++ t.toList) := by
  unfold inserted?
  by_cases reached : pos < 0x4000
  · have unnoted : (n, ⟨pos, reached⟩) ∉ t.toList := by
      intro there
      have place := (mem_toList.mp there).2
      simp [new] at place
    have fresh : n ∉ t.positions := by
      intro there
      have found := Std.HashMap.mem_iff_isSome_getElem?.mp there
      unfold get? at new
      simp [new] at found
    have noted : (n, ⟨pos, reached⟩) ∈ (t.insert n pos).toList := by
      rw [insert, dif_pos reached]
      apply mem_toList.mpr
      constructor
      · rw [Std.HashMap.getKey?_insertIfNew, if_pos ⟨BEq.rfl, fresh⟩]
      · rw [get?, Std.HashMap.getElem?_insertIfNew, if_pos ⟨BEq.rfl, fresh⟩]
    rw [dif_pos reached, Option.toList_some, List.singleton_append]
    -- Entries have no order in a table. Neither list has an entry twice, and so it is enough that
    -- they have the same entries.
    apply (List.perm_ext_iff_of_nodup (nodup_toList _) (List.nodup_cons.mpr
      ⟨unnoted, nodup_toList _⟩)).mpr
    rintro ⟨m, p⟩
    rw [List.mem_cons]
    constructor
    · intro there
      rcases mem_insert there with old | ⟨rfl, place⟩
      · exact .inr old
      · exact .inl (Prod.ext rfl (Fin.ext place))
    · rintro (new | old)
      · rw [new]
        exact noted
      · exact mem_insert_of_mem old
  · rw [dif_neg reached, insert, dif_neg reached]
    exact .refl _

end CompressionTable

namespace Name

open CompressionTable

/-! ## Names with some labels written out

The three lists below (the labels in front, their octets and their entries) are taken apart at the
first label, as the name is when it is composed. What is left over is a name of its own, which is in
the table or has no labels any more. It is the longest suffix that was there, because each longer
one was looked for before a label was written. -/

/-- The name as its letters are written. -/
def written (canonical : Bool) (n : Name) : Name := if canonical then n.canonical else n

/-- The octets of the first labels. -/
def front (canonical : Bool) (count : Nat) (n : Name) : Octets :=
  ((n.written canonical).labels.take count).flatMap Label.wire

/-- The entries of the suffixes that begin with one of the first labels, if the name is written at
`start`. Each has the place of its first label. -/
def entries (n : Name) (start count : Nat) : List (Name × Fin 0x4000) :=
  (List.range count).filterMap fun i =>
    inserted? (n.suffix i) (start + labelsLength (n.labels.take i))

/-- An absolute name was composed to a draft with the table, and so many labels of it were written
out. -/
structure WrittenOut (n : Name) (canonical : Bool) (count : Nat) (d d' : Draft) : Prop where
  /-- The suffixes that begin with these labels had no place. -/
  unknown : ∀ i < count, d.table.get? (n.suffix i) = none
  /-- The suffix behind them had one, or they are all labels. -/
  octets :
    (count < n.labels.length ∧ ∃ p, d.table.get? (n.suffix count) = some p ∧
      d'.octets = d.octets ++ (n.front canonical count ++ pointer p)) ∨
    (count = n.labels.length ∧ d'.octets = d.octets ++ (n.written canonical).wire)
  size : d'.size ≤ d.size + n.wireLength
  table : d'.table.toList.Perm (n.entries d.size count ++ d.table.toList)

section Labels

variable {canonical : Bool} {l : Label} {rest : List Label}
  {fits : labelsLength (l :: rest) + 1 ≤ 255} (fits' : labelsLength rest + 1 ≤ 255)

theorem written_cons : ((⟨l :: rest, true, fits⟩ : Name).written canonical).labels
    = (if canonical then l.lower else l)
      :: ((⟨rest, true, fits'⟩ : Name).written canonical).labels := by
  cases canonical <;> rfl

theorem wire_written (canonical : Bool) (l : Label) :
    (if canonical then l.lower else l).wire = labelWire canonical l := by
  cases canonical <;> rfl

theorem front_cons (count : Nat) : (⟨l :: rest, true, fits⟩ : Name).front canonical (count + 1)
    = labelWire canonical l ++ (⟨rest, true, fits'⟩ : Name).front canonical count := by
  unfold front
  rw [written_cons fits', List.take_succ_cons, List.flatMap_cons, wire_written]

theorem wire_cons : ((⟨l :: rest, true, fits⟩ : Name).written canonical).wire
    = labelWire canonical l ++ ((⟨rest, true, fits'⟩ : Name).written canonical).wire := by
  have absolute : ∀ n : Name, (n.written canonical).absolute = n.absolute := by
    intro n
    cases canonical <;> rfl
  unfold wire
  rw [written_cons fits', List.flatMap_cons, wire_written, absolute, absolute,
    List.append_assoc]

theorem entries_cons (start count : Nat) :
    (⟨l :: rest, true, fits⟩ : Name).entries start (count + 1)
    = (inserted? ⟨l :: rest, true, fits⟩ start).toList
      ++ (⟨rest, true, fits'⟩ : Name).entries (start + l.wireLength) count := by
  have later : ∀ i, inserted? ((⟨l :: rest, true, fits⟩ : Name).suffix (i + 1))
        (start + labelsLength ((l :: rest).take (i + 1)))
      = inserted? ((⟨rest, true, fits'⟩ : Name).suffix i)
        (start + l.wireLength + labelsLength (rest.take i)) := by
    intro i
    rw [List.take_succ_cons, labelsLength_cons, Nat.add_assoc]
    rfl
  have first : inserted? ((⟨l :: rest, true, fits⟩ : Name).suffix 0)
      (start + labelsLength ((l :: rest).take 0)) = inserted? ⟨l :: rest, true, fits⟩ start := rfl
  unfold entries
  rw [List.range_succ_eq_map, List.filterMap_cons, List.filterMap_map]
  simp only [Function.comp_def, Nat.succ_eq_add_one, later, first]
  cases inserted? ⟨l :: rest, true, fits⟩ start <;> rfl

/-- The suffixes of what is left have fewer labels than a name. -/
theorem suffix_other (i : Nat) :
    ((⟨l :: rest, true, fits⟩ : Name) == (⟨rest, true, fits'⟩ : Name).suffix i) = false := by
  rw [Bool.eq_false_iff]
  intro equal
  have length := (alike_of_beq equal).length_eq
  simp only [suffix, List.length_cons, List.length_drop] at length
  omega

end Labels

/-! ## Composing -/

/-- Composing labels writes out those in front of the longest suffix in the table. The induction is
on the labels that are left, and the draft has grown by one label and at most one entry before
each of them. -/
theorem composeLabels_writtenOut (canonical : Bool) (labels : List Label)
    (fits : labelsLength labels + 1 ≤ 255) {d : Draft} (rootless : d.Rootless) :
    ∃ count, WrittenOut ⟨labels, true, fits⟩ canonical count d
      (composeLabels true canonical labels fits d) := by
  induction labels generalizing d with
  | nil =>
    have size := composeLabels_size_le true canonical [] fits rootless
    rw [composeLabels_root (rootless.find?_root true)] at size ⊢
    refine ⟨0, ⟨?_, .inr ⟨rfl, ?_⟩, size, .refl _⟩⟩
    · intro i before
      exact absurd before (Nat.not_lt_zero i)
    · cases canonical <;> rfl
  | cons l rest ih =>
    have size := composeLabels_size_le true canonical (l :: rest) fits rootless
    cases found : d.find? true ⟨l :: rest, true, fits⟩ with
    | some p =>
      rw [composeLabels_known found] at size ⊢
      refine ⟨0, ⟨?_, .inl ⟨Nat.succ_pos _, p, found, rfl⟩, size, .refl _⟩⟩
      intro i before
      exact absurd before (Nat.not_lt_zero i)
    | none =>
      have fits' : labelsLength rest + 1 ≤ 255 := by
        rw [labelsLength_cons] at fits
        omega
      rw [composeLabels_new found] at size ⊢
      have rootless' : ((d.note ⟨l :: rest, true, fits⟩).put (labelWire canonical l)).Rootless :=
        @noted_rootless true d rootless l rest fits (labelWire canonical l)
      obtain ⟨count, tail⟩ := ih fits' rootless'
      -- What is looked up from here on does not meet the entry that was just made.
      have same : ∀ i, (d.table.insert ⟨l :: rest, true, fits⟩ d.size).get?
          ((⟨rest, true, fits'⟩ : Name).suffix i)
          = d.table.get? ((⟨rest, true, fits'⟩ : Name).suffix i) := by
        intro i
        exact get?_insert_other (suffix_other fits' i)
      have start : ((d.note ⟨l :: rest, true, fits⟩).put (labelWire canonical l)).size
          = d.size + l.wireLength := by
        rw [← length_labelWire canonical l]
        exact size_append_octets d.octets _
      refine ⟨count + 1, ⟨?_, ?_, size, ?_⟩⟩
      · intro i before
        cases i with
        | zero => exact found
        | succ i => exact (same i).symm.trans (tail.unknown i (Nat.lt_of_succ_lt_succ before))
      · -- The longest suffix of what is left is that of the whole name, since the whole is new.
        rcases tail.octets with ⟨some, p, known, octets⟩ | ⟨all, octets⟩
        · refine .inl ⟨Nat.succ_lt_succ some, p, (same count).symm.trans known, ?_⟩
          rw [front_cons fits', List.append_assoc, ← append_append_octets]
          exact octets
        · refine .inr ⟨congrArg Nat.succ all, ?_⟩
          rw [wire_cons fits', ← append_append_octets]
          exact octets
      · -- One entry for the whole, then those of what is left.
        have entered := @toList_insert d.table _ d.size found
        have grown := tail.table
        rw [start] at grown
        refine grown.trans ((entered.append_left _).trans ?_)
        rw [entries_cons fits', ← List.append_assoc]
        exact List.perm_append_comm.append_right _

end Name

namespace History

open Name Draft

/-- The table of a draft that was only composed to and cut does not have the root. -/
theorem rootless {d : Draft} {names : List WrittenName} (h : History d names) : d.Rootless := by
  induction h with
  | start octets => exact Draft.rootless_of_empty octets
  | compose _ completed run ih =>
    rw [Name.compose, completed] at run
    cases run
    exact composeLabels_rootless _ _ _ _ ih
  | refuse _ run ih =>
    rw [Name.compose] at run
    split at run <;> cases run
    exact ih
  | put _ _ ih => exact ih
  | truncate _ length _ ih =>
    unfold Draft.Rootless CompressionTable.get? at ih ⊢
    simp [Draft.truncate, CompressionTable.truncate, Std.HashMap.getElem?_filter, ih]

/-- A name is composed with the table by writing out the labels in front of its longest suffix in
it, if it can be completed; otherwise nothing happens. -/
theorem longest_suffix_found {d : Draft} {names : List WrittenName} (h : History d names)
    (n : Name) (origin : Option Name) (canonical : Bool) :
    match n.completed origin with
    | .error e => n.compose true origin canonical d = .error e d
    | .ok full => ∃ d', n.compose true origin canonical d = .ok () d' ∧
        ∃ count, WrittenOut full.val canonical count d d' := by
  unfold Name.compose
  cases n.completed origin with
  | error e => rfl
  | ok full =>
    obtain ⟨⟨labels, flag, fits⟩, absolute⟩ := full
    cases absolute
    exact ⟨_, rfl, composeLabels_writtenOut canonical labels fits h.rootless⟩

/-- A relative name below an origin that was written in other letters, as two labels or as one and
a pointer. -/
theorem longest_suffix_found_below :
    let a : Name := ⟨[⟨[97], by decide, by decide⟩], true, by decide⟩
    let origin : Name := ⟨[⟨[65], by decide, by decide⟩], true, by decide⟩
    let b : Name := ⟨[⟨[66], by decide, by decide⟩], false, by decide⟩
    let below : Name := ⟨b.labels ++ origin.labels, true, by decide⟩
    ∃ d, History d [⟨a, 2, 5⟩] ∧ d.octets = #[1, 2, 1, 97, 0] ∧
      ∃ d', b.compose true (some origin) true d = .ok () d' ∧
        ∃ count, WrittenOut below true count d d' := by
  intro a origin b below
  have new : find? ⟨#[1, 2], CompressionTable.empty⟩ true a = none := CompressionTable.get?_empty a
  have unknown : find? ⟨#[1, 2, 1, 97], CompressionTable.empty.insert a 2⟩ true root = none :=
    (CompressionTable.get?_insert_empty a root (by decide)).trans (if_neg (by decide))
  have first : a.compose true none false ⟨#[1, 2], CompressionTable.empty⟩
      = .ok () ⟨#[1, 2, 1, 97, 0], CompressionTable.empty.insert a 2⟩ :=
    congrArg (EStateM.Result.ok ()) ((composeLabels_new new).trans (composeLabels_root unknown))
  have h : History _ _ := .compose (.start #[1, 2]) rfl first
  exact ⟨_, h, rfl, longest_suffix_found h b (some origin) true⟩

end History

end Dns
