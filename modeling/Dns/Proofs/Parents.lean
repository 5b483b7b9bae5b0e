import Dns.Proofs.StoredNames

/-!
# Names and their parents

A name is below another if its labels end like those of the other, and both are absolute or neither
is. Relativizing takes the end away, and joining puts it back, in the letters of the parent: the
name that comes out is equal to the first one, and identical to it only if the parent was spelled
the same. The other way round nothing is lost, because what stands in front of the parent is not
compared with anything.

The root label never takes part in this. It is counted for both names or for neither, and so the
number of labels to keep is the same with it and without it. A name that is put together again is as
long as it was, and so the limit of 255 octets is not in the way.

All this is about lists of labels, and `StoredNames` tells that the octets follow. That an absolute
name is not changed by an origin it is not below, and not by joining, makes up the rest.

Being below is reflexive and transitive, and two names that are below each other are equal up to the
case of letters (`isSubdomain_antisymm`). So it is an order on names as they are compared, and it is
none on names as they are spelled.
-/

set_option autoImplicit false

namespace Dns

namespace Name

variable {n m o p : Name}

/-! ## The order -/

theorem isSubdomain_self (n : Name) : n.isSubdomain n = true :=
  isSubdomain_iff.mpr ⟨rfl, List.suffix_refl _⟩

theorem isSubdomain_trans (h : n.isSubdomain o = true) (g : o.isSubdomain p = true) :
    n.isSubdomain p = true := by
  obtain ⟨absolute, ends⟩ := isSubdomain_iff.mp h
  obtain ⟨absolute', ends'⟩ := isSubdomain_iff.mp g
  exact isSubdomain_iff.mpr ⟨absolute.trans absolute', ends'.trans ends⟩

/-- Names that are below each other end like each other, and are equally long. -/
theorem isSubdomain_antisymm :
    n.isSubdomain o = true ∧ o.isSubdomain n = true ↔ (n == o) = true := by
  constructor
  · rintro ⟨below, above⟩
    obtain ⟨absolute, ends⟩ := isSubdomain_iff.mp below
    obtain ⟨-, ends'⟩ := isSubdomain_iff.mp above
    -- Each is an ending of the other, and so neither can be longer.
    have alike : Alike n.labels o.labels := ends'.eq_of_length_le ends.length_le
    exact beq_of_alike alike absolute
  · intro equal
    have alike : n.labels.map Label.lower = o.labels.map Label.lower := alike_of_beq equal
    have canonical := beq_iff_canonical.mp equal
    have absolute : n.canonical.absolute = o.canonical.absolute := by rw [canonical]
    exact ⟨isSubdomain_iff.mpr ⟨absolute, alike ▸ List.suffix_refl _⟩,
      isSubdomain_iff.mpr ⟨absolute.symm, alike ▸ List.suffix_refl _⟩⟩

/-! ## Parting and joining

Parting is undone by joining for names below the origin and for absolute names, and for no others: a
relative name that is not below the origin is not parted, but it is joined. The other way round
there is no exception: if a relative name could be joined to an origin, the result is below that
origin, and parting it gives the name back. -/

/-- The labels in front of a parent, and then those of the parent. -/
theorem take_append_alike (h : n.isSubdomain o = true) :
    Alike (n.labels.take (n.labels.length - o.labels.length) ++ o.labels) n.labels := by
  obtain ⟨-, ends⟩ := isSubdomain_iff.mp h
  have parent := List.suffix_iff_eq_drop.mp ends
  rw [List.length_map, List.length_map] at parent
  rw [Alike, List.map_append, parent, List.map_take, List.take_append_drop]

theorem relativize_of_isSubdomain (h : n.isSubdomain o = true) :
    (n.relativize o).labels = n.labels.take (n.labels.length - o.labels.length) ∧
      (n.relativize o).absolute = false := by
  rw [relativize, if_pos h]
  exact ⟨rfl, rfl⟩

theorem concat_relative (relative : n.absolute = false)
    (fits : labelsLength (n.labels ++ o.labels) + o.absolute.toNat ≤ 255) :
    n.concat o = .ok ⟨n.labels ++ o.labels, o.absolute, fits⟩ := by
  rw [concat, if_neg (by simp [relative]), dif_pos fits]

/-- What is joined from a relative name has its labels in front of those of the origin. -/
theorem concat_relative_ok (relative : n.absolute = false) (joined : n.concat o = .ok m) :
    m.labels = n.labels ++ o.labels ∧ m.absolute = o.absolute := by
  rw [concat, if_neg (by simp [relative])] at joined
  split at joined
  · cases joined
    exact ⟨rfl, rfl⟩
  · cases joined

theorem concat_relativize_below (h : n.isSubdomain o = true) :
    ∃ m, (n.relativize o).concat o = .ok m ∧ (m == n) = true := by
  obtain ⟨labels, relative⟩ := relativize_of_isSubdomain h
  have alike := take_append_alike h
  rw [← labels] at alike
  have absolute : n.absolute = o.absolute := (isSubdomain_iff.mp h).1
  have fits : labelsLength ((n.relativize o).labels ++ o.labels) + o.absolute.toNat ≤ 255 := by
    -- Letters of the other case have the same length, so the name fits again.
    rw [alike.labelsLength_eq, ← absolute]
    exact n.fits
  exact ⟨_, concat_relative relative fits, beq_of_alike alike absolute.symm⟩

/-- An absolute name that is not below the origin is left alone twice. -/
theorem concat_relativize (h : n.absolute = true ∨ n.isSubdomain o = true) :
    ∃ m, (n.relativize o).concat o = .ok m ∧ (m == n) = true := by
  by_cases below : n.isSubdomain o = true
  · exact concat_relativize_below below
  · have absolute := h.resolve_right below
    refine ⟨n, ?_, BEq.rfl⟩
    rw [relativize, if_neg below, concat, if_pos absolute]

theorem isSubdomain_of_concat (relative : n.absolute = false) (joined : n.concat o = .ok m) :
    m.isSubdomain o = true := by
  obtain ⟨labels, absolute⟩ := concat_relative_ok relative joined
  refine isSubdomain_iff.mpr ⟨absolute, ?_⟩
  rw [labels, List.map_append]
  exact List.suffix_append _ _

theorem relativize_concat (relative : n.absolute = false) (joined : n.concat o = .ok m) :
    m.relativize o = n := by
  obtain ⟨labels, relative'⟩ := relativize_of_isSubdomain (isSubdomain_of_concat relative joined)
  rw [(concat_relative_ok relative joined).1, List.length_append, Nat.add_sub_cancel,
    List.take_left] at labels
  generalize m.relativize o = parted at labels relative'
  cases n
  cases parted
  cases relative
  cases relative'
  cases labels
  rfl

/-- With the octets of names, parting and joining never leaves them, and comes to the octets of the
name that the labels come to. -/
theorem stored_concat_relativize (n o : Name) :
    (n.stored.relativize? o.stored).map (·.concat o.stored)
      = some (((n.relativize o).concat o).map Name.stored) := by
  rw [StoredName.relativize?_stored, Option.map_some, StoredName.concat_stored]

/-- Parting a name from its parent and joining them again gives an equal name, joining and parting
gives back the octets, and being below is an order on names up to the case of letters. -/
theorem parts_join (n o : Name) :
    (n.absolute = true ∨ n.isSubdomain o = true →
      ∃ m, (n.relativize o).concat o = .ok m ∧ (m == n) = true ∧
        (n.stored.relativize? o.stored).map (·.concat o.stored) = some (.ok m.stored)) ∧
    (∀ m, n.absolute = false → n.concat o = .ok m →
      m.isSubdomain o = true ∧ m.relativize o = n ∧
        m.stored.relativize? o.stored = some ⟨n.wire, false⟩) ∧
    n.isSubdomain n = true ∧
    (∀ p, n.isSubdomain o = true → o.isSubdomain p = true → n.isSubdomain p = true) ∧
    (n.isSubdomain o = true ∧ o.isSubdomain n = true ↔ (n == o) = true) := by
  refine ⟨?joins, ?parts, isSubdomain_self n, fun p => isSubdomain_trans, isSubdomain_antisymm⟩
  case joins =>
    intro h
    obtain ⟨m, joined, equal⟩ := concat_relativize h
    refine ⟨m, joined, equal, ?_⟩
    rw [stored_concat_relativize, joined]
    rfl
  case parts =>
    intro m relative joined
    have parted := relativize_concat relative joined
    refine ⟨isSubdomain_of_concat relative joined, parted, ?_⟩
    rw [StoredName.relativize?_stored, parted, ← relative]
    rfl

/-- A name below a parent in other letters comes back in those of the parent, and without the parent
it is the label in front. -/
theorem parts_join_caseless :
    let label : Label := ⟨[97], by decide, by decide⟩
    let n : Name := ⟨[label, ⟨[98], by decide, by decide⟩], true, by decide⟩
    let o : Name := ⟨[⟨[66], by decide, by decide⟩], true, by decide⟩
    let r : Name := ⟨[label], false, by decide⟩
    (∃ m, (n.relativize o).concat o = .ok m ∧ (m == n) = true ∧ m.wire = [1, 97, 1, 66, 0]) ∧
      (∃ m, r.concat o = .ok m ∧ m.relativize o = r) ∧ n.isSubdomain Name.root = true := by
  intro label n o r
  have below : n.isSubdomain o = true := by decide
  obtain ⟨m, joined, equal, -⟩ := (parts_join n o).1 (.inr below)
  have joined' : r.concat o = .ok m := joined
  have wire : m.wire = [1, 97, 1, 66, 0] := by
    cases joined
    rfl
  exact ⟨⟨m, joined, equal, wire⟩, ⟨m, joined', ((parts_join r o).2.1 m rfl joined').2.1⟩,
    (parts_join n o).2.2.2.1 Name.root below (by decide)⟩

end Name

end Dns
