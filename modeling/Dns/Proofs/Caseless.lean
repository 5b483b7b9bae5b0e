import Dns.Proofs.StoredNames
import Dns.Name.Frozen
import Mathlib.Tactic.TFAE

/-!
# One notion of equality

Names are compared in five ways: octet by octet with the length octets among them, label by label,
in small letters, as what is fed into a hash, and, when they are frozen, by place and fingerprint
first. There is only one notion of equality behind them. Comparing octets could join labels that end
at different places; it does not, because a length is at most 63, which is no letter, and so the
length octets have to be identical.

A frozen name keeps the place where it was frozen and the fingerprint it had then. What is at the
same place is taken to be equal without a look at it, and what has different fingerprints to be
different. The first is right because no two names that are in use were frozen at one place, the
second because a fingerprint depends on nothing but what is fed into the hash. Both are invariants
of the `Pool` of frozen names, which are frozen, shared, replaced and released in any order
(`Pool.Sound`). They are kept by each step (`Sound.after`), and so by all (`sound_run`).

Nothing is asked of the hash. Different names may have one fingerprint, and then they are compared
like names that are not frozen.
-/

set_option autoImplicit false

namespace Dns

open Octets

/-! ## Frozen names

Places are numbered as they are used. Only freezing takes a new one. A name that is replaced is
frozen anew, while others may still hold it as it was. `Sound` is what makes a comparison of places
safe, since frozen names with one place have one name. It holds of a pool after any steps
(`sound_run`), by induction on these. -/

namespace FrozenName

namespace Pool

/-- Fingerprints are those of the names, and one place has one name. Places not in use yet are
free. -/
structure Sound (pool : Pool) : Prop where
  used : ∀ f ∈ pool.held, f.place < pool.next
  printed : ∀ f ∈ pool.held, f.fingerprint = f.name.fingerprint
  placed : ∀ f ∈ pool.held, ∀ g ∈ pool.held, f.place = g.place → f.name = g.name

variable {pool : Pool}

theorem Sound.freeze (h : pool.Sound) (n : Name) : (pool.freeze n).Sound where
  used f mem := by
    rcases List.mem_cons.mp mem with rfl | old
    · exact Nat.lt_succ_self _
    · exact Nat.lt_succ_of_lt (h.used f old)
  printed f mem := by
    rcases List.mem_cons.mp mem with rfl | old
    · rfl
    · exact h.printed f old
  placed f mem g mem' same := by
    -- A place that is taken now is none of those that were in use.
    rcases List.mem_cons.mp mem with rfl | old <;> rcases List.mem_cons.mp mem' with rfl | old'
    · rfl
    · exact absurd same (Nat.ne_of_gt (h.used g old'))
    · exact absurd same (Nat.ne_of_lt (h.used f old))
    · exact h.placed f old g old' same

/-- Handing out and taking back leave no frozen name in use that was not in use. -/
theorem Sound.mono (h : pool.Sound) {held : List FrozenName} (sub : held ⊆ pool.held) :
    Sound { pool with held } where
  used f mem := h.used f (sub mem)
  printed f mem := h.printed f (sub mem)
  placed f mem g mem' := h.placed f (sub mem) g (sub mem')

theorem Sound.after (h : pool.Sound) (step : Step) : (pool.after step).Sound := by
  cases step with
  | freeze n => exact h.freeze n
  | share index =>
    rw [Pool.after]
    split
    · rename_i f found
      exact h.mono (List.cons_subset.mpr ⟨List.mem_of_getElem? found, List.Subset.refl _⟩)
    · exact h
  | replace index change =>
    rw [Pool.after]
    split
    · exact h.freeze _
    · exact h
  | release index => exact h.mono (List.eraseIdx_subset)

theorem sound_run (steps : List Step) : (run steps).Sound := by
  have kept : ∀ pool : Pool, pool.Sound → (steps.foldl Pool.after pool).Sound := by
    induction steps with
    | nil => exact fun _ h => h
    | cons step steps ih => exact fun pool h => ih _ (h.after step)
  exact kept empty ⟨by simp [empty], by simp [empty], by simp [empty]⟩

end Pool

/-- Neither looking at places nor looking at fingerprints first makes a difference. -/
theorem beq_iff {pool : Pool} (sound : pool.Sound) {f g : FrozenName} (mem : f ∈ pool.held)
    (mem' : g ∈ pool.held) : (f == g) = true ↔ (f.name == g.name) = true := by
  show (f.place == g.place || (f.fingerprint == g.fingerprint && f.name == g.name)) = true ↔ _
  rw [Bool.or_eq_true, Bool.and_eq_true, beq_iff_eq, beq_iff_eq]
  constructor
  · rintro (same | ⟨-, equal⟩)
    · rw [sound.placed f mem g mem' same]
      exact BEq.rfl
    · exact equal
  · intro equal
    -- Equal names have equal fingerprints, and so looking at these first does no harm.
    refine .inr ⟨?_, equal⟩
    rw [sound.printed f mem, sound.printed g mem', Name.fingerprint_eq_of_beq equal]

end FrozenName

namespace Name

/-! ## Ways to compare names

Comparing in small letters is in the middle, and every other way is brought to it. -/

variable {a b : Name}

theorem labelOctets_canonical (n : Name) : n.canonical.labelOctets = n.labelOctets.map lower :=
  (StoredName.contentsOf_lower n.labels n.absolute).symm

/-- Lists of equal length with the same octets in each pair, but for the case of letters. -/
theorem all_alike_iff_map {mine theirs : List Octets} (same : mine.length = theirs.length) :
    ((mine.zip theirs).all fun (l, r) => alike l r) = true ↔ mine.map lower = theirs.map lower := by
  have compared := @StoredName.all_alike_iff mine theirs
  constructor
  · intro all
    have front := compared.mp ⟨Nat.le_of_eq same.symm, all⟩
    exact (front.eq_of_length (by rw [List.length_map, List.length_map, same])).symm
  · intro equal
    exact (compared.mpr (equal ▸ List.prefix_refl _)).2

theorem beq_iff_labels : (a == b) = true ↔ a.absolute = b.absolute ∧ a.labelCount = b.labelCount ∧
    ((a.labelOctets.zip b.labelOctets).all fun (l, r) => alike l r) = true := by
  rw [beq_iff_canonical, eq_iff_labelOctets, labelOctets_canonical, labelOctets_canonical,
    ← length_labelOctets, ← length_labelOctets]
  refine and_congr_right fun _ => ?_
  constructor
  · intro equal
    have same : a.labelOctets.length = b.labelOctets.length := by
      simpa using congrArg List.length equal
    exact ⟨same, (all_alike_iff_map same).mpr equal⟩
  · rintro ⟨same, all⟩
    exact (all_alike_iff_map same).mp all

theorem eq_iff_wire : a = b ↔ a.wire = b.wire ∧ a.absolute = b.absolute := by
  rw [← StoredName.stored_inj, stored, stored, StoredName.mk.injEq]

theorem hashOctets_eq_iff :
    a.hashOctets = b.hashOctets ↔
      a.canonical.wire = b.canonical.wire ∧ a.canonical.absolute = b.canonical.absolute := by
  have flags : ((if a.absolute then 1 else 0 : UInt8) = if b.absolute then 1 else 0)
      ↔ a.absolute = b.absolute := by
    cases a.absolute <;> cases b.absolute <;> decide
  rw [hashOctets, hashOctets, List.cons.injEq, flags, wire_canonical, wire_canonical]
  exact and_comm

/-- All ways to compare names come to the same, whatever was frozen, shared or replaced before, and
small letters stand in the same labels as the letters that they replace. -/
theorem equalities_agree (a b : Name) :
    [(a == b) = true,
      (a.stored == b.stored) = true,
      a.absolute = b.absolute ∧ a.labelCount = b.labelCount ∧
        ((a.labelOctets.zip b.labelOctets).all fun (l, r) => alike l r) = true,
      a.canonical.wire = b.canonical.wire ∧ a.canonical.absolute = b.canonical.absolute,
      a.hashOctets = b.hashOctets].TFAE ∧
    ((a == b) = true → a.fingerprint = b.fingerprint) ∧
    (∀ steps, ∀ f ∈ (FrozenName.Pool.run steps).held, ∀ g ∈ (FrozenName.Pool.run steps).held,
      f.name = a → g.name = b → ((f == g) = true ↔ (a == b) = true)) ∧
    a.canonical.canonical = a.canonical ∧
    labels? a.canonical.stored.octets = some (a.labelOctets.map lower) ∧
    (a.labelOctets.map lower).map List.length = a.labelOctets.map List.length := by
  refine ⟨?same, fingerprint_eq_of_beq, ?frozen, canonical_canonical a, ?labels, ?lengths⟩
  case same =>
    tfae_have 1 ↔ 2 := by rw [StoredName.beq_stored]
    tfae_have 1 ↔ 3 := beq_iff_labels
    tfae_have 1 ↔ 4 := beq_iff_canonical.trans eq_iff_wire
    tfae_have 5 ↔ 4 := hashOctets_eq_iff
    tfae_finish
  case frozen =>
    rintro steps f mem g mem' rfl rfl
    exact FrozenName.beq_iff (FrozenName.Pool.sound_run steps) mem mem'
  case labels => rw [StoredName.labels?_stored, labelOctets_canonical]
  case lengths =>
    rw [List.map_map]
    exact List.map_congr_left fun l _ => length_lower l

/-- Two spellings of one name, frozen one after the other. -/
theorem equalities_agree_frozen :
    let n : Name := ⟨[⟨[65, 98], by decide, by decide⟩], true, by decide⟩
    let m : Name := ⟨[⟨[97, 66], by decide, by decide⟩], true, by decide⟩
    n.wire ≠ m.wire ∧ n.fingerprint = m.fingerprint ∧
      ∃ f ∈ (FrozenName.Pool.run [.freeze n, .freeze m]).held,
        ∃ g ∈ (FrozenName.Pool.run [.freeze n, .freeze m]).held,
          f.name = n ∧ g.name = m ∧ f.place ≠ g.place ∧ (f == g) = true := by
  intro n m
  obtain ⟨-, printed, frozen, -⟩ := equalities_agree n m
  have equal : (n == m) = true := by decide
  let f : FrozenName := ⟨0, n, n.fingerprint⟩
  let g : FrozenName := ⟨1, m, m.fingerprint⟩
  have held : (FrozenName.Pool.run [.freeze n, .freeze m]).held = [g, f] := rfl
  have mem : f ∈ (FrozenName.Pool.run [.freeze n, .freeze m]).held :=
    held ▸ List.mem_cons_of_mem _ (List.mem_singleton_self f)
  have mem' : g ∈ (FrozenName.Pool.run [.freeze n, .freeze m]).held :=
    held ▸ List.mem_cons_self
  exact ⟨by decide, printed equal, f, mem, g, mem', rfl, rfl, by decide,
    (frozen _ f mem g mem' rfl rfl).mpr equal⟩

end Name

end Dns
