import Dns.Proofs.Calls
import Dns.Proofs.Composers

/-!
# A call that fails changes nothing

A transaction that fails cuts the draft back by length alone. What makes this undo all that was
composed is an invariant of whole runs, `Draft.Bounded`: the names in the table stand in front of
the end of the draft. It holds of a new renderer, and every operation passes it on. The names that a
failed call left behind stand where the draft ended before or behind (`Draft.Grows`), at whatever
point it failed, and so cutting tells the two apart.

Only the section that a call entered before it failed stays entered. `Renderer.Restored` says all of
this, field by field, and `Operation.failed_restored` says it of every operation at the end of every
run.

What is needed of the operations for this is of use elsewhere, too, and is stated so that nobody
else unfolds a transaction:

* `Renderer.transaction_ok`, `Renderer.add_ok`, `Renderer.addOpt_ok` and `Renderer.addTsigRecord_ok`
  tell all that an operation does when it succeeds, the checks that it passed included;
* `Call.Effect` sorts the eleven calls into four kinds by what they do to the message, so that an
  invariant has four cases and not eleven;
* `Operation.run_keeps` is the induction on runs. A property is kept by a run if every success keeps
  it and if it does not depend on what a failure may change. All invariants of renderers in this
  library are instances of it.
-/

set_option autoImplicit false

namespace Dns

/-! ## What a renderer is like after a call that failed

Each operation has a lemma for its success (`_ok`) and one for its failure (`_error`). An error may
come from a check before anything is written, from the data, from the size limit or from the number
of entries; in the first case nothing has happened, in the others the draft is cut. `Restored` names
every component of the renderer, and the section is the only one that may have become another: the
later one that the call has asked for. -/

theorem Section.index_inj {a b : Section} (h : a.index = b.index) : a = b := by
  cases a <;> cases b <;> first | rfl | cases h

namespace Renderer

/-- The renderer after a failed call that asked for a section: everything is as it was, but for the
section, which may be the one that was asked for if that one comes later. -/
structure Restored (asked : Option Section) (before after : Renderer) : Prop where
  octets : after.octets = before.octets
  table : after.table.Same before.table
  counts : after.counts = before.counts
  maxSize : after.maxSize = before.maxSize
  reserved : after.reserved = before.reserved
  mac : after.mac = before.mac
  wasPadded : after.wasPadded = before.wasPadded
  id : after.id = before.id
  flags : after.flags = before.flags
  origin : after.origin = before.origin
  time : after.time = before.time
  part : after.part = before.part ∨
    asked = some after.part ∧ before.part.index < after.part.index

theorem Restored.refl (asked : Option Section) (r : Renderer) : Restored asked r r :=
  ⟨rfl, .refl _, rfl, rfl, rfl, rfl, rfl, rfl, rfl, rfl, rfl, .inl rfl⟩

variable {r r' : Renderer} {part : Section} {compose : Option Name → Composer Nat}
  {e : RenderError}

/-! ### Transactions -/

/-- All that a transaction does when it succeeds. -/
theorem transaction_ok (h : r.transaction part compose = (.ok (), r')) :
    ∃ entries draft, compose r.origin r.draft = .ok entries draft ∧ draft.size ≤ r.maxSize ∧
      (r.counts.get part).toNat + entries ≤ 65535 ∧
      r' = { r with
        draft
        counts := r.counts.set part (.ofNat ((r.counts.get part).toNat + entries)) } := by
  simp only [transaction] at h
  split at h
  · cases h
  · rename_i entries draft composed
    split at h
    · cases h
    · rename_i small
      split at h
      · cases h
      · rename_i few
        cases h
        exact ⟨entries, draft, composed, Nat.le_of_not_lt small, Nat.le_of_not_lt few, rfl⟩

/-- All that a transaction does when it fails, wherever that happens. -/
theorem transaction_error (built : Composer.Built (compose r.origin))
    (h : r.transaction part compose = (.error e, r')) :
    ∃ draft, r.draft.Grows draft ∧ r' = { r with draft := draft.truncate r.draft.size } := by
  simp only [transaction] at h
  split at h
  · rename_i draft failed
    cases h
    exact ⟨draft, built.confined.fails failed, rfl⟩
  · rename_i entries draft composed
    have grown := built.confined.grows composed
    split at h
    · cases h
      exact ⟨draft, grown, rfl⟩
    · split at h
      · cases h
        exact ⟨draft, grown, rfl⟩
      · cases h

/-- All that an addition does when it succeeds. -/
theorem add_ok (h : r.add part compose = (.ok (), r')) :
    r.part.index ≤ part.index ∧ ∃ entries draft,
      compose r.origin r.draft = .ok entries draft ∧ draft.size ≤ r.maxSize ∧
        (r.counts.get part).toNat + entries ≤ 65535 ∧
        r' = { r with
          draft
          part
          counts := r.counts.set part (.ofNat ((r.counts.get part).toNat + entries)) } := by
  simp only [add, enter] at h
  split at h
  · rename_i entered
    split at entered
    · cases h
    · cases entered
  · rename_i entered
    split at entered
    · cases entered
    · rename_i later
      cases entered
      exact ⟨Nat.le_of_not_lt later, transaction_ok h⟩

theorem add_error (bounded : r.draft.Bounded) (built : Composer.Built (compose r.origin))
    (h : r.add part compose = (.error e, r')) : Restored (some part) r r' := by
  simp only [add, enter] at h
  split at h
  · rename_i entered
    split at entered
    · cases entered
      cases h
      exact .refl _ _
    · cases entered
  · rename_i entered
    split at entered
    · cases entered
    · rename_i later
      cases entered
      -- The draft is cut back; the section that was entered stays.
      obtain ⟨draft, grown, rfl⟩ := transaction_error (r := { r with part := part }) built h
      obtain ⟨octets, table⟩ := grown.truncate bounded
      refine ⟨octets, table, rfl, rfl, rfl, rfl, rfl, rfl, rfl, rfl, rfl, ?_⟩
      rcases Nat.eq_or_lt_of_le (Nat.le_of_not_lt later) with same | less
      · exact .inl (Section.index_inj same).symm
      · exact .inr ⟨rfl, less⟩

theorem add_bounded (bounded : r.draft.Bounded) (built : Composer.Built (compose r.origin))
    (h : r.add part compose = (.ok (), r')) : r'.draft.Bounded := by
  obtain ⟨-, entries, draft, composed, -, -, rfl⟩ := add_ok h
  exact built.confined.bounded bounded composed

theorem Restored.size {asked : Option Section} (h : Restored asked r r') : r'.size = r.size :=
  congrArg Array.size h.octets

theorem Restored.bounded {asked : Option Section} (h : Restored asked r r')
    (bounded : r.draft.Bounded) : r'.draft.Bounded := by
  intro n p there
  have old := bounded n p (h.table.mem_iff.mp there)
  have size : r'.draft.size = r.draft.size := h.size
  omega

theorem addRdataset_error {owner : Name} {set : Rdataset} {form : RecordForm}
    (bounded : r.draft.Bounded) (h : r.addRdataset part owner set form = (.error e, r')) :
    Restored (some part) r r' :=
  add_error bounded (set.compose_built owner true r.origin form) h

theorem addRdataset_bounded {owner : Name} {set : Rdataset} {form : RecordForm}
    (bounded : r.draft.Bounded) (h : r.addRdataset part owner set form = (.ok (), r')) :
    r'.draft.Bounded :=
  add_bounded bounded (set.compose_built owner true r.origin form) h

theorem addOpt_error {o : OptRecord} {pad optSize tsigSize : Nat} (bounded : r.draft.Bounded)
    (h : r.addOpt o pad optSize tsigSize = (.error e, r')) :
    Restored (some .additional) r r' := by
  simp only [addOpt] at h
  split at h
  · exact addRdataset_error bounded h
  · split at h
    · cases h
      exact .refl _ _
    · split at h
      · cases h
        exact .refl _ _
      · split at h
        · rename_i added
          cases h
          exact addRdataset_error bounded added
        · cases h

/-- Adding options is adding their record, which may leave the mark that the message was padded. -/
theorem addOpt_ok {o : OptRecord} {pad optSize tsigSize : Nat}
    (h : r.addOpt o pad optSize tsigSize = (.ok (), r')) :
    ∃ r₁ wasPadded, r.addRrset .additional (Call.optOf o pad optSize tsigSize r).toRrset {}
      = (.ok (), r₁) ∧ r' = { r₁ with wasPadded } := by
  simp only [addOpt] at h
  split at h
  · rename_i none
    rw [Call.optOf, if_pos none]
    exact ⟨r', r'.wasPadded, h, rfl⟩
  · rename_i some
    split at h
    · cases h
    · split at h
      · cases h
      · split at h
        · cases h
        · rename_i r₁ added
          cases h
          rw [Call.optOf, if_neg some]
          exact ⟨r₁, true, added, rfl⟩

/-! ### Signing -/

theorem addTsigRecord_error {owner : Name} {t : Tsig} (bounded : r.draft.Bounded)
    (h : r.addTsigRecord owner t = (.error e, r')) : Restored (some .additional) r r' := by
  simp only [addTsigRecord] at h
  split at h
  · rename_i added
    cases h
    exact add_error bounded (composeTsig_built _ _ _ _) added
  · cases h

/-- A signature that succeeds: its record is added, and its number and the signature are set. -/
theorem addTsigRecord_ok {owner : Name} {t : Tsig} (h : r.addTsigRecord owner t = (.ok (), r')) :
    ∃ r₁, r.add .additional (composeTsig owner t !r.wasPadded) = (.ok (), r₁) ∧
      r' = { r₁ with
        draft := r₁.draft.overwrite HeaderSection.additionalCountOffset
          (Wire.uint16 r₁.counts.additional)
        mac := t.mac.octets } := by
  simp only [addTsigRecord] at h
  split at h
  · cases h
  · rename_i r₁ added
    cases h
    exact ⟨r₁, added, rfl⟩

theorem bounded_overwrite {d : Draft} (h : d.Bounded) (place : Nat) (o : Octets) :
    (d.overwrite place o).Bounded := fun n p there =>
  Nat.lt_of_lt_of_le (h n p there) (Nat.le_of_eq (size_overwrite o d.octets place).symm)

theorem addTsigRecord_bounded {owner : Name} {t : Tsig} (bounded : r.draft.Bounded)
    (h : r.addTsigRecord owner t = (.ok (), r')) : r'.draft.Bounded := by
  obtain ⟨r₁, added, rfl⟩ := addTsigRecord_ok h
  exact bounded_overwrite (add_bounded bounded (composeTsig_built _ _ _ _) added) _ _

variable {Context : Type} {s : Signer Context}

theorem addTsig_error {algorithm : Name} (bounded : r.draft.Bounded)
    (h : r.addTsig s algorithm = (.error e, r')) : Restored (some .additional) r r' := by
  simp only [addTsig] at h
  split at h
  · cases h
    exact .refl _ _
  · split at h
    · cases h
      exact .refl _ _
    · exact addTsigRecord_error bounded h

/-- What a signature that succeeds consists of. -/
theorem addTsig_ok {algorithm : Name} (h : r.addTsig s algorithm = (.ok (), r')) :
    ∃ draft t, s.draft algorithm = .ok draft ∧
      s.key.sign r.octets.toList draft r.time s.requestMac = .ok t ∧
      r.addTsigRecord s.owner t = (.ok (), r') := by
  simp only [addTsig] at h
  split at h
  · cases h
  · rename_i draft drafted
    split at h
    · cases h
    · rename_i t signed
      exact ⟨draft, t, drafted, signed, h⟩

theorem addNextTsig_error {c : Option Context} (bounded : r.draft.Bounded)
    (h : r.addNextTsig c s = (.error e, r')) : Restored (some .additional) r r' := by
  simp only [addNextTsig] at h
  split at h
  · cases h
    exact .refl _ _
  · split at h
    · cases h
      exact .refl _ _
    · split at h
      · rename_i failed
        cases h
        exact addTsigRecord_error bounded failed
      · cases h

/-- What a signature of a message of a stream consists of. -/
theorem addNextTsig_ok {c : Option Context} {next : Context}
    (h : r.addNextTsig c s = (.ok next, r')) :
    ∃ draft t, s.draft s.key.algorithmName = .ok draft ∧
      s.key.signNext r.octets.toList draft r.time s.requestMac c = .ok (t, next) ∧
      r.addTsigRecord s.owner t = (.ok (), r') := by
  simp only [addNextTsig] at h
  split at h
  · cases h
  · rename_i draft drafted
    split at h
    · cases h
    · rename_i t _ signed
      split at h
      · cases h
      · rename_i added
        cases h
        exact ⟨draft, t, drafted, signed, added⟩

end Renderer

/-! ## Operations

The cases of `Call` and `Operation` are gone through twice, once for what a failure leaves and once
for what a success does. Later modules go through the four kinds of `Call.Effect` only. What is
said about runs needs one lemma for these kinds and another one for failures, and the two are put
together by induction over the run. -/

open Renderer

variable {r r' : Renderer} {e : RenderError}

theorem Call.perform_error {c : Call} (bounded : r.draft.Bounded)
    (h : c.perform r = (.error e, r')) : Restored c.part? r r' := by
  cases c with
  | enter part =>
    simp only [Call.perform, Renderer.enter] at h
    split at h
    · cases h
      exact .refl _ _
    · cases h
  | addQuestion q =>
    exact add_error bounded (q.entry_built _) h
  | addRdataset part owner set form => exact addRdataset_error bounded h
  | addRrset part set form => exact addRdataset_error bounded h
  | addOpt o pad optSize tsigSize => exact addOpt_error bounded h
  | addEdns version flags payloadSize options =>
    simp only [Call.perform, Renderer.addEdns] at h
    exact addOpt_error bounded h
  | reserve room =>
    simp only [Call.perform, Renderer.reserve] at h
    split at h
    · cases h
      exact .refl _ _
    · cases h
  | releaseReserved | setFlags | setTime | writeHeader => cases h

/-- What a call does to the message if it succeeds: it adds a question or the records of a set, it
writes the header, or it leaves the message alone. -/
inductive Call.Effect (c : Call) (r r' : Renderer) : Prop
  | question (q : Question) (entries : c.entries r = [(.question, .question q)])
      (added : r.addQuestion q = (.ok (), r'))
  | records (part : Section) (owner : Name) (set : Rdataset) (form : RecordForm) (r₁ : Renderer)
      (wasPadded : Bool) (entries : c.entries r = recordsOf part owner set form)
      (added : r.addRdataset part owner set form = (.ok (), r₁)) (same : r' = { r₁ with wasPadded })
  | header (is : c = .writeHeader) (same : r' = r.writeHeader)
  | nothing (entries : c.entries r = []) (draft : r'.draft = r.draft)
      (counts : r'.counts = r.counts) (origin : r'.origin = r.origin)
      (later : r.part.index ≤ r'.part.index)

theorem Call.effect_of_ok {c : Call} (run : c.perform r = (.ok (), r')) : c.Effect r r' := by
  cases c with
  | enter part =>
    simp only [Call.perform, Renderer.enter] at run
    split at run
    · cases run
    · rename_i later
      cases run
      exact .nothing rfl rfl rfl rfl (Nat.le_of_not_lt later)
  | addQuestion q => exact .question q rfl run
  | addRdataset part owner set form =>
    exact .records part owner set form r' r'.wasPadded rfl run rfl
  | addRrset part set form =>
    exact .records part set.name set.rdataset form r' r'.wasPadded rfl run rfl
  -- An OPT record is a set of records whose renderer is then marked as padded or not.
  | addOpt o pad optSize tsigSize =>
    obtain ⟨r₁, wasPadded, added, same⟩ := addOpt_ok run
    exact .records _ _ _ _ r₁ wasPadded rfl added same
  | addEdns version flags payloadSize options =>
    simp only [Call.perform, Renderer.addEdns] at run
    obtain ⟨r₁, wasPadded, added, same⟩ := addOpt_ok run
    exact .records _ _ _ _ r₁ wasPadded rfl added same
  | reserve room =>
    simp only [Call.perform, Renderer.reserve] at run
    split at run
    · cases run
    · cases run
      exact .nothing rfl rfl rfl rfl (Nat.le_refl _)
  | releaseReserved | setFlags | setTime =>
    cases run
    exact .nothing rfl rfl rfl rfl (Nat.le_refl _)
  | writeHeader =>
    cases run
    exact .header rfl rfl

theorem Call.perform_bounded {c : Call} (bounded : r.draft.Bounded)
    (h : c.perform r = (.ok (), r')) : r'.draft.Bounded := by
  cases Call.effect_of_ok h with
  | question q _ added =>
    exact add_bounded bounded (q.entry_built _) added
  | records part owner set form r₁ wasPadded _ added same =>
    subst same
    have inside : r₁.draft.Bounded := addRdataset_bounded bounded added
    exact inside
  | header _ same =>
    subst same
    exact bounded_overwrite bounded _ _
  | nothing _ draft =>
    rw [draft]
    exact bounded

theorem Operation.perform_error {o : Operation} (bounded : r.draft.Bounded)
    (h : o.perform r = (.error e, r')) : Restored o.part? r r' := by
  cases o with
  | call c => exact c.perform_error bounded h
  | sign s algorithm => exact addTsig_error bounded h
  | signNext c s =>
    simp only [Operation.perform] at h
    split at h
    · cases h
    · rename_i failed
      cases h
      exact addNextTsig_error bounded failed

theorem Operation.signNext_ok {Context : Type} {c : Option Context} {s : Signer Context}
    (h : (Operation.signNext c s).perform r = (.ok (), r')) :
    ∃ next, r.addNextTsig c s = (.ok next, r') := by
  simp only [Operation.perform] at h
  split at h
  · rename_i next r₁ added
    cases h
    exact ⟨next, added⟩
  · cases h

/-- An operation that is no call signs: all that it does to the message is to add the record. -/
theorem Operation.signature_of_ok {o : Operation} (h : o.perform r = (.ok (), r'))
    (signs : ∀ c, o ≠ .call c) : ∃ owner t, r.addTsigRecord owner t = (.ok (), r') := by
  cases o with
  | call c => exact absurd rfl (signs c)
  | sign s algorithm =>
    obtain ⟨draft, t, -, -, added⟩ := addTsig_ok h
    exact ⟨s.owner, t, added⟩
  | signNext c s =>
    obtain ⟨next, h⟩ := signNext_ok h
    obtain ⟨draft, t, -, -, added⟩ := addNextTsig_ok h
    exact ⟨s.owner, t, added⟩

theorem Operation.perform_bounded {o : Operation} (bounded : r.draft.Bounded)
    (h : o.perform r = (.ok (), r')) : r'.draft.Bounded := by
  cases o with
  | call c => exact c.perform_bounded bounded h
  | sign | signNext =>
    obtain ⟨owner, t, added⟩ := signature_of_ok h fun _ is => by cases is
    exact addTsigRecord_bounded bounded added

/-- A run keeps what no success in it loses, if it does not depend on what a failure leaves open. -/
theorem Operation.run_keeps {P : Renderer → Prop} (operations : List Operation)
    (success : ∀ o ∈ operations, ∀ {r r' : Renderer}, r.draft.Bounded → P r →
      o.perform r = (.ok (), r') → P r')
    (failure : ∀ {asked : Option Section} {r r' : Renderer}, Restored asked r r' → P r → P r')
    (bounded : r.draft.Bounded) (h : P r) : P (Operation.run operations r) := by
  induction operations generalizing r with
  | nil => exact h
  | cons o rest ih =>
    -- By induction on the operations that are left, for any renderer. Boundedness goes along, since
    -- without it a failure is not undone.
    obtain ⟨succeeds, success⟩ := List.forall_mem_cons.mp success
    have step : Operation.run (o :: rest) r = Operation.run rest (o.perform r).2 := rfl
    rw [step]
    rcases result : o.perform r with ⟨outcome, r₁⟩
    cases outcome with
    | ok =>
      exact ih success (o.perform_bounded bounded result) (succeeds bounded h result)
    | error e =>
      -- The names are still where they were, and so is the end of the draft.
      have same := o.perform_error bounded result
      exact ih success (same.bounded bounded) (failure same h)

theorem Operation.run_bounded (operations : List Operation) (bounded : r.draft.Bounded) :
    (Operation.run operations r).draft.Bounded :=
  run_keeps (P := fun r => r.draft.Bounded) operations
    (fun o _ _ _ bounded _ result => o.perform_bounded bounded result)
    (fun same bounded => same.bounded bounded) bounded bounded

theorem Renderer.start_bounded (id flags : UInt16) (maxSize : Nat) (origin : Option Name)
    (time : Time48) : (start id flags maxSize origin time).draft.Bounded := fun n p there =>
  absurd (Draft.bounded_empty n p there) (Nat.not_lt_zero _)

/-- Whatever was done to a renderer before, an operation that fails leaves it as it was, but that
the section it asked for may have been entered. -/
theorem Operation.failed_restored (id flags : UInt16) (maxSize : Nat) (origin : Option Name)
    (time : Time48) (operations : List Operation) (o : Operation) {e : RenderError}
    {before after : Renderer}
    (reached : run operations (start id flags maxSize origin time) = before)
    (failed : o.perform before = (.error e, after)) : Restored o.part? before after := by
  subst reached
  exact o.perform_error (run_bounded operations (start_bounded id flags maxSize origin time)) failed

/-- Of two records, the second one is too much, but its section stays entered. -/
theorem Operation.too_big_restored :
    let record (part : Section) : Operation := .call (.addRdataset part Name.root
      (.ofRdata Class.internet 60 (.a ⟨[192, 0, 2, 1], rfl⟩)) { canonical := true })
    let before := run [record .answer] (start 1 0 30 none ⟨0⟩)
    ∃ after, (record .additional).perform before = (.error .tooBig, after) ∧
      before.size = 27 ∧ after.part = .additional ∧
      Restored (some .additional) before after := by
  intro record before
  have rendered : before = { start 1 0 30 none ⟨0⟩ with
      part := .answer
      counts := { answer := 1 }
      draft := ⟨#[0, 0, 0, 0, 0, 0, 0, 0, 0, 0, 0, 0,
        0, 0, 1, 0, 1, 0, 0, 0, 60, 0, 4, 192, 0, 2, 1], CompressionTable.empty⟩ } := by
    simp only [before, record, run, List.foldl, Operation.perform, Call.perform,
      Renderer.addRdataset, Renderer.add, Rdataset.compose_ofRdata]
    rfl
  have failed : (record .additional).perform before = (.error .tooBig,
      { before with
        part := .additional
        draft := (before.draft.put [0, 0, 1, 0, 1, 0, 0, 0, 60, 0, 4, 192, 0, 2, 1]).truncate 27 })
      := by
    rw [rendered]
    simp only [record, Operation.perform, Call.perform, Renderer.addRdataset, Renderer.add,
      Rdataset.compose_ofRdata]
    rfl
  refine ⟨_, failed, by rw [rendered]; rfl, rfl, ?_⟩
  exact failed_restored 1 0 30 none ⟨0⟩ [record .answer] (record .additional) rfl failed

end Dns
