import Dns.Proofs.Rollback
import Dns.Proofs.Room

/-!
# Sections that are entered, and sections that are closed

The section of a renderer only moves on, and to enter one closes all that come before it. It is the
one thing that a failure does not take back. What a call does to it hangs on how far the call came:
an OPT record whose stated size is too small, or a signature that cannot be made, is refused before
any section is asked for; a call that fails while it composes, or by what it has composed, has
entered its section and leaves it entered. `Operation.asked?` says which section a call comes to ask
for, and with that, every call is the same (`Operation.perform_enters`): the section afterwards is
the later one of the section before and the one asked for, whatever else happens, and the call is
refused as out of order exactly if it asks for one that is closed.

So a call that fails closes sections that were open (`Operation.failed_closes`): those before the
section that it asked for. They stay closed whatever is done next.
-/

set_option autoImplicit false

namespace Dns

/-! ## What a call asks for

`part?` is the section that belongs to a call, and `asked?` the one that it comes to ask for in a
given state. They differ where a call is refused beforehand. The checks are repeated here as they
stand in the code, in their order, because it is this order that decides what is closed. A call that
is refused beforehand asks for nothing and leaves the section alone. One that fails later has asked
for its section, and that is open from then on and those before it are closed. -/

/-- The section that a call comes to ask for: that of an OPT record only if its padding is one. -/
def Call.asked? (c : Call) (r : Renderer) : Option Section :=
  match c with
  | addOpt _ pad optSize tsigSize =>
    if pad = 0 then some .additional
    else if optSize < OptRecord.baseLength then none
    else if 65535 < Renderer.paddingLength pad (r.size + optSize + tsigSize) then none
    else some .additional
  | c => c.part?

/-- The section that an operation comes to ask for: a signature is made before its section is. -/
def Operation.asked? (o : Operation) (r : Renderer) : Option Section :=
  match o with
  | call c => c.asked? r
  | sign s algorithm =>
    match s.draft algorithm with
    | .error _ => none
    | .ok t =>
      match s.key.sign r.octets.toList t r.time s.requestMac with
      | .error _ => none
      | .ok _ => some .additional
  | signNext c s =>
    match s.draft s.key.algorithmName with
    | .error _ => none
    | .ok t =>
      match s.key.signNext r.octets.toList t r.time s.requestMac c with
      | .error _ => none
      | .ok _ => some .additional

/-- The section after one is asked for: that one, unless it is closed. -/
def Section.moved (part : Section) : Option Section → Section
  | some asked => if asked.index < part.index then part else asked
  | none => part

namespace Section

theorem le_moved (part : Section) (asked : Option Section) :
    part.index ≤ (part.moved asked).index := by
  cases asked with
  | none => exact Nat.le_refl _
  | some asked =>
    by_cases closed : asked.index < part.index
    · have stays : part.moved (some asked) = part := if_pos closed
      exact Nat.le_of_eq (congrArg index stays.symm)
    · have goes : part.moved (some asked) = asked := if_neg closed
      rw [goes]
      exact Nat.le_of_not_lt closed

theorem moved_of_le {part asked : Section} (later : part.index ≤ asked.index) :
    part.moved (some asked) = asked := if_neg (Nat.not_lt.mpr later)

end Section

namespace Renderer

/-- What a result has to do with the section that was asked for: it is the section now unless it was
closed, and the result is a refusal for the order of sections exactly if it was. -/
structure Enters {α : Type} (asked : Option Section) (r : Renderer) (result : Result α) :
    Prop where
  part_eq : result.2.part = r.part.moved asked
  refused_iff : result.1 = .error .formError ↔
    ∃ part, asked = some part ∧ part.index < r.part.index

variable {α : Type} {r r' : Renderer} {part : Section} {asked : Option Section}
  {compose : Option Name → Composer Nat}

/-- Nothing is asked for, and the section is as it was. -/
theorem Enters.of_unasked {result : Result α} (same : result.2.part = r.part)
    (other : result.1 ≠ .error .formError) : Enters none r result where
  part_eq := same
  refused_iff := by
    constructor
    · exact fun refused => absurd refused other
    · rintro ⟨part, asked, -⟩
      cases asked

/-- An error that is passed on. -/
theorem Enters.of_error {β : Type} {e : RenderError} (h : Enters asked r (α := α) (.error e, r')) :
    Enters asked r (α := β) (.error e, r') where
  part_eq := h.part_eq
  refused_iff := by
    rw [← h.refused_iff]
    simp only [Except.error.injEq]

/-- What is done after the section was entered, and leaves it as it is. -/
theorem Enters.of_ok {β : Type} {a : α} {result : Result β} (h : Enters asked r (.ok a, r'))
    (same : result.2.part = r'.part) (other : result.1 ≠ .error .formError) :
    Enters asked r result where
  part_eq := same.trans h.part_eq
  refused_iff := by
    rw [← h.refused_iff]
    exact iff_of_false other (by simp only [reduceCtorEq, not_false_eq_true])

/-! ## Entering

`Renderer.Enters` is a statement about a result of any kind, success or error. It is passed on
through the layers of the code by two rules, one for an error that is handed up (`Enters.of_error`)
and one for what is done after a success (`Enters.of_ok`). With these, the proof for an operation
has as many steps as the code has layers, and what an operation does besides entering plays no part
in them. -/

theorem enter_enters (part : Section) (r : Renderer) : Enters (some part) r (r.enter part) := by
  unfold enter
  by_cases closed : part.index < r.part.index
  · rw [if_pos closed]
    exact ⟨(if_pos closed).symm, ⟨fun _ => ⟨part, rfl, closed⟩, fun _ => rfl⟩⟩
  · rw [if_neg closed]
    refine ⟨(if_neg closed).symm, iff_of_false (fun refused => by cases refused) ?_⟩
    rintro ⟨other, asked, before⟩
    cases asked
    exact absurd before closed

/-- A transaction leaves the section alone, and nothing in it is out of order. -/
theorem transaction_part (part : Section) (compose : Option Name → Composer Nat) (r : Renderer) :
    (r.transaction part compose).2.part = r.part ∧
      (r.transaction part compose).1 ≠ .error .formError := by
  simp only [transaction]
  split
  · exact ⟨rfl, fun refused => by cases refused⟩
  · split
    · exact ⟨rfl, fun refused => by cases refused⟩
    · split
      · exact ⟨rfl, fun refused => by cases refused⟩
      · exact ⟨rfl, fun refused => by cases refused⟩

theorem add_enters (part : Section) (compose : Option Name → Composer Nat) (r : Renderer) :
    Enters (some part) r (r.add part compose) := by
  have entering := enter_enters part r
  unfold add
  rcases result : r.enter part with ⟨outcome, r₁⟩
  rw [result] at entering
  cases outcome with
  | error e =>
    exact entering.of_error
  | ok _ =>
    obtain ⟨same, other⟩ := transaction_part part compose r₁
    exact entering.of_ok same other

theorem addRrset_enters (part : Section) (set : Rrset) (form : RecordForm) (r : Renderer) :
    Enters (some part) r (r.addRrset part set form) :=
  add_enters part _ r

theorem addOpt_enters (o : OptRecord) (pad optSize tsigSize : Nat) (r : Renderer) :
    Enters ((Call.addOpt o pad optSize tsigSize).asked? r) r
      (r.addOpt o pad optSize tsigSize) := by
  simp only [addOpt, Call.asked?]
  split
  · exact addRrset_enters _ _ _ r
  · split
    · exact .of_unasked rfl fun refused => by cases refused
    · split
      · exact .of_unasked rfl fun refused => by cases refused
      · have entering := addRrset_enters .additional (o.withOption (.padding
          (.ofNat (paddingLength pad (r.size + optSize + tsigSize))))).toRrset {} r
        split
        · rename_i e r₁ failed
          rw [failed] at entering
          exact entering
        · rename_i r₁ added
          rw [added] at entering
          exact entering.of_ok rfl fun refused => by cases refused

/-! ## Signing -/

theorem addTsigRecord_enters (owner : Name) (t : Tsig) (r : Renderer) :
    Enters (some .additional) r (r.addTsigRecord owner t) := by
  have entering := add_enters .additional (composeTsig owner t !r.wasPadded) r
  simp only [addTsigRecord]
  split
  · rename_i e r₁ failed
    rw [failed] at entering
    exact entering
  · rename_i r₁ added
    rw [added] at entering
    exact entering.of_ok rfl fun refused => by cases refused

theorem signingError_ne_formError (e : SigningError) : signingError e ≠ .formError := by
  cases e with
  | compose e => exact fun same => by cases same
  | shortHash => exact fun same => by cases same

variable {Context : Type}

theorem addTsig_enters (s : Signer Context) (algorithm : Name) (r : Renderer) :
    Enters ((Operation.sign s algorithm).asked? r) r (r.addTsig s algorithm) := by
  simp only [addTsig, Operation.asked?]
  cases s.draft algorithm with
  | error e => exact .of_unasked rfl fun refused => by cases refused
  | ok t =>
    dsimp only
    cases s.key.sign r.octets.toList t r.time s.requestMac with
    | error e =>
      exact .of_unasked rfl fun refused => signingError_ne_formError e (Except.error.inj refused)
    | ok t => exact addTsigRecord_enters s.owner t r

theorem addNextTsig_enters (c : Option Context) (s : Signer Context) (r : Renderer) :
    Enters ((Operation.signNext c s).asked? r) r (r.addNextTsig c s) := by
  simp only [addNextTsig, Operation.asked?]
  cases s.draft s.key.algorithmName with
  | error e => exact .of_unasked rfl fun refused => by cases refused
  | ok t =>
    dsimp only
    cases s.key.signNext r.octets.toList t r.time s.requestMac c with
    | error e =>
      exact .of_unasked rfl fun refused => signingError_ne_formError e (Except.error.inj refused)
    | ok made =>
      have entering := addTsigRecord_enters s.owner made.1 r
      rcases result : r.addTsigRecord s.owner made.1 with ⟨outcome, r₁⟩
      rw [result] at entering
      cases outcome with
      | error e =>
        dsimp only
        rw [result]
        exact entering.of_error
      | ok _ =>
        dsimp only
        rw [result]
        exact entering.of_ok rfl fun refused => by cases refused

end Renderer

/-! ## Every call

Behind all this there is one theorem on runs, that the section never moves back, and one on a single
call, `perform_enters`. The rest is order on four sections. What is closed stays closed
(`closed_for_good`), and which sections are open is seen from what additions come to
(`open_from_iff`), so that no field of the renderer need be named. -/

open Renderer

variable {r r' : Renderer} {e : RenderError}

theorem Call.perform_enters (c : Call) (r : Renderer) : Enters (c.asked? r) r (c.perform r) := by
  cases c with
  | enter part => exact enter_enters part r
  | addQuestion q => exact add_enters .question _ r
  | addRdataset part owner set form => exact add_enters part _ r
  | addRrset part set form => exact addRrset_enters part set form r
  | addOpt o pad optSize tsigSize => exact addOpt_enters o pad optSize tsigSize r
  | addEdns version flags payloadSize options =>
    have plain : (addOpt (.forVersion version flags payloadSize options) 0 0 0).asked? r
        = some .additional := by
      rw [asked?]
      exact if_pos rfl
    have entering := addOpt_enters (.forVersion version flags payloadSize options) 0 0 0 r
    rw [plain] at entering
    exact entering
  | reserve room =>
    simp only [perform, Renderer.reserve]
    split
    · exact .of_unasked rfl fun refused => by cases refused
    · exact .of_unasked rfl fun refused => by cases refused
  | releaseReserved | setFlags | setTime =>
    exact .of_unasked rfl fun refused => by cases refused
  | writeHeader =>
    refine .of_unasked ?_ fun refused => by cases refused
    simp only [perform, Renderer.writeHeader]

namespace Operation

theorem perform_enters (o : Operation) (r : Renderer) : Enters (o.asked? r) r (o.perform r) := by
  cases o with
  | call c => exact c.perform_enters r
  | sign s algorithm => exact addTsig_enters s algorithm r
  | signNext c s =>
    have entering := addNextTsig_enters c s r
    simp only [perform]
    split
    · rename_i next r₁ added
      rw [added] at entering
      exact entering.of_ok rfl fun refused => by cases refused
    · rename_i e r₁ failed
      rw [failed] at entering
      exact entering.of_error

/-- A section that is left stays closed. -/
theorem run_part_le (operations : List Operation) (r : Renderer) :
    r.part.index ≤ (run operations r).part.index := by
  induction operations generalizing r with
  | nil => exact Nat.le_refl _
  | cons o rest ih =>
    have first := r.part.le_moved (o.asked? r)
    rw [← (o.perform_enters r).part_eq] at first
    exact Nat.le_trans first (ih (o.perform r).2)

/-- Only size, octets and time decide how far a call comes. -/
theorem asked?_congr (o : Operation) (octets : r'.octets = r.octets) (time : r'.time = r.time) :
    o.asked? r' = o.asked? r := by
  have size : r'.size = r.size := congrArg Array.size octets
  cases o with
  | call c =>
    cases c with
    | addOpt o pad optSize tsigSize => simp only [asked?, Call.asked?, size]
    | _ => rfl
  | sign s algorithm => simp only [asked?, octets, time]
  | signNext c s => simp only [asked?, octets, time]

/-- What asks for a section before the last one comes to ask for it. -/
theorem asked?_of_part? {o : Operation} {part : Section} (asks : o.part? = some part)
    (before : part ≠ .additional) (r : Renderer) : o.asked? r = some part := by
  cases o with
  | call c =>
    cases c with
    | addOpt o pad optSize tsigSize =>
      cases asks
      exact absurd rfl before
    | _ => exact asks
  | sign | signNext =>
    cases asks
    exact absurd rfl before

/-- No call comes to ask for another section than its own. -/
theorem asked?_eq_some {o : Operation} {part : Section} (asked : o.asked? r = some part) :
    o.part? = some part := by
  cases o with
  | call c =>
    cases c with
    | addOpt o pad optSize tsigSize =>
      simp only [asked?, Call.asked?] at asked
      split at asked
      · exact asked
      · split at asked
        · cases asked
        · split at asked
          · cases asked
          · exact asked
    | _ => exact asked
  | sign | signNext =>
    simp only [asked?] at asked
    split at asked
    · cases asked
    · split at asked
      · cases asked
      · exact asked

/-- What asks for a section that is closed is refused, whatever is done before. -/
theorem closed_for_good {next : Operation} {part : Section} (asks : next.part? = some part)
    (closed : part.index < r.part.index) (more : List Operation) :
    (next.perform (run more r)).1 = .error .formError := by
  have still : part.index < (run more r).part.index :=
    Nat.lt_of_lt_of_le closed (run_part_le more r)
  have before : part ≠ .additional := by
    rintro rfl
    have last : r.part.index ≤ Section.additional.index := by
      cases r.part <;> decide
    exact absurd closed (Nat.not_lt.mpr last)
  exact (next.perform_enters (run more r)).refused_iff.mpr
    ⟨part, asked?_of_part? asks before _, still⟩

/-- Everything from a section on is open exactly if no later section has been begun. The records of
an empty set are an addition to any section, which shows that it is closed if it is. -/
theorem open_from_iff (r : Renderer) (first : Section) :
    (∀ (next : Operation) (part : Section), next.part? = some part → first.index ≤ part.index →
      (next.perform r).1 ≠ .error .formError) ↔ r.part.index ≤ first.index := by
  constructor
  · intro isOpen
    -- A call is needed that fails for its section only. An empty set fits anywhere.
    let nothing : Rdataset := { rtype := Rtype.a, setClass := Class.internet }
    let next : Operation := .call (.addRdataset first Name.root nothing {})
    have fine := isOpen next first rfl (Nat.le_refl _)
    rw [Ne, (next.perform_enters r).refused_iff] at fine
    by_contra later
    exact fine ⟨first, rfl, Nat.lt_of_not_le later⟩
  · intro begun next part asks behind refused
    obtain ⟨part', asked, closed⟩ := (next.perform_enters r).refused_iff.mp refused
    have one : part' = part := Option.some.inj ((asked?_eq_some asked).symm.trans asks)
    rw [one] at closed
    omega

/-- What fails in order has come to the section that it came to ask for. -/
theorem part_of_failed {o : Operation} (failed : o.perform r = (.error e, r'))
    (inOrder : e ≠ .formError) : r'.part = (o.asked? r).getD r.part := by
  have entering := o.perform_enters r
  rw [failed] at entering
  have moved : r'.part = r.part.moved (o.asked? r) := entering.part_eq
  cases asked : o.asked? r with
  | none => rw [moved, asked]; rfl
  | some part =>
    have later : ¬ part.index < r.part.index := by
      intro closed
      have order := entering.refused_iff.mpr ⟨part, asked, closed⟩
      exact inOrder (Except.error.inj order)
    rw [moved, asked, Section.moved_of_le (Nat.le_of_not_lt later)]
    rfl

/-- Whatever was done to a renderer before, and however an operation then fails, unless it was out
of order: the section is the one that it came to ask for, if it came so far. A call is out of order
from then on exactly if it asks for a section before that one, for good. So what was open is still
open exactly if the failure has left the section as it was. -/
theorem failed_closes (id flags : UInt16) (maxSize : Nat) (origin : Option Name) (time : Time48)
    (operations : List Operation) (o : Operation) {e : RenderError} {before after : Renderer}
    (reached : run operations (start id flags maxSize origin time) = before)
    (failed : o.perform before = (.error e, after)) (inOrder : e ≠ .formError) :
    after.part = (o.asked? before).getD before.part ∧
    (∀ next : Operation, (next.perform after).1 = .error .formError ↔
      ∃ part, next.asked? before = some part ∧ part.index < after.part.index) ∧
    (∀ (more : List Operation) (next : Operation) (part : Section), next.part? = some part →
      part.index < after.part.index →
      (next.perform (run more after)).1 = .error .formError) ∧
    ((∀ (next : Operation) (part : Section), next.part? = some part →
      before.part.index ≤ part.index → (next.perform after).1 ≠ .error .formError) ↔
        after.part = before.part) := by
  have restored : Restored o.part? before after := by
    rw [← reached] at failed ⊢
    exact o.perform_error (run_bounded operations (start_bounded id flags maxSize origin time))
      failed
  -- One call is a run of one call.
  have later : before.part.index ≤ after.part.index := by
    have once := run_part_le [o] before
    rw [run, List.foldl_cons, failed] at once
    exact once
  refine ⟨part_of_failed failed inOrder, ?_, ?_, ?_⟩
  · intro next
    -- What a call asks for depends on the octets and the time, which are those from before the
    -- failure.
    rw [← next.asked?_congr restored.octets restored.time]
    exact (next.perform_enters after).refused_iff
  · intro more next part asks closed
    exact closed_for_good asks closed more
  · rw [open_from_iff]
    constructor
    · intro notLater
      exact Section.index_inj (Nat.le_antisymm notLater later)
    · intro same
      exact Nat.le_of_eq (congrArg Section.index same)

/-- Of two records, the second one is too much. It closes the section between them for good. -/
theorem too_big_closes_authority :
    let record (part : Section) : Operation := .call (.addRdataset part Name.root
      (.ofRdata Class.internet 60 (.a ⟨[192, 0, 2, 1], rfl⟩)) { canonical := true })
    let before := run [record .answer] (start 1 0 30 none ⟨0⟩)
    ∃ after, (record .additional).perform before = (.error .tooBig, after) ∧
      before.part = .answer ∧ after.part = .additional ∧
      ∀ more, ((record .authority).perform (run more after)).1 = .error .formError := by
  intro record before
  have rendered : before = { start 1 0 30 none ⟨0⟩ with
      part := .answer
      counts := { answer := 1 }
      draft := ⟨#[0, 0, 0, 0, 0, 0, 0, 0, 0, 0, 0, 0,
        0, 0, 1, 0, 1, 0, 0, 0, 60, 0, 4, 192, 0, 2, 1], CompressionTable.empty⟩ } := by
    simp only [before, record, run, List.foldl, Operation.perform, Call.perform,
      Renderer.addRdataset, Renderer.add, Rdataset.compose_ofRdata]
    rfl
  have failed : (record .additional).perform before = (.error .tooBig,
      { before with
        part := .additional
        draft := (before.draft.put [0, 0, 1, 0, 1, 0, 0, 0, 60, 0, 4, 192, 0, 2, 1]).truncate 27 })
      := by
    rw [rendered]
    simp only [record, Operation.perform, Call.perform, Renderer.addRdataset, Renderer.add,
      Rdataset.compose_ofRdata]
    rfl
  obtain ⟨part, -, closed, -⟩ := failed_closes 1 0 30 none ⟨0⟩ [record .answer]
    (record .additional) rfl failed (by decide)
  refine ⟨_, failed, by rw [rendered], part, fun more => ?_⟩
  exact closed more (record .authority) .authority rfl (by rw [part]; decide)

/-- A record that is too much for the answer section closes the question section, which was open:
a question that would have been added is refused after it. -/
theorem too_big_closes_question :
    let record : Operation := .call (.addRdataset .answer Name.root
      (.ofRdata Class.internet 60 (.a ⟨[192, 0, 2, 1], rfl⟩)) { canonical := true })
    let question : Operation := .call (.addQuestion ⟨Name.root, Rtype.a, Class.internet⟩)
    let before := start 1 0 20 none ⟨0⟩
    ∃ added after, question.perform before = (.ok (), added) ∧
      record.perform before = (.error .tooBig, after) ∧
      before.part = .question ∧ after.part = .answer ∧
      question.perform after = (.error .formError, after) := by
  intro record question before
  have rendered : before = { start 1 0 20 none ⟨0⟩ with
      draft := ⟨#[0, 0, 0, 0, 0, 0, 0, 0, 0, 0, 0, 0], CompressionTable.empty⟩ } := rfl
  have failed : record.perform before = (.error .tooBig,
      { before with
        part := .answer
        draft := (before.draft.put [0, 0, 1, 0, 1, 0, 0, 0, 60, 0, 4, 192, 0, 2, 1]).truncate 12 })
      := by
    rw [rendered]
    simp only [record, Operation.perform, Call.perform, Renderer.addRdataset, Renderer.add,
      Rdataset.compose_ofRdata]
    rfl
  let compose (origin : Option Name) : Composer Nat := do
    (⟨Name.root, Rtype.a, Class.internet⟩ : Question).compose true origin
    return 1
  have composed : compose before.origin before.draft
      = .ok 1 (before.draft.put [0, 0, 1, 0, 1]) := by
    have name := Name.compose_root (d := before.draft) (Draft.rootless_of_empty _) true false none
    simp only [compose, Question.compose, bind, EStateM.bind, before, start] at name ⊢
    rw [name]
    rfl
  have added : before.add .question compose = (.ok (), _) :=
    add_of_composed (Nat.le_refl _) composed (by rw [rendered]; decide) (by decide)
  exact ⟨_, _, added, failed, rfl, rfl, rfl⟩

end Operation

end Dns
