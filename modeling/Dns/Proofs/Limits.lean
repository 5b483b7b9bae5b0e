import Dns.Proofs.Messages
import Dns.Proofs.Room

/-!
# Sizes and counts stay within their limits

Room that is held back is not lost: the present maximum size and the reserved room always add up to
the maximum size that the renderer began with (`Limits.room`). This is what makes the size of the
message a matter of that one number. An addition that succeeds leaves a message that is no larger
than the maximum size of the moment, and so no larger than the one in the beginning; after that, a
reservation may bring the maximum size below the size of the message, but nothing grows by it.

That the size is at most the *present* maximum is therefore not an invariant, and it would be a
mistake to look for it: it holds behind an addition and may be lost by the next reservation. What
holds at all times is the bound by the sum. The one exception is a renderer that was given less room
than a header takes. It has its header nevertheless, and so the bound is the larger of the two.

The numbers of entries are 16 bits wide, and they are compared with lists, which have no limit: an
addition is refused before a number would wrap around.

Operations fall into two groups. Additions change the octets and are all transactions in the end, so
that one lemma speaks for them (`Renderer.add_extends`). All others leave the size of the message
alone, even `writeHeader`, which only writes over octets.
-/

set_option autoImplicit false

namespace Dns

/-! ## What is added, and where -/

/-- Whether a call adds entries to the message. -/
def Call.isAddition : Call → Bool
  | addQuestion .. | addRdataset .. | addRrset .. | addOpt .. | addEdns .. => true
  | enter .. | reserve .. | releaseReserved | setFlags .. | setTime .. | writeHeader => false

namespace Operation

/-- Whether an operation adds entries to the message, a signature included. -/
def isAddition : Operation → Bool
  | call c => c.isAddition
  | sign .. | signNext .. => true

/-- The sections of the entries that an operation adds if it succeeds. -/
def parts (o : Operation) (r : Renderer) : List Section :=
  match o with
  | call c => (c.entries r).map Prod.fst
  | sign .. | signNext .. => [.additional]

/-- The sections of the entries that some operations add, which are those of the operations that
succeed. -/
def written : (operations : List Operation) → Renderer → List Section
  | [], _ => []
  | o :: rest, r =>
    match o.perform r with
    | (.ok _, r') => o.parts r ++ written rest r'
    | (.error _, r') => written rest r'

end Operation

/-! ## One addition

`Renderer.Accounts` is the bookkeeping that every operation keeps to, and `Renderer.Extends` adds to
it what only an addition can promise, that there was room. The three checks of an addition are made
in a fixed order: data that cannot be composed, then the size, then the number. Each of the three
bounds follows from the check that was passed. -/

namespace Renderer

variable {r r' : Renderer} {part : Section} {compose : Option Name → Composer Nat}

/-- An operation loses no room, and counts entries of these sections. -/
structure Accounts (r r' : Renderer) (parts : List Section) : Prop where
  room : r'.maxSize + r'.reserved = r.maxSize + r.reserved
  counts : ∀ part, (r'.counts.get part).toNat = (r.counts.get part).toNat + parts.count part

/-- Entries of these sections are added, and there is room for them. -/
structure Extends (r r' : Renderer) (parts : List Section) : Prop
    extends Accounts r r' parts where
  fits : r'.size ≤ r'.maxSize

/-- The number that a composer gives is added to the count of the section. -/
theorem add_extends (count : Nat) (told : ∀ {d d' n}, compose r.origin d = .ok n d' → n = count)
    (run : r.add part compose = (.ok (), r')) :
    r.Extends r' (List.replicate count part) := by
  obtain ⟨-, n, draft, composed, fits, few, rfl⟩ := add_ok run
  obtain rfl := told composed
  refine ⟨⟨rfl, fun other => ?_⟩, fits⟩
  show ((r.counts.set part _).get other).toNat = _
  rw [get_set]
  split
  · rename_i same
    subst same
    -- The transaction has made sure that the sum can be counted.
    rw [UInt16.toNat_ofNat', List.count_replicate_self]
    exact Nat.mod_eq_of_lt (Nat.lt_succ_of_le few)
  · rename_i differs
    have none : (List.replicate n part).count other = 0 :=
      List.count_eq_zero.mpr fun mem => differs (List.eq_of_mem_replicate mem)
    rw [none, Nat.add_zero]

theorem addQuestion_extends {q : Question} (run : r.addQuestion q = (.ok (), r')) :
    r.Extends r' [.question] := by
  refine add_extends 1 ?_ run
  intro d d' n composed
  obtain ⟨_, d₁, -, last⟩ := Composer.bind_ok composed
  cases last
  rfl

theorem parts_recordsOf (part : Section) (owner : Name) (set : Rdataset) (form : RecordForm) :
    (Call.recordsOf part owner set form).map Prod.fst
      = List.replicate set.rdatas.size part := by
  rw [Call.recordsOf, List.map_map, Rdataset.records, List.map_map]
  exact List.map_const' ..

theorem addRdataset_extends {owner : Name} {set : Rdataset} {form : RecordForm}
    (run : r.addRdataset part owner set form = (.ok (), r')) :
    r.Extends r' ((Call.recordsOf part owner set form).map Prod.fst) := by
  rw [parts_recordsOf]
  refine add_extends set.rdatas.size ?_ run
  intro d d' n composed
  obtain ⟨_, d₁, -, last⟩ := Composer.bind_ok composed
  cases last
  rfl

theorem addOpt_extends {o : OptRecord} {pad optSize tsigSize : Nat}
    (run : r.addOpt o pad optSize tsigSize = (.ok (), r')) :
    r.Extends r' (((Call.addOpt o pad optSize tsigSize).entries r).map Prod.fst) := by
  obtain ⟨r₁, wasPadded, added, rfl⟩ := addOpt_ok run
  obtain ⟨⟨room, counts⟩, fits⟩ := addRdataset_extends added
  exact ⟨⟨room, counts⟩, fits⟩

theorem addTsigRecord_extends {owner : Name} {t : Tsig}
    (run : r.addTsigRecord owner t = (.ok (), r')) : r.Extends r' [.additional] := by
  obtain ⟨r₁, added, rfl⟩ := addTsigRecord_ok run
  have one : r.Extends r₁ [.additional] := by
    refine add_extends 1 ?_ added
    intro d d' n composed
    rw [composeTsig_eq] at composed
    obtain ⟨_, d₁, -, last⟩ := Composer.bind_ok composed
    cases last
    rfl
  refine ⟨⟨one.room, one.counts⟩, ?_⟩
  -- Counting the record in the header writes over octets that are there.
  exact Nat.le_trans (Nat.le_of_eq (size_overwrite _ r₁.draft.octets _)) one.fits

end Renderer

/-! ## Operations

The sections of the entries are written down in the order of the run (`Operation.written`), although
only their numbers matter here. So the list can be compared with a count without any arithmetic of
16 bits. The bound on the number of entries comes from the types, for a count is a word of sixteen
bits; that it is the number of entries that were really added is what `Accounts` is for. -/

open Renderer

variable {r r' : Renderer}

theorem Call.perform_extends {c : Call} (addition : c.isAddition = true)
    (run : c.perform r = (.ok (), r')) : r.Extends r' ((c.entries r).map Prod.fst) := by
  cases c with
  | addQuestion q => exact addQuestion_extends run
  | addRdataset part owner set form => exact addRdataset_extends run
  | addRrset part set form => exact addRdataset_extends run
  | addOpt o pad optSize tsigSize => exact addOpt_extends run
  | addEdns version flags payloadSize options =>
    have added : r.addOpt (.forVersion version flags payloadSize options) 0 0 0
        = (.ok (), r') := run
    exact addOpt_extends added
  | enter | reserve | releaseReserved | setFlags | setTime | writeHeader => cases addition

/-- What is no addition leaves the size of the message alone. -/
theorem Call.perform_accounts {c : Call} (other : c.isAddition = false)
    (run : c.perform r = (.ok (), r')) :
    r.Accounts r' ((c.entries r).map Prod.fst) ∧ r'.size = r.size := by
  cases c with
  | addQuestion | addRdataset | addRrset | addOpt | addEdns => cases other
  | enter part =>
    simp only [Call.perform, Renderer.enter] at run
    split at run
    · cases run
    · cases run
      exact ⟨⟨rfl, fun _ => rfl⟩, rfl⟩
  | reserve room =>
    simp only [Call.perform, Renderer.reserve] at run
    split at run
    · cases run
    · rename_i enough
      cases run
      -- What is taken from the maximum is added to the reservation; without the check there could
      -- be less to take.
      refine ⟨⟨?_, fun _ => rfl⟩, rfl⟩
      show r.maxSize - room + (r.reserved + room) = r.maxSize + r.reserved
      omega
  | releaseReserved =>
    cases run
    exact ⟨⟨rfl, fun _ => rfl⟩, rfl⟩
  | setFlags | setTime =>
    cases run
    exact ⟨⟨rfl, fun _ => rfl⟩, rfl⟩
  | writeHeader =>
    cases run
    have size : r.writeHeader.octets.size = r.octets.size := by
      rw [octets_writeHeader, size_overwrite]
    rw [Renderer.writeHeader] at size ⊢
    exact ⟨⟨rfl, fun _ => rfl⟩, size⟩

namespace Operation

theorem perform_extends {o : Operation} (addition : o.isAddition = true)
    (run : o.perform r = (.ok (), r')) : r.Extends r' (o.parts r) := by
  cases o with
  | call c => exact c.perform_extends addition run
  | sign | signNext =>
    obtain ⟨owner, t, added⟩ := signature_of_ok run fun _ is => by cases is
    exact addTsigRecord_extends added

/-- The room that there is and the room that is held back are all the room there ever was, the
message keeps within it, and the entries of these sections have been counted. -/
structure Limits (total : Nat) (parts : List Section) (r : Renderer) : Prop where
  room : r.maxSize + r.reserved = total
  size : r.size ≤ max HeaderSection.length total
  counts : ∀ part, (r.counts.get part).toNat = parts.count part

theorem start_size (id flags : UInt16) (total : Nat) (origin : Option Name) (time : Time48) :
    (start id flags total origin time).size = HeaderSection.length := by
  simp [start, Renderer.size, Draft.size]

theorem start_limits (id flags : UInt16) (total : Nat) (origin : Option Name) (time : Time48) :
    Limits total [] (start id flags total origin time) where
  room := rfl
  size := by
    rw [start_size]
    exact Nat.le_max_left _ _
  counts part := by cases part <;> rfl

variable {total : Nat} {parts : List Section}

theorem Limits.extends {more : List Section} (h : Limits total parts r)
    (step : r.Extends r' more) : Limits total (parts ++ more) r' where
  room := step.room.trans h.room
  size := by
    -- The message fits into the present maximum, which is at most the sum.
    have room := step.room.trans h.room
    have fits := step.fits
    omega
  counts part := by rw [step.counts, h.counts, List.count_append]

theorem Limits.accounts {more : List Section} (h : Limits total parts r)
    (step : r.Accounts r' more) (size : r'.size = r.size) : Limits total (parts ++ more) r' where
  room := step.room.trans h.room
  size := size ▸ h.size
  counts part := by rw [step.counts, h.counts, List.count_append]

theorem Limits.restored {asked : Option Section} (h : Limits total parts r)
    (same : Restored asked r r') : Limits total parts r' where
  room := by rw [same.maxSize, same.reserved, h.room]
  size := same.size ▸ h.size
  counts part := by rw [same.counts, h.counts]

theorem perform_limits {o : Operation} (h : Limits total parts r)
    (run : o.perform r = (.ok (), r')) : Limits total (parts ++ o.parts r) r' := by
  cases addition : o.isAddition with
  | true => exact h.extends (perform_extends addition run)
  | false =>
    cases o with
    | call c =>
      obtain ⟨step, size⟩ := c.perform_accounts addition run
      exact h.accounts step size
    | sign | signNext => cases addition

/-- A run keeps within the limits, whatever succeeds in it and whatever fails. -/
theorem run_limits (operations : List Operation) (h : Limits total parts r)
    (bounded : r.draft.Bounded) :
    Limits total (parts ++ written operations r) (run operations r) := by
  induction operations generalizing r parts with
  | nil => simpa [written, run] using h
  | cons o rest ih =>
    have step : run (o :: rest) r = run rest (o.perform r).2 := rfl
    rw [step, written]
    rcases result : o.perform r with ⟨outcome, r₁⟩
    cases outcome with
    | ok =>
      have kept := ih (perform_limits h result) (perform_bounded bounded result)
      rwa [List.append_assoc] at kept
    | error e =>
      have same := perform_error bounded result
      exact ih (h.restored same) (same.bounded bounded)

/-- Whatever was done to a renderer: its present maximum size and the reserved room add up to the
maximum size it began with, the message is no longer than that (or than a header), and the count of
every section is the number of entries that were added to it, without ever wrapping around. An
addition that succeeds next leaves the message no longer than the maximum size then. -/
theorem within_limits (id flags : UInt16) (total : Nat) (origin : Option Name) (time : Time48)
    (operations : List Operation) :
    let r := run operations (start id flags total origin time)
    let added := written operations (start id flags total origin time)
    r.maxSize + r.reserved = total ∧
    r.size ≤ max HeaderSection.length total ∧
    (∀ part, (r.counts.get part).toNat = added.count part ∧ added.count part ≤ 65535) ∧
    ∀ (o : Operation) (r' : Renderer), o.isAddition = true → o.perform r = (.ok (), r') →
      r'.size ≤ r'.maxSize := by
  intro r added
  have limits : Limits total added r :=
    run_limits operations (start_limits id flags total origin time)
      (start_bounded id flags total origin time)
  refine ⟨limits.room, limits.size, fun part => ⟨limits.counts part, ?_⟩,
    fun o r' addition performed => (perform_extends addition performed).fits⟩
  -- A number in the header has 16 bits, and it is the number of the entries that were added.
  rw [← limits.counts part]
  exact Nat.le_of_lt_succ (UInt16.toNat_lt _)

/-- More room is asked for than is left; when all of it is given back, there is enough for another
record. -/
theorem within_limits_released :
    let record : Operation := .call (.addRdataset .answer Name.root
      (.ofRdata Class.internet 60 (.a ⟨[192, 0, 2, 1], rfl⟩)) { canonical := true })
    let operations : List Operation :=
      [.call (.reserve 30), record, .call (.reserve 31), .call .releaseReserved]
    let r := run operations (start 1 0 60 none ⟨0⟩)
    let added := written operations (start 1 0 60 none ⟨0⟩)
    added = [.answer] ∧ r.size = 27 ∧ r.maxSize + r.reserved = 60 ∧
    r.size ≤ max HeaderSection.length 60 ∧
    (∀ part, (r.counts.get part).toNat = added.count part ∧ added.count part ≤ 65535) ∧
    ∃ r', record.perform r = (.ok (), r') ∧ r'.size = 42 ∧ r'.size ≤ r'.maxSize := by
  intro record operations r added
  have adds : added = [.answer] := by
    simp only [added, operations, record, written, Operation.perform, Call.perform,
      Renderer.addRdataset, Renderer.add, Rdataset.compose_ofRdata, parts, Call.entries,
      Call.recordsOf, Rdataset.records_ofRdata]
    rfl
  have rendered : r = { start 1 0 60 none ⟨0⟩ with
      part := .answer
      counts := { answer := 1 }
      draft := ⟨#[0, 0, 0, 0, 0, 0, 0, 0, 0, 0, 0, 0,
        0, 0, 1, 0, 1, 0, 0, 0, 60, 0, 4, 192, 0, 2, 1], CompressionTable.empty⟩ } := by
    simp only [r, operations, record, run, List.foldl, Operation.perform, Call.perform,
      Renderer.addRdataset, Renderer.add, Rdataset.compose_ofRdata]
    rfl
  have performed : record.perform r = (.ok (), { r with
      counts := { answer := 2 }
      draft := r.draft.put [0, 0, 1, 0, 1, 0, 0, 0, 60, 0, 4, 192, 0, 2, 1] }) := by
    rw [rendered]
    simp only [record, Operation.perform, Call.perform, Renderer.addRdataset, Renderer.add,
      Rdataset.compose_ofRdata]
    rfl
  obtain ⟨room, size, counts, fits⟩ := within_limits 1 0 60 none ⟨0⟩ operations
  refine ⟨adds, by rw [rendered]; rfl, room, size, counts, _, performed, ?_,
    fits record _ rfl performed⟩
  rw [rendered]
  rfl

end Operation

end Dns
