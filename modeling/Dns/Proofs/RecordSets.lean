import Dns.Record.Set
import Dns.Proofs.Algebra

/-!
# Record sets under calls

An `Rdataset` and an `Rrset` are the same as far as their data are concerned: the one is what it is,
the other has one in it. `RecordSet` says this, and everything here is proved for both at once. Only
a set that is alone can be told its time to live without data (`RecordCall.updateTtl`).

Every call is there twice. `RecordCall.compute` is the function that makes a new set, as the
operations of the algebra do that do not change their receiver; `RecordCall.perform` is a program
that changes a set in place, one thing after the other, and that leaves behind what it has done when
it fails. A run is a list of calls of either sort. After a failure it goes on with what was left.

What a call does is said once, by `Meets`, in terms of what it offers. If all data that it offers
have the type of the set, it succeeds, and the set becomes what `Becomes` says: type and class are
the same, the time to live is another one only if one was given, and the members are those of a list
to which the same was done. If any datum has another type, it fails, and nothing at all has changed.
Calls that offer nothing cannot fail.

From there on calls are not told apart. What is kept by a run (`Kept`) is kept by whatever `Meets`
its description, and so the induction over a run has a single case (`run_kept`).
-/

set_option autoImplicit false

namespace Dns

/-- A set of data of one type and class, with or without something else. -/
class RecordSet (σ : Type) [SetLike σ RecordError RecordData] where
  rdataset : σ → Rdataset
  withRdataset : σ → Rdataset → σ
  add : σ → RecordData → Option UInt32 → Except RecordError (Bool × σ)
  rdataset_withRdataset : ∀ s r, rdataset (withRdataset s r) = r
  withRdataset_withRdataset : ∀ s r r', withRdataset (withRdataset s r) r' = withRdataset s r'
  withRdataset_rdataset : ∀ s, withRdataset s (rdataset s) = s
  members_eq : ∀ s : σ, SetLike.members s = (rdataset s).rdatas
  withMembers_eq : ∀ (s : σ) m,
    SetLike.withMembers s m = withRdataset s { rdataset s with rdatas := m }
  check_eq : ∀ (s : σ) d, SetLike.check s d = SetLike.check (rdataset s) d
  add_eq : ∀ s d ttl, add s d ttl =
    ((rdataset s).add d ttl).map fun (isNew, r) => (isNew, withRdataset s r)

instance : RecordSet Rdataset where
  rdataset s := s
  withRdataset _ r := r
  add := Rdataset.add
  rdataset_withRdataset _ _ := rfl
  withRdataset_withRdataset _ _ _ := rfl
  withRdataset_rdataset _ := rfl
  members_eq _ := rfl
  withMembers_eq _ _ := rfl
  check_eq _ _ := rfl
  add_eq s d ttl := by cases s.add d ttl <;> rfl

instance : RecordSet Rrset where
  rdataset := Rrset.rdataset
  withRdataset s rdataset := { s with rdataset }
  add := Rrset.add
  rdataset_withRdataset _ _ := rfl
  withRdataset_withRdataset _ _ _ := rfl
  withRdataset_rdataset _ := rfl
  members_eq _ := rfl
  withMembers_eq _ _ := rfl
  check_eq _ _ := rfl
  add_eq s d ttl := by
    unfold Rrset.add
    cases s.rdataset.add d ttl <;> rfl

open RecordSet

instance {σ : Type} [SetLike σ RecordError RecordData] [RecordSet σ] :
    LawfulSetLike σ RecordError RecordData where
  members_withMembers s m := by rw [withMembers_eq, members_eq, rdataset_withRdataset]
  withMembers_withMembers s m m' := by
    rw [withMembers_eq, withMembers_eq, withMembers_eq, rdataset_withRdataset,
      withRdataset_withRdataset]
  withMembers_members s := by rw [withMembers_eq, members_eq, withRdataset_rdataset]
  check_withMembers s m d := by
    rw [check_eq, withMembers_eq, rdataset_withRdataset, check_eq s]
    rfl

/-! ## Calls

The data that a call offers are those that could change the type of the members. What it takes away
it need not be asked about. -/

/-- What is called of a record set, which may be `alone`. Data that were frozen before are added
like others. -/
inductive RecordCall (alone : Bool) : Type 1 where
  | add (data : RecordData) (ttl : Option UInt32)
  | updateTtl (may : alone = true) (ttl : UInt32)
  | update (items : List RecordData)
  | union {τ ε : Type} [SetLike τ ε RecordData] (t : τ)
  | intersection {τ ε : Type} [SetLike τ ε RecordData] (t : τ)
  | difference {τ ε : Type} [SetLike τ ε RecordData] (t : τ)
  | symmetricDifference {τ ε : Type} [SetLike τ ε RecordData] (t : τ)

namespace Rdataset

/-- Takes over a time to live, if it is lower or there is no member yet. -/
def updateTtlInPlace (ttl : UInt32) : EStateM RecordError Rdataset Unit := do
  let s ← get
  if s.rdatas.isEmpty ∨ ttl < s.ttl then set { s with ttl }

/-- Asks about the data, takes over the time to live, and adds the data. -/
def addInPlace (data : RecordData) (ttl : Option UInt32) : EStateM RecordError Rdataset Bool := do
  SetLike.ask data
  if let some ttl := ttl then updateTtlInPlace ttl
  let isNew := !(← get).rdatas.contains data
  SetLike.change fun rdatas => rdatas.add data
  return isNew

theorem updateTtlInPlace_eq (ttl : UInt32) (s : Rdataset) :
    updateTtlInPlace ttl s = .ok () (s.updateTtl ttl) := by
  unfold updateTtl
  show (if s.rdatas.isEmpty ∨ ttl < s.ttl then set { s with ttl } else pure PUnit.unit
    : EStateM RecordError Rdataset PUnit) s = _
  split <;> rfl

theorem addInPlace_eq (data : RecordData) (ttl : Option UInt32) (s : Rdataset) :
    addInPlace data ttl s =
      match s.add data ttl with
      | .ok (isNew, s') => .ok isNew s'
      | .error e => .error e s := by
  unfold addInPlace add
  show EStateM.bind (SetLike.ask data) _ s = _
  unfold EStateM.bind
  rw [SetLike.ask_eq]
  cases SetLike.check s data with
  | error e => rfl
  | ok _ =>
    cases ttl with
    | none => rfl
    | some ttl =>
      show EStateM.bind (updateTtlInPlace ttl) _ s = _
      unfold EStateM.bind
      rw [updateTtlInPlace_eq]
      rfl

end Rdataset

namespace RecordCall

variable {alone : Bool}

/-- The data that are offered to the set. -/
def offered : RecordCall alone → List RecordData
  | add data _ => [data]
  | update items => items
  | union t | symmetricDifference t => (SetLike.members t).toList
  | updateTtl _ _ | intersection _ | difference _ => []

/-- The time to live that is given. -/
def given : RecordCall alone → Option UInt32
  | add _ ttl => ttl
  | updateTtl _ ttl => some ttl
  | _ => none

/-- The time to live afterwards: the first one that comes, and then the lowest. -/
def ttlAfter (c : RecordCall alone) (s : Rdataset) : UInt32 :=
  match c.given with
  | some ttl => if s.rdatas.isEmpty then ttl else min s.ttl ttl
  | none => s.ttl

/-- The members afterwards. -/
def membersAfter : RecordCall alone → List RecordData → List RecordData
  | add data _, items => ((SetCall.add data).onList items).2
  | updateTtl _ _, items => items
  | update new, items => ((SetCall.extend new).onList items).2
  | union t, items => ((SetCall.extend (SetLike.members t).toList).onList items).2
  | intersection t, items => items.filter (SetLike.members t).contains
  | difference t, items => items.filter fun a => !(SetLike.members t).contains a
  | symmetricDifference t, items =>
    (((SetCall.extend (SetLike.members t).toList).onList items).2).filter fun a =>
      !(items.filter (SetLike.members t).contains).any (· == a)

/-- What a set becomes by a call. -/
structure Becomes (c : RecordCall alone) (s r : Rdataset) : Prop where
  rtype_eq : r.rtype = s.rtype
  class_eq : r.setClass = s.setClass
  ttl_eq : r.ttl = c.ttlAfter s
  members_eq : r.rdatas.toList = c.membersAfter s.rdatas.toList

variable {σ : Type} [SetLike σ RecordError RecordData] [RecordSet σ]

/-- What a call comes to. -/
structure Meets (c : RecordCall alone) (s : σ) (result : EStateM.Result RecordError σ Unit) :
    Prop where
  accepts : (∀ d ∈ c.offered, d.rtype = (rdataset s).rtype) →
    ∃ r, result = .ok () (withRdataset s r) ∧ c.Becomes (rdataset s) r
  refuses : ∀ d ∈ c.offered, d.rtype ≠ (rdataset s).rtype → result = .error .incompatibleTypes s

/-- The set that a call makes of a set. -/
def compute (s : σ) : RecordCall alone → Except RecordError σ
  | add data ttl => (RecordSet.add s data ttl).map (·.2)
  | updateTtl _ ttl => .ok (withRdataset s ((rdataset s).updateTtl ttl))
  | update items => SetLike.update s items
  | union t => SetLike.union s t
  | intersection t => .ok (SetLike.intersection s t)
  | difference t => .ok (SetLike.difference s t)
  | symmetricDifference t => SetLike.symmetricDifference s t

/-- Runs a program on the data of a set. -/
def within {β : Type} (op : EStateM RecordError Rdataset β) : EStateM RecordError σ β := fun s =>
  match op (rdataset s) with
  | .ok b r => .ok b (withRdataset s r)
  | .error e r => .error e (withRdataset s r)

/-- Changes a set in place. -/
def perform : RecordCall alone → EStateM RecordError σ Unit
  | add data ttl => do let _ ← within (Rdataset.addInPlace data ttl)
  | updateTtl _ ttl => within (Rdataset.updateTtlInPlace ttl)
  | update items => SetLike.updateInPlace items
  | union t => SetLike.unionInPlace t
  | intersection t => SetLike.intersectionInPlace t
  | difference t => SetLike.differenceInPlace t
  | symmetricDifference t => SetLike.symmetricDifferenceInPlace t

/-- A call that makes a new set, with which it goes on, or one that changes the set in place. -/
def step (anew : Bool) (c : RecordCall alone) (s : σ) : EStateM.Result RecordError σ Unit :=
  if anew then allOrNothing s (c.compute s) else c.perform s

/-- The set that is left, also by a failure. -/
def left : EStateM.Result RecordError σ Unit → σ
  | .ok _ s | .error _ s => s

/-- What is left by calls that are made one after the other. -/
def run : List (Bool × RecordCall alone) → σ → σ
  | [], s => s
  | (anew, c) :: rest, s => run rest (left (step anew c s))

/-! ## Checks

Whether data may be added depends on their type alone, and there is one objection only. So a list of
data may be added if each of them may, and the first that may not decides nothing but that the call
fails. -/

theorem check_ok {s : σ} {d : RecordData} (same : d.rtype = (rdataset s).rtype) :
    SetLike.check s d = .ok () := (check_eq s d).trans (if_pos same)

theorem check_error {s : σ} {d : RecordData} (other : d.rtype ≠ (rdataset s).rtype) :
    SetLike.check s d = .error .incompatibleTypes := (check_eq s d).trans (if_neg other)

theorem checkAll_ok {s : σ} {items : List RecordData}
    (all : ∀ d ∈ items, d.rtype = (rdataset s).rtype) : SetLike.checkAll s items = .ok () :=
  SetLike.checkAll_ok fun d mem => check_ok (all d mem)

theorem checkAll_error {s : σ} {items : List RecordData} {d : RecordData} (mem : d ∈ items)
    (other : d.rtype ≠ (rdataset s).rtype) :
    SetLike.checkAll s items = .error .incompatibleTypes := by
  apply SetLike.checkAll_error mem (check_error other)
  intro b
  by_cases same : b.rtype = (rdataset s).rtype
  · exact .inl (check_ok same)
  · exact .inr (check_error same)

theorem update_ok {s : σ} {items : List RecordData}
    (all : ∀ d ∈ items, d.rtype = (rdataset s).rtype) : SetLike.update s items
      = .ok (SetLike.withMembers s ((SetLike.members s).extend items)) := by
  unfold SetLike.update
  rw [checkAll_ok all]

theorem update_error {s : σ} {items : List RecordData} {d : RecordData} (mem : d ∈ items)
    (other : d.rtype ≠ (rdataset s).rtype) :
    SetLike.update s items = .error .incompatibleTypes := by
  unfold SetLike.update
  rw [checkAll_error mem other]

/-! ## Calls that make a new set -/

/-- If other members are put in and no time to live is given, the rest is as it was. -/
theorem becomes_of_members {c : RecordCall alone} (nothing : c.given = none) {s : σ}
    {m : OrderedSet RecordData} (members : m.toList = c.membersAfter (SetLike.members s).toList) :
    ∃ r, SetLike.withMembers s m = withRdataset s r ∧ c.Becomes (rdataset s) r := by
  rw [RecordSet.members_eq] at members
  refine ⟨{ rdataset s with rdatas := m }, withMembers_eq s m, rfl, rfl, ?_, members⟩
  unfold ttlAfter
  rw [nothing]

theorem updateTtl_eq (s : Rdataset) (ttl : UInt32) : s.updateTtl ttl
    = { s with ttl := if s.rdatas.isEmpty then ttl else min s.ttl ttl } := by
  unfold Rdataset.updateTtl
  by_cases first : s.rdatas.isEmpty = true
  · rw [if_pos (.inl first), if_pos first]
  · rw [if_neg first]
    by_cases lower : ttl < s.ttl
    · have least : min s.ttl ttl = ttl := if_neg (UInt32.not_le.mpr lower)
      rw [if_pos (.inr lower), least]
    · have least : min s.ttl ttl = s.ttl := if_pos (UInt32.not_lt.mp lower)
      rw [if_neg (not_or.mpr ⟨first, lower⟩), least]

theorem updateTtl_becomes (may : alone = true) (s : Rdataset) (ttl : UInt32) :
    (updateTtl may ttl).Becomes s (s.updateTtl ttl) := by
  rw [updateTtl_eq]
  exact ⟨rfl, rfl, rfl, rfl⟩

/-- Whether the data are there already makes no difference to the time to live. -/
theorem add_becomes {s : Rdataset} {data : RecordData} (same : data.rtype = s.rtype)
    (ttl : Option UInt32) : ∃ isNew r, s.add data ttl = .ok (isNew, r) ∧
      (add data ttl : RecordCall alone).Becomes s r := by
  have added : (s.rdatas.add data).toList = ((SetCall.add data).onList s.rdatas.toList).2 :=
    (SetCall.add_agrees data s.rdatas).2
  unfold Rdataset.add
  rw [check_ok same]
  cases ttl with
  | none => exact ⟨_, _, rfl, rfl, rfl, rfl, added⟩
  | some ttl =>
    simp only [updateTtl_eq]
    exact ⟨_, _, rfl, rfl, rfl, rfl, added⟩

theorem compute_accepts (c : RecordCall alone) {s : σ}
    (all : ∀ d ∈ c.offered, d.rtype = (rdataset s).rtype) :
    ∃ r, c.compute s = .ok (withRdataset s r) ∧ c.Becomes (rdataset s) r := by
  have extended : ∀ (items : List RecordData) (m : OrderedSet RecordData),
      (m.extend items).toList = ((SetCall.extend items).onList m.toList).2 :=
    fun items m => (SetCall.extend_agrees items m).2
  cases c with
  | add data ttl =>
    obtain ⟨isNew, r, added, becomes⟩ := add_becomes (all data List.mem_cons_self) ttl
    refine ⟨r, ?_, becomes⟩
    rw [compute, add_eq, added]
    rfl
  | updateTtl may ttl => exact ⟨_, rfl, updateTtl_becomes may (rdataset s) ttl⟩
  | update items =>
    obtain ⟨r, made, becomes⟩ :=
      becomes_of_members (c := update items) rfl (extended items (SetLike.members s))
    exact ⟨r, (update_ok all).trans (congrArg Except.ok made), becomes⟩
  | union t =>
    obtain ⟨r, made, becomes⟩ :=
      becomes_of_members (c := union t) rfl (extended _ (SetLike.members s))
    exact ⟨r, (update_ok all).trans (congrArg Except.ok made), becomes⟩
  | intersection t =>
    obtain ⟨r, made, becomes⟩ :=
      becomes_of_members (c := intersection t) rfl (OrderedSet.toList_retain (SetLike.members s) _)
    exact ⟨r, congrArg Except.ok made, becomes⟩
  | difference t =>
    obtain ⟨r, made, becomes⟩ :=
      becomes_of_members (c := difference t) rfl (OrderedSet.toList_retain (SetLike.members s) _)
    exact ⟨r, congrArg Except.ok made, becomes⟩
  | symmetricDifference t =>
    have united : SetLike.union s t = .ok _ := update_ok all
    -- What is left out is asked of the overlap, which is a list here and a set there.
    have overlap : (fun a => !((SetLike.members s).retain (SetLike.members t).contains).contains a)
        = fun a => !((SetLike.members s).toList.filter (SetLike.members t).contains).any (· == a) :=
      funext fun a => congrArg (!·) (OrderedSet.contains_eq_any _ a)
    have members := OrderedSet.toList_retain ((SetLike.members s).extend (SetLike.members t).toList)
      fun a => !((SetLike.members s).retain (SetLike.members t).contains).contains a
    rw [extended, overlap] at members
    obtain ⟨r, made, becomes⟩ :=
      becomes_of_members (c := (symmetricDifference t : RecordCall alone)) rfl members
    refine ⟨r, ?_, becomes⟩
    rw [compute, SetLike.symmetricDifference_of_union united, overlap, made]

theorem compute_refuses (c : RecordCall alone) {s : σ} {d : RecordData} (mem : d ∈ c.offered)
    (other : d.rtype ≠ (rdataset s).rtype) : c.compute s = .error .incompatibleTypes := by
  cases c with
  | add data ttl =>
    cases List.mem_singleton.mp mem
    have refused : SetLike.check (rdataset s) d = .error .incompatibleTypes := if_neg other
    rw [compute, add_eq]
    unfold Rdataset.add
    rw [refused]
    rfl
  | updateTtl may ttl => cases mem
  | update items => exact update_error mem other
  | union t => exact update_error mem other
  | intersection t => cases mem
  | difference t => cases mem
  | symmetricDifference t =>
    have refused : SetLike.union s t = .error .incompatibleTypes := update_error mem other
    rw [compute, SetLike.symmetricDifference, refused]

theorem compute_meets (c : RecordCall alone) (s : σ) :
    c.Meets s (allOrNothing s (c.compute s)) where
  accepts all := by
    obtain ⟨r, made, becomes⟩ := c.compute_accepts all
    exact ⟨r, congrArg (allOrNothing s) made, becomes⟩
  refuses d mem other := congrArg (allOrNothing s) (c.compute_refuses mem other)

/-! ## Calls in place

Most of these come to the very result of the function. Where members are discarded one by one, the
index beside them may be another, and then it is only `Alike`. -/

theorem perform_add_eq (data : RecordData) (ttl : Option UInt32) (s : σ) :
    (add data ttl : RecordCall alone).perform s
      = allOrNothing s ((add data ttl : RecordCall alone).compute s) := by
  show EStateM.bind (within (Rdataset.addInPlace data ttl)) (fun _ => pure ()) s = _
  unfold EStateM.bind within
  rw [Rdataset.addInPlace_eq, compute, add_eq]
  cases (rdataset s).add data ttl with
  | ok made => rfl
  | error e =>
    show EStateM.Result.error e (withRdataset s (rdataset s)) = .error e s
    rw [withRdataset_rdataset]

theorem perform_updateTtl_eq (may : alone = true) (ttl : UInt32) (s : σ) :
    (updateTtl may ttl).perform s = allOrNothing s ((updateTtl may ttl).compute s) := by
  rw [perform]
  unfold within
  rw [Rdataset.updateTtlInPlace_eq]
  rfl

/-- Another index beside the members makes no difference. -/
theorem Meets.of_alike {c : RecordCall alone} {s after result : σ}
    (meets : c.Meets s (.ok () result)) (alike : SetLike.Alike after result) :
    c.Meets s (.ok () after) where
  accepts all := by
    obtain ⟨r, made, becomes⟩ := meets.accepts all
    cases made
    -- The set has other members beside the same type, class and time to live, and their list is the
    -- same.
    obtain ⟨⟨m, rfl⟩, members⟩ := alike
    rw [LawfulSetLike.members_withMembers, RecordSet.members_eq, rdataset_withRdataset] at members
    refine ⟨{ r with rdatas := m }, ?_, becomes.rtype_eq, becomes.class_eq, becomes.ttl_eq,
      members.trans becomes.members_eq⟩
    rw [withMembers_eq, rdataset_withRdataset, withRdataset_withRdataset]
  refuses d mem other := by cases meets.refuses d mem other

theorem perform_meets (c : RecordCall alone) (s : σ) : c.Meets s (c.perform s) := by
  have computed := c.compute_meets s
  cases c with
  | add data ttl =>
    rw [perform_add_eq]
    exact computed
  | updateTtl may ttl =>
    rw [perform_updateTtl_eq]
    exact computed
  | update items =>
    rw [perform, SetLike.updateInPlace_eq]
    exact computed
  | union t =>
    rw [perform, SetLike.unionInPlace_eq]
    exact computed
  | intersection t =>
    rw [perform, SetLike.intersectionInPlace_eq]
    exact computed
  -- The last two calls remove from the set itself, and its members end up as they would be anew
  -- only as a list. `Meets` asks for no more.
  | difference t =>
    obtain ⟨after, ran, alike⟩ := SetLike.differenceInPlace_eq t s
    rw [perform, ran]
    exact Meets.of_alike computed alike
  | symmetricDifference t =>
    have ran := SetLike.symmetricDifferenceInPlace_eq t s
    rw [compute] at computed
    rw [perform]
    cases result : SetLike.symmetricDifference s t with
    | ok made =>
      rw [result] at ran computed
      obtain ⟨after, ran, alike⟩ := ran
      rw [ran]
      exact Meets.of_alike computed alike
    | error e =>
      rw [result] at ran computed
      rw [ran]
      exact computed

theorem step_meets (anew : Bool) (c : RecordCall alone) (s : σ) : c.Meets s (step anew c s) := by
  unfold step
  cases anew with
  | true => exact c.compute_meets s
  | false => exact c.perform_meets s

/-! ## Runs

Members come from two places, from the set as it was and from what was offered to it. The type of
the former is kept since they have it already, and that of the latter is what the check was made
for. -/

theorem mem_appendNew {items : List RecordData} {d a : RecordData} (mem : d ∈ appendNew items a) :
    d ∈ items ∨ d = a := by
  unfold appendNew at mem
  split at mem
  · exact .inl mem
  · rcases List.mem_append.mp mem with old | first
    · exact .inl old
    · exact .inr (List.mem_singleton.mp first)

theorem mem_foldl_appendNew {new items : List RecordData} {d : RecordData}
    (mem : d ∈ new.foldl appendNew items) : d ∈ items ∨ d ∈ new := by
  induction new generalizing items with
  | nil => exact .inl mem
  | cons a rest ih =>
    rcases ih mem with before | later
    · rcases mem_appendNew before with old | rfl
      · exact .inl old
      · exact .inr List.mem_cons_self
    · exact .inr (List.mem_cons_of_mem a later)

/-- A member afterwards was one before, or it was offered. -/
theorem mem_membersAfter {c : RecordCall alone} {items : List RecordData} {d : RecordData}
    (mem : d ∈ c.membersAfter items) : d ∈ items ∨ d ∈ c.offered := by
  cases c with
  | add data ttl => exact (mem_appendNew mem).imp id List.mem_singleton.mpr
  | updateTtl may ttl => exact .inl mem
  | update new => exact mem_foldl_appendNew mem
  | union t => exact mem_foldl_appendNew mem
  | intersection t => exact .inl (List.mem_filter.mp mem).1
  | difference t => exact .inl (List.mem_filter.mp mem).1
  | symmetricDifference t => exact mem_foldl_appendNew (List.mem_filter.mp mem).1

/-- What stays as it was at the start, and that all members have the type of the set. -/
structure Kept (start s : σ) : Prop where
  frame : ∃ r, s = withRdataset start r
  rtype_eq : (rdataset s).rtype = (rdataset start).rtype
  class_eq : (rdataset s).setClass = (rdataset start).setClass
  typed : ∀ d ∈ (rdataset s).rdatas.toList, d.rtype = (rdataset s).rtype

/-- A call keeps what was kept up to it: it fails and does nothing, or what it offers has the type
of the set. -/
theorem Meets.kept {c : RecordCall alone} {start s : σ}
    {result : EStateM.Result RecordError σ Unit} (meets : c.Meets s result) (kept : Kept start s) :
    Kept start (left result) := by
  -- One datum of another type is enough for the call to do nothing.
  by_cases all : ∀ d ∈ c.offered, d.rtype = (rdataset s).rtype
  · obtain ⟨r, rfl, becomes⟩ := meets.accepts all
    obtain ⟨r₀, rfl⟩ := kept.frame
    have now : rdataset (withRdataset (withRdataset start r₀) r) = r := rdataset_withRdataset _ _
    refine ⟨⟨r, withRdataset_withRdataset start r₀ r⟩, ?_, ?_, ?_⟩
    · rw [left, now, becomes.rtype_eq, kept.rtype_eq]
    · rw [left, now, becomes.class_eq, kept.class_eq]
    · intro d mem
      rw [left, now] at mem ⊢
      rw [becomes.members_eq] at mem
      rw [becomes.rtype_eq]
      rcases mem_membersAfter mem with old | new
      · exact kept.typed d old
      · exact all d new
  · push Not at all
    obtain ⟨d, mem, other⟩ := all
    rw [meets.refuses d mem other]
    exact kept

theorem run_kept (steps : List (Bool × RecordCall alone)) {start s : σ} (kept : Kept start s) :
    Kept start (run steps s) := by
  induction steps generalizing s with
  | nil => exact kept
  | cons now rest ih => exact ih ((step_meets now.1 now.2 s).kept kept)

end RecordCall

/-! ## From the beginning -/

/-- How a set begins: without data, or with one datum and its time to live. -/
inductive Beginning where
  | new (setClass : Class) (rtype : Rtype)
  | ofRdata (setClass : Class) (ttl : UInt32) (data : RecordData)

namespace Beginning

def rdataset : Beginning → Rdataset
  | new setClass rtype => { rtype, setClass }
  | ofRdata setClass ttl data => .ofRdata setClass ttl data

theorem typed (begun : Beginning) :
    ∀ d ∈ begun.rdataset.rdatas.toList, d.rtype = begun.rdataset.rtype := by
  intro d mem
  cases begun with
  | new setClass rtype => cases mem
  | ofRdata setClass ttl data =>
    have one : d ∈ (Rdataset.ofRdata setClass ttl data).rdatas.toList := mem
    rw [Rdataset.toList_ofRdata, List.mem_singleton] at one
    rw [one]
    rfl

end Beginning

namespace RecordCall

/-- Whatever is called of a record set, its members have its type, and its type, class and owner are
those of the beginning; and whatever is called next either does all of what it is for or fails for
data of another type and does nothing. -/
theorem runs_keep_type :
    (∀ (begun : Beginning) (steps : List (Bool × RecordCall true)),
      let s := run steps begun.rdataset
      (∀ d ∈ s.rdatas.toList, d.rtype = s.rtype) ∧
      s.rtype = begun.rdataset.rtype ∧ s.setClass = begun.rdataset.setClass ∧
      ∀ (anew : Bool) (c : RecordCall true), c.Meets s (step anew c s)) ∧
    (∀ (name : Name) (begun : Beginning) (steps : List (Bool × RecordCall false)),
      let s := run steps (⟨name, begun.rdataset⟩ : Rrset)
      (∀ d ∈ s.rdataset.rdatas.toList, d.rtype = s.rdataset.rtype) ∧
      s.rdataset.rtype = begun.rdataset.rtype ∧ s.rdataset.setClass = begun.rdataset.setClass ∧
      s.name = name ∧
      ∀ (anew : Bool) (c : RecordCall false), c.Meets s (step anew c s)) := by
  refine ⟨?_, ?_⟩
  · intro begun steps s
    have kept : Kept begun.rdataset s := run_kept steps ⟨⟨_, rfl⟩, rfl, rfl, begun.typed⟩
    exact ⟨kept.typed, kept.rtype_eq, kept.class_eq, fun anew c => step_meets anew c s⟩
  · intro name begun steps s
    have kept : Kept (⟨name, begun.rdataset⟩ : Rrset) s :=
      run_kept steps ⟨⟨begun.rdataset, rfl⟩, rfl, rfl, begun.typed⟩
    obtain ⟨r, frame⟩ := kept.frame
    exact ⟨kept.typed, kept.rtype_eq, kept.class_eq, congrArg Rrset.name frame,
      fun anew c => step_meets anew c s⟩

end RecordCall

end Dns
