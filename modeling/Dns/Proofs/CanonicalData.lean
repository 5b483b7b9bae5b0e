import Dns.Proofs.CanonicalForms
import Dns.Proofs.RecordSets

/-!
# Canonical data tell data apart

Record sets are kept free of repetitions by `==`, while whoever signs or sorts a set looks at the
canonical octets of its members. Both have to mean the same. That equal data have equal octets is
the easy half, and known already (`RecordData.wires_congr`). For the other half, nothing needs to be
known of the sixteen layouts: canonical data can be read as data of their type, and what is read
equals what was composed (`RecordData.form_writes`). So the octets and the type determine the data.

The types have to be the same, since octets of one type are data of another as well. In a record set
they are, whatever was done to it (`RecordCall.run_kept`).

Two conditions are asked of the data. They are documented, which excludes signatures and octets that
only pretend to be opaque, and complete, so that they have canonical octets at all. Without the
second one the equivalence would be wrong in a dull way: two different relative names have no
octets, and would be equal for that.

What follows for record sets is `Rdataset.CanonicallyDistinct`: the members have canonical octets,
no two of them the same, and a set in canonical form is as many records as it has members, which
differ in their data. So a signer that sorts them by their octets finds no two that are alike.
-/

set_option autoImplicit false

namespace Dns

/-! ## Octets that are there -/

namespace Composer

theorem outcome_map_ok (pieces : List Octets) : outcome (pieces.map .ok) = .ok () := by
  induction pieces with
  | nil => rfl
  | cons o rest ih => exact ih

theorem added_map_ok (pieces : List Octets) : added (pieces.map .ok) = pieces.flatten := by
  induction pieces with
  | nil => rfl
  | cons o rest ih => rw [List.map_cons, added, ih, List.flatten_cons]

theorem outcome_append {a b : List (Except ComposeError Octets)} :
    outcome (a ++ b) = .ok () ↔ outcome a = .ok () ∧ outcome b = .ok () := by
  induction a with
  | nil => exact ⟨fun h => ⟨rfl, h⟩, fun h => h.2⟩
  | cons o rest ih =>
    cases o with
    | ok o => exact ih
    | error e => exact ⟨fun h => (nomatch h), fun h => (nomatch h.1)⟩

theorem added_append {a b : List (Except ComposeError Octets)} (all : outcome a = .ok ()) :
    added (a ++ b) = added a ++ added b := by
  induction a with
  | nil => rfl
  | cons o rest ih =>
    cases o with
    | ok o => rw [List.cons_append, added, added, ih all, List.append_assoc]
    | error e => cases all

end Composer

/-! ## Data with a canonical form of their own

Complete data have parts that are all there, whatever the origin is. The pieces that they come to
are determined layout by layout, and this is the only place where the layouts are gone through. From
there on pieces are compared by their octets, and nothing depends on how many kinds of data there
are. -/

/-- An absolute name comes to the same with any origin. -/
theorem Part.wire_of_absolute {n : Name} (absolute : n.absolute = true) (small : Bool)
    (origin : Option Name) :
    (Part.name small n).wire origin = .ok (if small then n.canonical.wire else n.wire) := by
  rw [Part.wire, Name.absoluteName_of_absolute absolute]
  rfl

namespace RecordData

variable {a b d : RecordData}

/-- All parts are there, and no origin has to do with them. -/
theorem Complete.exists_pieces (complete : d.Complete) :
    ∃ pieces : List Octets, ∀ origin, d.parts.map (Part.wire origin) = pieces.map .ok := by
  cases d with
  | ns n | cname n | ptr n =>
    exact ⟨[_], fun origin => congrArg (· :: []) (Part.wire_of_absolute complete true origin)⟩
  | mx preference n | lp preference n =>
    exact ⟨[Wire.uint16 preference, _], fun origin =>
      congrArg (Except.ok (Wire.uint16 preference) :: · :: [])
        (Part.wire_of_absolute complete true origin)⟩
  | soa s =>
    obtain ⟨mname, rname, width⟩ := complete
    refine ⟨[s.mname.canonical.wire, s.rname.canonical.wire, Octets.ofNat 4 s.serial.value,
      Wire.uint32 s.refresh, Wire.uint32 s.retry, Wire.uint32 s.expire, Wire.uint32 s.minimum],
      fun origin => ?_⟩
    simp only [parts, List.map_cons, List.map_nil, Part.wire_of_absolute mname,
      Part.wire_of_absolute rname, Serial.compose, if_pos width, if_true]
    rfl
  | tsig t =>
    exact ⟨[_, t.wireBehindAlgorithm], fun origin =>
      congrArg (· :: Except.ok t.wireBehindAlgorithm :: [])
        (Part.wire_of_absolute complete false origin)⟩
  | hinfo cpu os => exact ⟨[cpu.wire, os.wire], fun _ => rfl⟩
  | nid preference nodeId =>
    exact ⟨[Wire.uint16 preference, Wire.uint64 nodeId], fun _ => rfl⟩
  | l32 preference locator => exact ⟨[Wire.uint16 preference, locator.octets], fun _ => rfl⟩
  | l64 preference locator => exact ⟨[Wire.uint16 preference, Wire.uint64 locator], fun _ => rfl⟩
  | a | txt | x25 | aaaa | opt | unknown => exact ⟨[_], fun _ => rfl⟩

/-- Canonical octets are those of the parts, one behind the other. -/
theorem canonicalWire_eq (d : RecordData) (origin : Option Name) :
    d.canonicalWire origin = (Composer.outcome (d.parts.map (Part.wire origin))).map fun _ =>
      Composer.added (d.parts.map (Part.wire origin)) := by
  have whole := Composer.putAll_appends (d.parts.map (Part.wire origin)) Draft.empty
  have alone : ∀ o : Octets, (Draft.empty.octets ++ o).toList = o := fun o => by simp [Draft.empty]
  rw [canonicalWire, Composer.octets, compose_canonical, whole]
  cases Composer.outcome (d.parts.map (Part.wire origin)) with
  | ok u => exact congrArg Except.ok (alone _)
  | error e => rfl

theorem Complete.exists_canonicalWire (complete : d.Complete) :
    ∃ o, ∀ origin, d.canonicalWire origin = .ok o := by
  obtain ⟨pieces, there⟩ := complete.exists_pieces
  refine ⟨pieces.flatten, fun origin => ?_⟩
  rw [canonicalWire_eq, there, Composer.outcome_map_ok, Composer.added_map_ok]
  rfl

/-! ## Data are told by their type and their canonical octets

The octets are read from a draft that was empty, and so there is nothing in front of them that a
pointer could lead to. So reading gives back the data in small letters, and data with the same
octets are equal since they are read as one and the same. -/

theorem canonicalWire_congr (equal : (a == b) = true) (documented : a.Documented)
    (origin : Option Name) : a.canonicalWire origin = b.canonicalWire origin := by
  rw [canonicalWire_eq, canonicalWire_eq,
    wires_congr equal (kind?_of_documented documented) BEq.rfl]

/-- Canonical octets are read as data of their type, which are equal to those they were made of. -/
theorem exists_read_canonicalWire (documented : d.Documented) (complete : d.Complete) {o : Octets}
    (wire : d.canonicalWire none = .ok o) : ∃ found, (found == d) = true ∧
      readForm d.rtype o.length o.toArray 0 = .ok found o.length := by
  unfold canonicalWire Composer.octets at wire
  split at wire
  · rename_i u d' run
    cases wire
    obtain ⟨-, -, found, ⟨full, whole, equal⟩, finds⟩ :=
      form_writes documented false none true Draft.everywhere Draft.empty d' (fun _ _ => trivial)
        (Draft.sound_of_empty _ _) run
    obtain rfl : d = full := Except.ok.inj ((complete.completed none).symm.trans whole)
    exact ⟨found, equal, finds _ (Keeps.refl _ _)⟩
  · cases wire

theorem beq_of_canonicalWire (documented : a.Documented) (documented' : b.Documented)
    (complete : a.Complete) (complete' : b.Complete) (types : a.rtype = b.rtype) {o : Octets}
    (wire : a.canonicalWire none = .ok o) (wire' : b.canonicalWire none = .ok o) :
    (a == b) = true := by
  obtain ⟨found, equal, read⟩ := exists_read_canonicalWire documented complete wire
  obtain ⟨found', equal', read'⟩ := exists_read_canonicalWire documented' complete' wire'
  rw [types, read'] at read
  obtain ⟨rfl, -⟩ := Outcome.ok.inj read
  exact BEq.trans (BEq.symm equal) equal'

theorem beq_iff_canonicalWire (documented : a.Documented) (documented' : b.Documented)
    (complete : a.Complete) (complete' : b.Complete) : (a == b) = true ↔
      a.rtype = b.rtype ∧ a.canonicalWire none = b.canonicalWire none := by
  constructor
  · intro equal
    refine ⟨?_, canonicalWire_congr equal documented none⟩
    rw [← rtype_caseless a, beq_iff_caseless.mp equal, rtype_caseless]
  · rintro ⟨types, same⟩
    obtain ⟨o, wire⟩ := complete.exists_canonicalWire
    exact beq_of_canonicalWire documented documented' complete complete' types (wire none)
      (same ▸ wire none)

end RecordData

/-! ## Record sets

A set in canonical form is composed record by record, and each record is a front that they have in
common and data behind their length. The front is of the same length in all of them, and so records
of one set are different if their data are. -/

/-- What stands in front of the data of a record in canonical form. -/
def Record.front (owner : Name) (rtype : Rtype) (recordClass : Class) (ttl : UInt32)
    (origin : Option Name) : Octets :=
  Composer.added ([Part.name true owner, .plain rtype.wire, .plain recordClass.wire,
    .plain (Wire.uint32 ttl)].map (Part.wire origin))

/-- A record that is composed is its front and its data behind their length. -/
theorem Record.added_canonicalParts {r : Record} {origin : Option Name} {form : RecordForm}
    {o : Octets} (wire : r.data.canonicalWire origin = .ok o)
    (all : Composer.outcome ((r.canonicalParts origin form).map (Part.wire origin)) = .ok ()) :
    Composer.added ((r.canonicalParts origin form).map (Part.wire origin))
      = front r.owner r.rtype (form.overrideClass.getD r.recordClass) r.ttl origin
        ++ (Octets.ofNat 2 o.length ++ o) := by
  rw [RecordData.canonicalWire_eq] at wire
  obtain ⟨u, ended, rfl⟩ := map_eq_ok wire
  -- The length is a piece between the front and the data.
  have pieces : (r.canonicalParts origin form).map (Part.wire origin)
      = [Part.name true r.owner, .plain r.rtype.wire,
          .plain (form.overrideClass.getD r.recordClass).wire,
          .plain (Wire.uint32 r.ttl)].map (Part.wire origin)
        ++ (Composer.lengthOf (r.data.parts.map (Part.wire origin))
          :: r.data.parts.map (Part.wire origin)) := rfl
  rw [pieces] at all ⊢
  obtain ⟨fronted, behind⟩ := Composer.outcome_append.mp all
  rw [Composer.added_append fronted, front]
  by_cases short : (Composer.added (r.data.parts.map (Part.wire origin))).length < 65536
  · have length : Composer.lengthOf (r.data.parts.map (Part.wire origin))
        = .ok (Octets.ofNat 2 (Composer.added (r.data.parts.map (Part.wire origin))).length) := by
      rw [Composer.lengthOf, ended]
      exact if_pos short
    rw [length, Composer.added]
  · have length : Composer.lengthOf (r.data.parts.map (Part.wire origin)) = .error .longData := by
      rw [Composer.lengthOf, ended]
      exact if_neg short
    rw [length] at behind
    cases behind

namespace Rdataset

variable {s : Rdataset}

/-- The members have canonical octets, no two of them the same, and what is composed of the set in
canonical form is one record for each. -/
def CanonicallyDistinct (s : Rdataset) : Prop :=
  ∃ datas : List Octets, datas.Nodup ∧
    s.rdatas.toList.map (·.canonicalWire none) = datas.map .ok ∧
    ∀ (owner : Name) (compressed : Bool) (origin : Option Name) (form : RecordForm) (n : Nat)
      (d d' : Draft), form.canonical = true →
      s.compose owner compressed origin form d = .ok n d' →
      n = datas.length ∧ d' = d.put (datas.flatMap fun o =>
        Record.front owner s.rtype (form.overrideClass.getD s.setClass) s.ttl origin
          ++ (Octets.ofNat 2 o.length ++ o))

/-- The records of a set differ in their data only. The induction is on the members. -/
theorem added_canonicalParts {owner : Name} {origin : Option Name} {form : RecordForm}
    {datas : List Octets} (typed : ∀ d ∈ s.rdatas.toList, d.rtype = s.rtype)
    (wires : s.rdatas.toList.map (·.canonicalWire origin) = datas.map .ok)
    (all : Composer.outcome ((s.canonicalParts owner origin form).map (Part.wire origin))
      = .ok ()) :
    Composer.added ((s.canonicalParts owner origin form).map (Part.wire origin))
      = datas.flatMap fun o =>
        Record.front owner s.rtype (form.overrideClass.getD s.setClass) s.ttl origin
          ++ (Octets.ofNat 2 o.length ++ o) := by
  unfold canonicalParts records at all ⊢
  -- The front comes from the set and stays what it is, while the members are taken off one by one.
  generalize s.rdatas.toList = members at typed wires all
  induction members generalizing datas with
  | nil =>
    obtain rfl : datas = [] := List.map_eq_nil_iff.mp wires.symm
    rfl
  | cons d rest ih =>
    cases datas with
    | nil => cases wires
    | cons o datas =>
      obtain ⟨wire, others⟩ := List.cons.inj wires
      rw [List.map_cons, List.flatMap_cons, List.map_append] at all ⊢
      obtain ⟨first, behind⟩ := Composer.outcome_append.mp all
      have here := Record.added_canonicalParts (r := ⟨owner, s.setClass, s.ttl, d⟩) wire first
      have rtype : Record.rtype ⟨owner, s.setClass, s.ttl, d⟩ = s.rtype :=
        typed d List.mem_cons_self
      rw [rtype] at here
      rw [Composer.added_append first, here, List.flatMap_cons,
        ih (fun d mem => typed d (List.mem_cons_of_mem _ mem)) others behind]

/-- No two members have the same canonical octets, if they have the same type. -/
theorem canonicalWire_nodup (typed : ∀ d ∈ s.rdatas.toList, d.rtype = s.rtype)
    (inForm : ∀ d ∈ s.rdatas.toList, d.Documented ∧ d.Complete) :
    ∃ datas : List Octets, datas.Nodup ∧
      ∀ origin, s.rdatas.toList.map (·.canonicalWire origin) = datas.map .ok := by
  have distinct : s.rdatas.toList.Pairwise fun a b => (a == b) = false := s.rdatas.distinct
  generalize s.rdatas.toList = members at typed inForm distinct
  induction distinct with
  | nil => exact ⟨[], List.nodup_nil, fun _ => rfl⟩
  | @cons d rest apart _ ih =>
    -- By induction along the pairs that are known to be different. If two members had the same
    -- octets, they would be equal.
    obtain ⟨datas, nodup, wires⟩ := ih (fun d mem => typed d (List.mem_cons_of_mem _ mem))
      (fun d mem => inForm d (List.mem_cons_of_mem _ mem))
    obtain ⟨documented, complete⟩ := inForm d List.mem_cons_self
    obtain ⟨o, wire⟩ := complete.exists_canonicalWire
    refine ⟨o :: datas, List.nodup_cons.mpr ⟨fun mem => ?_, nodup⟩, fun origin => ?_⟩
    · have given : Except.ok o ∈ rest.map (·.canonicalWire none) := by
        rw [wires none]
        exact List.mem_map_of_mem mem
      obtain ⟨d', member, wire'⟩ := List.mem_map.mp given
      obtain ⟨documented', complete'⟩ := inForm d' (List.mem_cons_of_mem _ member)
      have types : d.rtype = d'.rtype :=
        (typed d List.mem_cons_self).trans (typed d' (List.mem_cons_of_mem _ member)).symm
      have equal := RecordData.beq_of_canonicalWire documented documented' complete complete' types
        (wire none) wire'
      rw [apart d' member] at equal
      cases equal
    · rw [List.map_cons, List.map_cons, wire origin, wires origin]

/-- What is composed of a set in canonical form, if it can be composed. -/
theorem composed_canonical {owner : Name} {compressed : Bool} {origin : Option Name}
    {form : RecordForm} {datas : List Octets} {n : Nat} {d d' : Draft}
    (typed : ∀ d ∈ s.rdatas.toList, d.rtype = s.rtype)
    (wires : s.rdatas.toList.map (·.canonicalWire origin) = datas.map .ok)
    (canonical : form.canonical = true)
    (run : s.compose owner compressed origin form d = .ok n d') :
    n = datas.length ∧ d' = d.put (datas.flatMap fun o =>
      Record.front owner s.rtype (form.overrideClass.getD s.setClass) s.ttl origin
        ++ (Octets.ofNat 2 o.length ++ o)) := by
  have count : s.rdatas.size = datas.length := by
    have lengths := congrArg List.length wires
    rwa [List.length_map, List.length_map] at lengths
  rw [s.compose_appends owner compressed canonical d] at run
  cases ended : Composer.outcome ((s.canonicalParts owner origin form).map (Part.wire origin)) with
  | error e =>
    rw [ended] at run
    cases run
  | ok u =>
    rw [ended] at run
    obtain ⟨rfl, rfl⟩ := EStateM.Result.ok.inj run
    rw [added_canonicalParts typed wires ended]
    exact ⟨count, rfl⟩

theorem canonicallyDistinct (typed : ∀ d ∈ s.rdatas.toList, d.rtype = s.rtype)
    (inForm : ∀ d ∈ s.rdatas.toList, d.Documented ∧ d.Complete) : s.CanonicallyDistinct := by
  obtain ⟨datas, nodup, wires⟩ := canonicalWire_nodup typed inForm
  refine ⟨datas, nodup, wires none, ?_⟩
  intro owner compressed origin form n d d' canonical run
  exact composed_canonical typed (wires origin) canonical run

end Rdataset

/-! ## Equality and canonical form -/

/-- **Data are equal exactly if they have one type and the same canonical octets.** This holds for
all data but signatures, in the form that belongs to their type, with absolute names and serial
numbers of 32 bits; such data always have canonical octets. And so no two members of a record set of
such data have the same canonical octets, and what is composed of it in canonical form is as many
records with different data as there are members. It is enough that the members have the type of the
set, and they have it whatever was called of a set, be it alone or with an owner. -/
theorem RecordData.equal_iff_same_canonical :
    (∀ a b : RecordData, a.Documented → a.Complete → b.Documented → b.Complete →
      ∃ o o', a.canonicalWire none = .ok o ∧ b.canonicalWire none = .ok o' ∧
        ((a == b) = true ↔ a.rtype = b.rtype ∧ o = o')) ∧
    (∀ s : Rdataset, (∀ d ∈ s.rdatas.toList, d.rtype = s.rtype) →
      (∀ d ∈ s.rdatas.toList, d.Documented ∧ d.Complete) → s.CanonicallyDistinct) ∧
    (∀ (begun : Beginning) (steps : List (Bool × RecordCall true)),
      let s := RecordCall.run steps begun.rdataset
      (∀ d ∈ s.rdatas.toList, d.Documented ∧ d.Complete) → s.CanonicallyDistinct) ∧
    (∀ (name : Name) (begun : Beginning) (steps : List (Bool × RecordCall false)),
      let s := RecordCall.run steps (⟨name, begun.rdataset⟩ : Rrset)
      (∀ d ∈ s.rdataset.rdatas.toList, d.Documented ∧ d.Complete) →
        s.rdataset.CanonicallyDistinct) := by
  refine ⟨?_, fun s => Rdataset.canonicallyDistinct, ?_, ?_⟩
  · intro a b documented complete documented' complete'
    obtain ⟨o, wire⟩ := complete.exists_canonicalWire
    obtain ⟨o', wire'⟩ := complete'.exists_canonicalWire
    refine ⟨o, o', wire none, wire' none, ?_⟩
    rw [beq_iff_canonicalWire documented documented' complete complete', wire none, wire' none,
      Except.ok.injEq]
  · intro begun steps s inForm
    -- That the members have the type of the set is kept by every call.
    have kept : RecordCall.Kept begun.rdataset s :=
      RecordCall.run_kept steps ⟨⟨_, rfl⟩, rfl, rfl, begun.typed⟩
    exact Rdataset.canonicallyDistinct kept.typed inForm
  · intro name begun steps s inForm
    have kept : RecordCall.Kept (⟨name, begun.rdataset⟩ : Rrset) s :=
      RecordCall.run_kept steps ⟨⟨begun.rdataset, rfl⟩, rfl, rfl, begun.typed⟩
    exact Rdataset.canonicallyDistinct kept.typed inForm

/-- A name in other letters makes equal data, and a set with the one does not take the other. -/
theorem RecordData.equal_iff_same_canonical_letters :
    let n : Name := ⟨[⟨[77], by decide, by decide⟩], true, by decide⟩
    let m : Name := ⟨[⟨[109], by decide, by decide⟩], true, by decide⟩
    let begun : Beginning := .ofRdata Class.internet 7 (.ns n)
    let add : RecordCall true := .add (.ns m) none
    let s := RecordCall.run [(true, add)] begun.rdataset
    (∃ o, (RecordData.ns n).canonicalWire none = .ok o ∧
      (RecordData.ns m).canonicalWire none = .ok o) ∧
    begun.rdataset.CanonicallyDistinct ∧ s.CanonicallyDistinct ∧
    s.rdatas.toList = begun.rdataset.rdatas.toList := by
  intro n m begun add s
  obtain ⟨told, alone, runs, -⟩ := equal_iff_same_canonical
  obtain ⟨o, o', wire, wire', same⟩ := told (.ns n) (.ns m) trivial rfl trivial rfl
  obtain rfl : o = o' := (same.mp (by decide)).2
  have one : begun.rdataset.rdatas.toList = [.ns n] := Rdataset.toList_ofRdata _ _ _
  have inForm : ∀ d ∈ begun.rdataset.rdatas.toList, d.Documented ∧ d.Complete := by
    rw [one]
    intro d mem
    obtain rfl := List.mem_singleton.mp mem
    exact ⟨trivial, rfl⟩
  have unchanged : s.rdatas.toList = begun.rdataset.rdatas.toList := by
    obtain ⟨r, taken, becomes⟩ :=
      (RecordCall.step_meets true add begun.rdataset).accepts fun d mem => by
        obtain rfl := List.mem_singleton.mp mem
        rfl
    have after : s = r := congrArg RecordCall.left taken
    rw [after, becomes.members_eq]
    show RecordCall.membersAfter _ begun.rdataset.rdatas.toList = _
    rw [one]
    decide
  exact ⟨⟨o, wire, wire'⟩, alone _ begun.typed inForm,
    runs begun _ (unchanged ▸ inForm), unchanged⟩

end Dns
