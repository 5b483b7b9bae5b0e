import Dns.Proofs.Signatures
import Dns.Proofs.StoredNames

/-!
# The canonical form of records

Signatures are computed over records in canonical form, and so two parties that hold equal records
have to come to the same octets, whatever letters they hold them in and wherever in a message they
write them. That is a statement about two runs: all that is known of them is that what they start
from is equal, and nothing is known of their drafts.

The canonical form of a record set is a list of `Part`s. A part is a name, or octets in which there
are no names; what it comes to (`Part.wire`) depends on the origin and on nothing else. Composing
puts the parts one behind the other until one fails (`Rdataset.compose_canonical`), and this alone
shows that neither the place nor the table matters. Equal sets have parts that come to the same, one
by one (`Rdataset.wires_congr`). The length in front of data is a part, too, and takes over the
failures of the data: these are taken away again when they fail, as if they had never been begun.

The algorithm of a signature is a part that keeps its letters. It is the reason why sets of
signatures are left out.

None of this asks whether composing succeeds. Names that cannot be completed and data that are too
long make it fail, and then it fails for the same reason in both runs, after the same octets.
-/

set_option autoImplicit false

namespace Dns

variable {α : Type}

/-! ## Octets one behind the other

A composer that only puts octets, up to the first that are not there, is a list. What it adds and
how it ends can be read off that list, for all drafts at once (`Composer.putAll_appends`). The same
list gives the octets for two drafts with different tables, and that the table is as it was is clear
because none of the parts has touched it. -/

namespace Composer

/-- Adds octets one behind the other, up to those that are not there. -/
def putAll : List (Except ComposeError Octets) → Composer Unit
  | [] => pure ()
  | o :: rest => do
    putOrFail o
    putAll rest

/-- The octets in front of the first failure. -/
def added : List (Except ComposeError Octets) → Octets
  | .ok o :: rest => o ++ added rest
  | _ => []

/-- The first failure. -/
def outcome : List (Except ComposeError Octets) → Except ComposeError Unit
  | [] => .ok ()
  | .ok _ :: rest => outcome rest
  | .error e :: _ => .error e

/-- The length of octets, if all of them are there and they are not too long. -/
def lengthOf (pieces : List (Except ComposeError Octets)) : Except ComposeError Octets := do
  outcome pieces
  if (added pieces).length < 65536 then .ok (Octets.ofNat 2 (added pieces).length)
  else .error .longData

/-- The same octets are appended to any draft, with the same outcome, and tables are left alone. -/
def Appends (c : Composer α) (o : Octets) (result : Except ComposeError α) : Prop :=
  ∀ d : Draft, c d = match result with
    | .ok a => .ok a ⟨d.octets ++ o, d.table⟩
    | .error e => .error e ⟨d.octets ++ o, d.table⟩

/-- What is appended, and with which outcome, is determined. -/
theorem Appends.unique {c : Composer α} {o o' : Octets} {result result' : Except ComposeError α}
    (h : c.Appends o result) (g : c.Appends o' result') : o = o' ∧ result = result' := by
  have same := (h Draft.empty).symm.trans (g Draft.empty)
  -- Two drafts with the same octets in front are the same only if the same was appended.
  have octets : ∀ t : CompressionTable,
      Draft.mk (Draft.empty.octets ++ o) t = Draft.mk (Draft.empty.octets ++ o') t → o = o' := by
    intro t drafts
    have lists := congrArg (fun d : Draft => d.octets.toList) drafts
    simpa [Draft.empty] using lists
  cases result with
  | ok a =>
    cases result' with
    | ok a' =>
      obtain ⟨values, drafts⟩ := EStateM.Result.ok.inj same
      exact ⟨octets _ drafts, congrArg Except.ok values⟩
    | error e' => cases same
  | error e =>
    cases result' with
    | ok a' => cases same
    | error e' =>
      obtain ⟨values, drafts⟩ := EStateM.Result.error.inj same
      exact ⟨octets _ drafts, congrArg Except.error values⟩

theorem putAll_append (a b : List (Except ComposeError Octets)) :
    putAll (a ++ b) = (putAll a >>= fun _ => putAll b) := by
  induction a with
  | nil => rw [putAll, pure_bind, List.nil_append]
  | cons o rest ih => rw [List.cons_append, putAll, putAll, ih, bind_assoc]

theorem putAll_appends (pieces : List (Except ComposeError Octets)) :
    (putAll pieces).Appends (added pieces) (outcome pieces) := by
  have nothing : ∀ d : Draft, d = ⟨d.octets ++ ([] : Octets), d.table⟩ := by
    rintro ⟨octets, table⟩
    simp
  induction pieces with
  | nil => exact fun d => congrArg (EStateM.Result.ok ()) (nothing d)
  | cons o rest ih =>
    intro d
    cases o with
    | error e => exact congrArg (EStateM.Result.error e) (nothing d)
    | ok o =>
      have step : putAll (.ok o :: rest) d = putAll rest (d.put o) := rfl
      rw [step, ih (d.put o), outcome, added, Draft.put, append_append_octets]

theorem Appends.map {β : Type} {c : Composer α} {o : Octets} {result : Except ComposeError α}
    (h : c.Appends o result) (f : α → β) :
    (do return f (← c) : Composer β).Appends o (result.map f) := by
  intro d
  show EStateM.bind c _ d = _
  unfold EStateM.bind
  rw [h d]
  cases result <;> rfl

/-- Behind their length, octets are other octets, if they are not too long. -/
theorem lengthPrefixed_put (o : Octets) :
    lengthPrefixed (put o) = putOrFail (Wire.lengthPrefixed o) := by
  funext d
  have begun : (d.put [0, 0]).size = d.size + 2 := size_append_octets d.octets [0, 0]
  have ended : ((d.put [0, 0]).put o).size = d.size + 2 + o.length := by
    rw [← begun]
    exact size_append_octets _ o
  have length : ((d.put [0, 0]).put o).size - (d.size + 2) = o.length := by omega
  have restored : ((d.put [0, 0]).put o).shorten d.size = d := by
    rw [Draft.put_put, Draft.shorten_put]
  -- The length is asked for when the octets are there already. If it is too large they are cut off,
  -- as if it had been asked for first.
  cases run : lengthPrefixed (put o) d with
  | ok u d' =>
    obtain ⟨short, rfl⟩ := lengthPrefixed_put_ok run
    rw [Wire.lengthPrefixed, if_pos (Nat.lt_succ_of_le short)]
    rfl
  | error e d' =>
    simp only [lengthPrefixed, put, length, restored] at run
    split at run
    · rename_i long
      cases run
      rw [Wire.lengthPrefixed, if_neg (Nat.not_lt.mpr long)]
      rfl
    · split at run <;> cases run

/-- Data that fail are taken back, and so they can be put behind a length that fails first. -/
theorem lengthPrefixed_putAll (pieces : List (Except ComposeError Octets)) :
    lengthPrefixed (putAll pieces) = putAll (lengthOf pieces :: pieces) := by
  funext d
  have inner := putAll_appends pieces (d.put [0, 0])
  have outer := putAll_appends (lengthOf pieces :: pieces) d
  cases ending : outcome pieces with
  | error e =>
    -- The data fail, and are shortened away. The length fails with the same error, before anything
    -- was put.
    have failed : lengthOf pieces = .error e := by
      rw [lengthOf, ending]
      rfl
    have restored : ((d.put [0, 0]).put (added pieces)).shorten d.size = d := by
      rw [Draft.put_put, Draft.shorten_put]
    rw [ending] at inner
    rw [lengthPrefixed, inner, failed]
    exact congrArg (EStateM.Result.error e) restored
  | ok u =>
    have same : lengthPrefixed (putAll pieces) d = lengthPrefixed (put (added pieces)) d := by
      rw [ending] at inner
      unfold lengthPrefixed
      rw [inner]
      rfl
    rw [same, lengthPrefixed_put, outer]
    by_cases short : (added pieces).length < 65536
    · have length : lengthOf pieces = .ok (Octets.ofNat 2 (added pieces).length) := by
        rw [lengthOf, ending]
        exact if_pos short
      rw [Wire.lengthPrefixed, if_pos short, length, outcome, added, ending]
      rfl
    · have length : lengthOf pieces = .error .longData := by
        rw [lengthOf, ending]
        exact if_neg short
      rw [Wire.lengthPrefixed, if_neg short, length]
      simp [putOrFail, outcome, added]

end Composer

/-! ## Parts

In canonical form names are in full and in small letters, except the algorithm of a signature, which
is written as it is. That small letters and completing go in any order is the one fact about names
that is needed here. Each type of data is a list of parts (`RecordData.parts`), and composing it in
canonical form is putting the wire forms of these. -/

/-- A part of canonical data. -/
inductive Part where
  /-- A name in full, in small letters or in its own. -/
  | name (small : Bool) (n : Name)
  /-- Octets in which there are no names. -/
  | octets (o : Except ComposeError Octets)

namespace Part

def plain (o : Octets) : Part := .octets (.ok o)

/-- What a part comes to, wherever it stands. -/
def wire (origin : Option Name) : Part → Except ComposeError Octets
  | name small n =>
    (n.absoluteName origin).map fun full => if small then full.canonical.wire else full.wire
  | octets o => o

end Part

namespace Name

theorem concat_canonical (n origin : Name) :
    n.canonical.concat origin.canonical = (n.concat origin).map canonical := by
  obtain ⟨labels, flag, _⟩ := n
  cases flag with
  | true => rfl
  | false =>
    have length : labelsLength (labels.map Label.lower ++ origin.labels.map Label.lower)
        = labelsLength (labels ++ origin.labels) := by
      rw [← List.map_append, labelsLength_lower]
    by_cases short : labelsLength (labels ++ origin.labels) + origin.absolute.toNat ≤ 255
    · simp only [concat, canonical, Bool.false_eq_true, if_false, dif_pos short, Except.map,
        List.map_append]
      exact dif_pos (length ▸ short)
    · simp only [concat, canonical, Bool.false_eq_true, if_false, dif_neg short, Except.map]
      exact dif_neg (length ▸ short)

/-- Completing a name and putting it in small letters can be done in any order. -/
theorem absoluteName_canonical (n : Name) (origin : Option Name) :
    n.canonical.absoluteName (origin.map canonical)
      = (n.absoluteName origin).map canonical := by
  have joined := n.concat_canonical
  rw [absoluteName_eq, absoluteName_eq]
  obtain ⟨labels, flag, fits⟩ := n
  cases flag with
  | true => rfl
  | false =>
    cases origin with
    | none => rfl
    | some origin =>
      replace joined := joined origin
      obtain ⟨labels', flag', fits'⟩ := origin
      cases flag' with
      | true => exact joined
      | false => rfl

/-- Without the table, a name is a part. -/
theorem compose_part (n : Name) (origin : Option Name) (small : Bool) :
    n.compose false origin small = Composer.putOrFail ((Part.name small n).wire origin) := by
  funext d
  simp only [compose, Part.wire, absoluteName]
  cases n.completed origin with
  | error e => rfl
  | ok full =>
    obtain ⟨⟨labels, flag, fits⟩, absolute⟩ := full
    cases absolute
    have composed := composeLabels_uncompressed small labels fits d
    cases small with
    | false => exact congrArg (EStateM.Result.ok ()) composed
    | true =>
      rw [labelWire_canonical] at composed
      exact congrArg (EStateM.Result.ok ()) composed

end Name

namespace RecordData

/-- The parts of data in canonical form. -/
def parts : RecordData → List Part
  | a address => [.plain address.octets]
  | ns name => [.name true name]
  | cname name => [.name true name]
  | soa s =>
    [.name true s.mname, .name true s.rname, .octets s.serial.compose,
      .plain (Wire.uint32 s.refresh), .plain (Wire.uint32 s.retry),
      .plain (Wire.uint32 s.expire), .plain (Wire.uint32 s.minimum)]
  | ptr name => [.name true name]
  | hinfo cpu os => [.plain cpu.wire, .plain os.wire]
  | mx preference exchange => [.plain (Wire.uint16 preference), .name true exchange]
  | txt first rest => [.plain ((first :: rest).flatMap CharString.wire)]
  | x25 address => [.plain address.wire]
  | aaaa address => [.plain address.octets]
  | opt options => [.plain (options.flatMap EdnsOption.wire)]
  | nid preference nodeId => [.plain (Wire.uint16 preference), .plain (Wire.uint64 nodeId)]
  | l32 preference locator => [.plain (Wire.uint16 preference), .plain locator.octets]
  | l64 preference locator => [.plain (Wire.uint16 preference), .plain (Wire.uint64 locator)]
  | lp preference name => [.plain (Wire.uint16 preference), .name true name]
  | tsig t => [.name false t.algorithm, .plain t.wireBehindAlgorithm]
  | unknown _ octets => [.plain octets]

theorem compose_canonical (d : RecordData) (origin : Option Name) :
    d.compose false origin true = Composer.putAll (d.parts.map (Part.wire origin)) := by
  cases d <;>
    simp only [compose, composeSoa, Tsig.compose, parts, List.map_cons, List.map_nil,
      Composer.putAll, bind_pure_unit, Name.compose_part] <;>
    rfl

end RecordData

/-! ## Equal parts -/

section Equal

variable {origin origin' : Option Name}

/-- In small letters, equal names come to the same with equal origins. -/
theorem Part.wire_congr {n n' : Name} (names : (n == n') = true)
    (origins : (origin == origin') = true) :
    (Part.name true n).wire origin = (Part.name true n').wire origin' := by
  -- In small letters a part is a function of the name and the origin in small letters.
  have small : ∀ (m : Name) (o : Option Name), (Part.name true m).wire o
      = (m.canonical.absoluteName (o.map Name.canonical)).map Name.wire := by
    intro m o
    rw [Name.absoluteName_canonical, Part.wire]
    cases m.absoluteName o <;> rfl
  have same : origin.map Name.canonical = origin'.map Name.canonical := by
    cases origin with
    | none => cases origin' with
      | none => rfl
      | some o' => cases origins
    | some o => cases origin' with
      | none => cases origins
      | some o' => exact congrArg some (Name.beq_iff_canonical.mp origins)
  rw [small, small, Name.beq_iff_canonical.mp names, same]

namespace RecordData

theorem wires_caseless (d : RecordData) (other : d.kind? ≠ some .tsig)
    (origins : (origin == origin') = true) :
    d.caseless.parts.map (Part.wire origin) = d.parts.map (Part.wire origin') := by
  have name : ∀ n : Name, (Part.name true n.canonical).wire origin
      = (Part.name true n).wire origin' := fun n =>
    Part.wire_congr (Name.beq_iff_canonical.mpr n.canonical_canonical) origins
  cases d with
  | tsig t => exact absurd rfl other
  | ns n | cname n | ptr n => exact congrArg (· :: []) (name n)
  | mx preference n | lp preference n =>
    exact congrArg (Except.ok (Wire.uint16 preference) :: · :: []) (name n)
  | soa s =>
    simp only [caseless, parts, List.map_cons, List.map_nil, name]
    rfl
  | _ => rfl

/-- Equal data have parts that come to the same. -/
theorem wires_congr {a b : RecordData} (equal : (a == b) = true) (other : a.kind? ≠ some .tsig)
    (origins : (origin == origin') = true) :
    a.parts.map (Part.wire origin) = b.parts.map (Part.wire origin') := by
  have same := beq_iff_caseless.mp equal
  have other' : b.kind? ≠ some .tsig := by
    rwa [← kind?_of_beq equal]
  rw [← wires_caseless a other BEq.rfl, same, wires_caseless b other' origins]

end RecordData

end Equal

/-! ## Records -/

namespace Record

/-- The parts of a record in canonical form. The length fails if the data do, or if they are too
long. -/
def canonicalParts (r : Record) (origin : Option Name) (form : RecordForm) : List Part :=
  [.name true r.owner, .plain r.rtype.wire, .plain (form.overrideClass.getD r.recordClass).wire,
    .plain (Wire.uint32 r.ttl),
    .octets (Composer.lengthOf (r.data.parts.map (Part.wire origin)))] ++ r.data.parts

variable {origin origin' : Option Name} {form form' : RecordForm}

theorem compose_canonical (r : Record) (compressed : Bool) (canonical : form.canonical = true) :
    r.compose compressed origin form
      = Composer.putAll ((r.canonicalParts origin form).map (Part.wire origin)) := by
  simp only [compose, canonical, Bool.not_true, Bool.and_false, Name.compose_part,
    RecordData.compose_canonical, Composer.lengthPrefixed_putAll]
  rfl

theorem wires_congr {r r' : Record} (owners : (r.owner == r'.owner) = true)
    (classes : form.overrideClass.getD r.recordClass = form'.overrideClass.getD r'.recordClass)
    (ttls : r.ttl = r'.ttl) (data : (r.data == r'.data) = true)
    (other : r.data.kind? ≠ some .tsig) (origins : (origin == origin') = true) :
    (r.canonicalParts origin form).map (Part.wire origin)
      = (r'.canonicalParts origin' form').map (Part.wire origin') := by
  have rtypes : r.rtype = r'.rtype := by
    rw [rtype, rtype, ← RecordData.rtype_caseless, RecordData.beq_iff_caseless.mp data,
      RecordData.rtype_caseless]
  have owned := Part.wire_congr owners origins
  have same := RecordData.wires_congr data other origins
  simp only [canonicalParts, List.map_append, List.map_cons, List.map_nil, owned, rtypes, classes,
    ttls, same]
  rfl

end Record

/-! ## Record sets -/

namespace Rdataset

/-- The parts of a record set in canonical form: those of its records. -/
def canonicalParts (s : Rdataset) (owner : Name) (origin : Option Name) (form : RecordForm) :
    List Part :=
  (s.records owner).flatMap fun r => r.canonicalParts origin form

variable {origin origin' : Option Name} {form form' : RecordForm}

theorem compose_canonical (s : Rdataset) (owner : Name) (compressed : Bool)
    (canonical : form.canonical = true) : s.compose owner compressed origin form = do
      Composer.putAll ((s.canonicalParts owner origin form).map (Part.wire origin))
      return s.rdatas.size := by
  have all : ∀ records : List Record,
      (records.forM fun r => r.compose compressed origin form) = Composer.putAll
        ((records.flatMap fun r => r.canonicalParts origin form).map (Part.wire origin)) := by
    intro records
    induction records with
    | nil => rfl
    | cons r rest ih =>
      rw [List.flatMap_cons, List.map_append, Composer.putAll_append, ← ih,
        ← r.compose_canonical compressed canonical]
      rfl
  rw [compose, all]
  rfl

/-- A set is composed to the same octets wherever it stands. -/
theorem compose_appends (s : Rdataset) (owner : Name) (compressed : Bool)
    (canonical : form.canonical = true) :
    (s.compose owner compressed origin form).Appends
      (Composer.added ((s.canonicalParts owner origin form).map (Part.wire origin)))
      ((Composer.outcome ((s.canonicalParts owner origin form).map (Part.wire origin))).map
        fun _ => s.rdatas.size) := by
  rw [s.compose_canonical owner compressed canonical]
  exact (Composer.putAll_appends _).map fun _ => s.rdatas.size

/-- The parts of equal sets come to the same, one by one. The induction is on the members. -/
theorem wires_congr {s t : Rdataset} {owner owner' : Name} (owners : (owner == owner') = true)
    (classes : form.overrideClass.getD s.setClass = form'.overrideClass.getD t.setClass)
    (ttls : s.ttl = t.ttl) (members : (s.rdatas.toList == t.rdatas.toList) = true)
    (unsigned : ∀ data ∈ s.rdatas.toList, data.kind? ≠ some .tsig)
    (origins : (origin == origin') = true) :
    (s.canonicalParts owner origin form).map (Part.wire origin)
      = (t.canonicalParts owner' origin' form').map (Part.wire origin') := by
  unfold canonicalParts records
  generalize s.rdatas.toList = mine at members unsigned
  generalize t.rdatas.toList = theirs at members
  induction mine generalizing theirs with
  | nil =>
    cases theirs with
    | nil => rfl
    | cons b theirs => cases members
  | cons a mine ih =>
    cases theirs with
    | nil => cases members
    | cons b theirs =>
      obtain ⟨equal, rest⟩ := Bool.and_eq_true_iff.mp members
      have unlike : a.kind? ≠ some .tsig := unsigned a List.mem_cons_self
      -- One member on each side: they are data of two records with the same owner, class and time
      -- to live.
      have first :=
        @Record.wires_congr origin origin' form form' ⟨owner, s.setClass, s.ttl, a⟩
          ⟨owner', t.setClass, t.ttl, b⟩ owners classes ttls equal unlike origins
      have others := ih (fun data mem => unsigned data (List.mem_cons_of_mem _ mem)) theirs rest
      rw [List.map_cons, List.map_cons, List.flatMap_cons, List.flatMap_cons, List.map_append,
        List.map_append, first, others]

end Rdataset

/-! ## Names in full

That the octets of both sets are the same does not say that they are right. `Part.LaidOut` describes
them part by part: a name that was laid is completed, in small letters, and a string of labels that
ends with the root label; other parts are the octets that they are. The description is about octets
and does not mention how they were composed, so that it cannot be wrong together with the composer.
-/

/-- A name stands in full: it is completed and written in small letters, as labels up to the root
label, without a pointer. -/
structure Name.InFull (n : Name) (origin : Option Name) (o : Octets) : Prop where
  completed : ∃ full, n.absoluteName origin = .ok full ∧ full.absolute = true ∧
    o = full.canonical.wire
  small : Octets.lower o = o
  labels : (StoredName.mk o true).WellFormed

/-- Octets that a part came to. A name that keeps its letters is none. -/
def Part.Laid (origin : Option Name) : Part → Octets → Prop
  | .name small n, o => small = true ∧ n.InFull origin o
  | .octets e, o => e = .ok o

/-- Parts that are laid one behind the other, until none is left or one fails. -/
inductive Part.LaidOut (origin : Option Name) :
    List Part → List Octets → Except ComposeError Unit → Prop
  | done : LaidOut origin [] [] (.ok ())
  | next {p : Part} {o : Octets} {rest : List Part} {pieces : List Octets}
      {outcome : Except ComposeError Unit} (here : p.Laid origin o)
      (behind : LaidOut origin rest pieces outcome) :
      LaidOut origin (p :: rest) (o :: pieces) outcome
  | failed {p : Part} {rest : List Part} {e : ComposeError} (failure : p.wire origin = .error e) :
      LaidOut origin (p :: rest) [] (.error e)

/-- No part is a name that keeps its letters. -/
def Part.isSmall : Part → Bool
  | .name small _ => small
  | .octets _ => true

theorem Name.inFull_of_wire {n : Name} {origin : Option Name} {o : Octets}
    (wire : (Part.name true n).wire origin = .ok o) : n.InFull origin o := by
  obtain ⟨full, means, rfl⟩ := map_eq_ok wire
  have absolute : full.absolute = true := by
    obtain ⟨⟨_, absolute⟩, -, rfl⟩ := map_eq_ok means
    exact absolute
  refine ⟨⟨full, means, absolute, rfl⟩, ?_, ?_⟩
  · show Octets.lower full.canonical.wire = full.canonical.wire
    rw [← wire_canonical, canonical_canonical]
  · refine StoredName.wellFormed_iff.mpr ⟨full.canonical, ?_⟩
    show StoredName.mk full.canonical.wire full.absolute = StoredName.mk full.canonical.wire true
    rw [absolute]

/-- Parts come to octets one behind the other, until all of them are laid or one fails. -/
theorem Part.exists_laidOut {origin : Option Name} {parts : List Part}
    (small : ∀ p ∈ parts, p.isSmall = true) :
    ∃ pieces, LaidOut origin parts pieces (Composer.outcome (parts.map (wire origin))) ∧
      Composer.added (parts.map (wire origin)) = pieces.flatten := by
  induction parts with
  | nil => exact ⟨[], .done, rfl⟩
  | cons p rest ih =>
    rw [List.map_cons]
    cases piece : p.wire origin with
    | error e => exact ⟨[], .failed piece, rfl⟩
    | ok o =>
      obtain ⟨pieces, behind, octets⟩ := ih fun p mem => small p (List.mem_cons_of_mem _ mem)
      have here : p.Laid origin o := by
        cases p with
        | octets e => exact piece
        | name kept n =>
          obtain rfl : kept = true := small _ List.mem_cons_self
          exact ⟨rfl, Name.inFull_of_wire piece⟩
      refine ⟨o :: pieces, .next here behind, ?_⟩
      rw [Composer.added, octets, List.flatten_cons]

theorem RecordData.isSmall_parts {d : RecordData} (other : d.kind? ≠ some .tsig) :
    ∀ p ∈ d.parts, p.isSmall = true := by
  have all : d.parts.all Part.isSmall = true := by
    cases d with
    | tsig t => exact absurd rfl other
    | _ => rfl
  exact List.all_eq_true.mp all

theorem Rdataset.isSmall_canonicalParts {s : Rdataset} (owner : Name) (origin : Option Name)
    (form : RecordForm) (unsigned : ∀ data ∈ s.rdatas.toList, data.kind? ≠ some .tsig) :
    ∀ p ∈ s.canonicalParts owner origin form, p.isSmall = true := by
  intro p mem
  obtain ⟨r, there, mem⟩ := List.mem_flatMap.mp mem
  obtain ⟨data, member, rfl⟩ := List.mem_map.mp there
  rcases List.mem_append.mp mem with front | behind
  · simp only [List.mem_cons, List.not_mem_nil, or_false] at front
    rcases front with rfl | rfl | rfl | rfl | rfl <;> rfl
  · exact RecordData.isSmall_parts (unsigned data member) p behind

/-- Two record sets of any type but that of signatures, with equal owners, members and origins, one
class and one time to live, append the same octets in canonical form, to any two drafts with any two
tables, and fail for the same reason if they fail. The tables are left alone, and every name among
the octets stands in full. -/
theorem Rdataset.canonical_caseless {s t : Rdataset} {owner owner' : Name}
    {origin origin' : Option Name} {form form' : RecordForm} (compressed compressed' : Bool)
    (canonical : form.canonical = true) (canonical' : form'.canonical = true)
    (owners : (owner == owner') = true)
    (classes : form.overrideClass.getD s.setClass = form'.overrideClass.getD t.setClass)
    (ttls : s.ttl = t.ttl) (members : (s.rdatas.toList == t.rdatas.toList) = true)
    (unsigned : ∀ data ∈ s.rdatas.toList, data.kind? ≠ some .tsig)
    (origins : (origin == origin') = true) :
    ∃ pieces outcome, Part.LaidOut origin (s.canonicalParts owner origin form) pieces outcome ∧
      (s.compose owner compressed origin form).Appends pieces.flatten
        (outcome.map fun _ => s.rdatas.size) ∧
      (t.compose owner' compressed' origin' form').Appends pieces.flatten
        (outcome.map fun _ => s.rdatas.size) := by
  have sizes : s.rdatas.size = t.rdatas.size := List.length_eq_of_beq members
  have same := wires_congr owners classes ttls members unsigned origins
  obtain ⟨pieces, laid, octets⟩ := @Part.exists_laidOut origin _
    (isSmall_canonicalParts owner origin form unsigned)
  refine ⟨pieces, _, laid, ?mine, ?theirs⟩
  case mine =>
    rw [← octets]
    exact s.compose_appends owner compressed canonical
  case theirs =>
    rw [← octets, same, sizes]
    exact t.compose_appends owner' compressed' canonical'

/-- Relative names are completed with origins in other letters, and one class is put in the place of
another. -/
theorem Rdataset.canonical_caseless_completed :
    let n : Name := ⟨[⟨[77], by decide, by decide⟩], false, by decide⟩
    let m : Name := ⟨[⟨[109], by decide, by decide⟩], false, by decide⟩
    let origin : Name := ⟨[⟨[101], by decide, by decide⟩], true, by decide⟩
    let origin' : Name := ⟨[⟨[69], by decide, by decide⟩], true, by decide⟩
    let form : RecordForm := { canonical := true }
    let form' : RecordForm := { canonical := true, overrideClass := some Class.internet }
    ∃ written : Octets,
      written = [1, 109, 1, 101, 0, 0, 2, 0, 1, 0, 0, 0, 7, 0, 5, 1, 109, 1, 101, 0] ∧
      ((ofRdata Class.internet 7 (.ns n)).compose n true (some origin) form).Appends written
        (.ok 1) ∧
      ((ofRdata Class.chaos 7 (.ns m)).compose m false (some origin') form').Appends written
        (.ok 1) := by
  intro n m origin origin' form form'
  have members : ((ofRdata Class.internet 7 (.ns n)).rdatas.toList
      == (ofRdata Class.chaos 7 (.ns m)).rdatas.toList) = true := by
    rw [toList_ofRdata, toList_ofRdata]
    decide
  have unsigned : ∀ data ∈ (ofRdata Class.internet 7 (.ns n)).rdatas.toList,
      data.kind? ≠ some .tsig := by
    rw [toList_ofRdata]
    decide
  obtain ⟨pieces, outcome, -, mine, theirs⟩ :=
    @canonical_caseless (ofRdata Class.internet 7 (.ns n)) (ofRdata Class.chaos 7 (.ns m)) n m
      (some origin) (some origin') form form' true false rfl rfl (by decide) rfl rfl members
      unsigned (by decide)
  have wires : ((ofRdata Class.internet 7 (.ns n)).canonicalParts n (some origin) form).map
      (Part.wire (some origin)) = [.ok [1, 109, 1, 101, 0], .ok [0, 2], .ok [0, 1],
        .ok [0, 0, 0, 7], .ok [0, 5], .ok [1, 109, 1, 101, 0]] := by
    rw [canonicalParts, records_ofRdata]
    cbv
  have alone := @compose_appends (some origin) form (ofRdata Class.internet 7 (.ns n)) n true rfl
  rw [wires] at alone
  obtain ⟨octets, counted⟩ := mine.unique alone
  have size : (ofRdata Class.internet 7 (.ns n)).rdatas.size = 1 :=
    congrArg List.length (toList_ofRdata _ _ _)
  rw [octets, counted, size] at mine theirs
  exact ⟨_, rfl, mine, theirs⟩

end Dns
