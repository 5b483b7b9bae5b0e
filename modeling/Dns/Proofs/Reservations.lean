import Dns.Proofs.Limits
import Dns.Proofs.Rootless
import Dns.Proofs.Soundness
import Dns.Proofs.Streams

/-!
# Reserved room is enough for a signature

How much room a key needs is counted without composing anything (`Key.reserveLength`), and the
record is composed by code that knows nothing of that number. They agree because all of the record
behind its owner is the same string of octets wherever it stands (`Renderer.composeTsig_ok`), and
because the owner takes the room of its name exactly if it is written in full
(`Name.compose_holds_iff`).

Room that was held back is there when it is given back: what is held back only grows until then, and
the message never grows into it (`Renderer.HoldsBack`). In this invariant the room stands on its
own, without the renderer that it was reserved in, since other reservations may come on top of it
and nobody can tell them apart later.

That the message grew by so many octets does not say what these octets are. So the main theorem,
`reservation_suffices`, has three parts for a signature that was added: the record of the key stands
at the end of the message and is read from there (`SignatureBetween`); it takes the reserved room or
less; and it takes all of it exactly if the name of the key stands there in full. The first part
needs a table that tells the truth, and so it builds on `Dns.Proofs.Soundness`; the other two need a
table without the root, and build on `Dns.Proofs.Rootless`. Both are known of every renderer,
whatever was added to it, and `Reached` collects what is.

The last part is about a signature that is still to come. It cannot be too big if the reserved room
was held back all the time. It may fail for other reasons, such as a full section or a request whose
signature is too long, and these have nothing to do with room.
-/

set_option autoImplicit false

namespace Dns

/-! ## Names that are written in full

Whether a name stands somewhere in full is a question about octets, and how much room it took is one
about sizes. They are the same question, because a pointer in the place of a suffix is shorter and
cannot be taken for a label. So the two cases of the result are told by what stands in the message,
and nobody has to look into the table to know how large a signature became. -/

namespace Name

variable {d d' : Draft} {n : Name}

theorem wire_of_absolute (absolute : n.absolute = true) :
    n.wire = n.labels.flatMap (labelWire false) ++ [0] := by
  rw [wire, absolute]
  rfl

/-- Without the table, a name is a string of octets like any other. -/
theorem compose_uncompressed (absolute : n.absolute = true) (origin : Option Name) :
    n.compose false origin false = Composer.put n.wire := by
  funext d
  rw [wire_of_absolute absolute]
  obtain ⟨labels, flag, fits⟩ := n
  cases absolute
  exact congrArg (EStateM.Result.ok ()) (composeLabels_uncompressed false labels fits d)

/-- No label begins as a pointer does. -/
theorem not_holds_label {m : Array UInt8} {i : Nat} {l : Label} {rest : Octets} {p : Fin 0x4000}
    (there : Holds m i (pointer p)) : ¬Holds m i (l.wire ++ rest) := by
  intro other
  obtain ⟨high, low, octets, large, -⟩ := pointer_octets p
  rw [octets] at there
  have first : m[i]? = some high := there.getElem? (i := 0) (Nat.succ_pos _)
  have first' : m[i]? = some (UInt8.ofNat l.octets.length) :=
    other.getElem? (i := 0) (Nat.succ_pos _)
  have same : high = UInt8.ofNat l.octets.length := Option.some.inj (first.symm.trans first')
  have small := l.short
  rw [same, toNat_labelLength] at large
  omega

/-- A name stands in full where it was composed exactly if it took the room of a full name. -/
theorem compose_holds_iff {compressed : Bool} {origin : Option Name} {m : Array UInt8}
    (absolute : n.absolute = true) (rootless : d.Rootless)
    (run : n.compose compressed origin false d = .ok () d')
    (kept : Keeps Draft.everywhere d'.octets m) :
    Holds m d.size n.wire ↔ d'.size = d.size + n.wireLength := by
  rw [wire_of_absolute absolute]
  obtain ⟨labels, flag, fits⟩ := n
  cases absolute
  cases run
  -- Whatever was composed stands in `m`, and there are two things that it can be.
  have stands : ∀ o : Octets, (composeLabels compressed false labels fits d).octets
      = d.octets ++ o → Holds m d.size o := fun o octets => by
    have there : Stands Draft.everywhere (d.octets ++ o) d.size o :=
      stands_append o fun _ _ => trivial
    rw [← octets] at there
    exact (there.keeps kept fun _ _ _ => trivial).holds
  rcases composeLabels_octets compressed false labels fits rootless with
    full | ⟨front, l, rest, p, rfl, short⟩
  · refine iff_of_true (stands _ full) ?_
    rw [Draft.size, full, size_append_octets, List.length_append, length_labelWires]
    rfl
  · refine iff_of_false (fun there => ?_) ?_
    · -- The full name and the composed one begin with the same labels. Behind these one has a label
      -- and the other a pointer, at the same place.
      rw [List.flatMap_append, List.append_assoc] at there
      rw [List.flatMap_cons, List.append_assoc] at there
      exact not_holds_label (stands _ short).right there.right
    · have lt := length_pointer_lt l rest p
      rw [Draft.size, short, size_append_octets, List.length_append, length_labelWires]
      simp only [wireLength, labelsLength_append, Bool.toNat_true, Draft.size]
      omega

end Name

/-! ## Records behind their owners

The algorithm in the data of a signature is never compressed. Only the owner of the record depends
on what stands in front of it. This is why its size is the size of the owner as it was composed and
a number that is known beforehand, and why the full name makes the difference between exactly the
reserved room and less. -/

/-- All of a record but its owner, where the data are these octets. -/
def Record.wireBehindOwner (rtype : Rtype) (recordClass : Class) (ttl : UInt32) (data : Octets) :
    Octets :=
  rtype.wire ++ recordClass.wire ++ Wire.uint32 ttl ++ (Octets.ofNat 2 data.length ++ data)

theorem Record.length_wireBehindOwner (rtype : Rtype) (recordClass : Class) (ttl : UInt32)
    (data : Octets) : (wireBehindOwner rtype recordClass ttl data).length = 10 + data.length := by
  simp only [wireBehindOwner, Rtype.wire, Class.wire, Registered.wire, Wire.uint32,
    List.length_append, Octets.length_ofNat]
  have rtypeWidth : Registered.width Rtype = 2 := rfl
  have classWidth : Registered.width Class = 2 := rfl
  omega

theorem Composer.behindOwner_ok {rtype : Rtype} {recordClass : Class} {ttl : UInt32}
    {data : Octets} {d d' : Draft}
    (run : (put rtype.wire >>= fun _ => put recordClass.wire >>= fun _ =>
      put (Wire.uint32 ttl) >>= fun _ => lengthPrefixed (put data)) d = .ok () d') :
    data.length ≤ 65535 ∧ d' = d.put (Record.wireBehindOwner rtype recordClass ttl data) := by
  obtain ⟨_, d₁, typed, run⟩ := bind_ok run
  obtain ⟨_, d₂, classed, run⟩ := bind_ok run
  obtain ⟨_, d₃, timed, run⟩ := bind_ok run
  cases typed
  cases classed
  cases timed
  obtain ⟨short, rfl⟩ := lengthPrefixed_put_ok run
  refine ⟨short, ?_⟩
  simp only [Draft.put_put, Record.wireBehindOwner, List.append_assoc]

namespace Renderer

variable {owner : Name} {t : Tsig} {compressed : Bool} {origin : Option Name} {d d' : Draft}
  {n : Nat}

/-- A signature is its owner, which may be compressed, and octets that are always the same. -/
theorem composeTsig_ok (absolute : t.algorithm.absolute = true)
    (run : composeTsig owner t compressed origin d = .ok n d') :
    ∃ d₁, owner.compose compressed origin false d = .ok () d₁ ∧
      d' = d₁.put (Record.wireBehindOwner Rtype.tsig Class.any 0
        (t.algorithm.wire ++ t.wireBehindAlgorithm)) := by
  have data : t.compose none = Composer.put (t.algorithm.wire ++ t.wireBehindAlgorithm) := by
    rw [← Composer.put_put, ← Name.compose_uncompressed absolute none]
    rfl
  rw [composeTsig_eq, data] at run
  obtain ⟨_, d₂, inner, last⟩ := Composer.bind_ok run
  cases last
  obtain ⟨_, d₁, owned, behind⟩ := Composer.bind_ok inner
  exact ⟨d₁, owned, (Composer.behindOwner_ok behind).2⟩

/-- A signature takes at most the room that its parts take in full, and takes it exactly if its
owner is written in full, as it is without the table and for the root. -/
theorem composeTsig_size (owned : owner.absolute = true) (absolute : t.algorithm.absolute = true)
    (rootless : d.Rootless) (run : composeTsig owner t compressed origin d = .ok n d') :
    d'.size ≤ d.size + (owner.wireLength + 10 + t.room) ∧
      (compressed = false ∨ owner = Name.root →
        d'.size = d.size + (owner.wireLength + 10 + t.room)) ∧
      (Holds d'.octets d.size owner.wire ↔
        d'.size = d.size + (owner.wireLength + 10 + t.room)) := by
  obtain ⟨d₁, owned', rfl⟩ := composeTsig_ok absolute run
  have tail : (Record.wireBehindOwner Rtype.tsig Class.any 0
      (t.algorithm.wire ++ t.wireBehindAlgorithm)).length = 10 + t.room := by
    rw [Record.length_wireBehindOwner, List.length_append, Name.length_wire,
      t.length_wireBehindAlgorithm, Tsig.room]
    omega
  -- From here on only the number of these octets matters.
  generalize Record.wireBehindOwner Rtype.tsig Class.any 0 _ = behind at tail ⊢
  have size : (d₁.put behind).size = d₁.size + (10 + t.room) := by
    rw [← tail]
    exact size_append_octets d₁.octets behind
  obtain ⟨_, d₂, composed, -, le⟩ := Name.compose_takes owned compressed false origin d rootless
  obtain rfl : d₂ = d₁ := by
    rw [owned'] at composed
    cases composed
    rfl
  refine ⟨by omega, fun inFull => ?_, ?_⟩
  · have written : d₂ = d.put owner.wire := by
      rcases inFull with rfl | rfl
      · rw [Name.compose_uncompressed owned] at owned'
        cases owned'
        rfl
      · rw [Name.compose_root rootless] at owned'
        cases owned'
        rfl
    have full : (d.put owner.wire).size = d.size + owner.wire.length :=
      size_append_octets d.octets owner.wire
    rw [Name.length_wire, ← written] at full
    omega
  · rw [Name.compose_holds_iff owned rootless owned' (Draft.Grows.put d₂ behind).kept]
    omega

end Renderer

/-! ## Signing with a key

There are two operations that sign, for a single message and for a message of a stream. They differ
in what is signed and not in the record, and `SignsWith.perform_cases` is the last place where they
are told apart. What they have in common is `SignsWith`: the owner of the record is the name of the
key, and its data are those that the key has signed, of the length that was counted. -/

namespace Key

variable {k : Key} {macs : MacFunction}

/-- A signature of a key has the length that the key tells. -/
theorem length_macOf {c : SigningContext} {message mac : Octets} {t : Tsig}
    {requestMac : Option Octets} {first : Bool}
    (signed : k.macOf macs c message t requestMac first = .ok mac) : mac.length = k.macLength := by
  rw [macOf] at signed
  split at signed
  · cases signed
  · rw [finish] at signed
    split at signed
    · rename_i enough
      cases signed
      rw [List.length_take, SigningContext.result, macs.length_mac]
      exact Nat.min_eq_left enough
    · cases signed

end Key

theorem Signer.draft_ok {Context : Type} {s : Signer Context} {algorithm : Name} {t : Tsig}
    (drafted : s.draft algorithm = .ok t) : t.algorithm = algorithm ∧ t.other.octets = s.other := by
  obtain ⟨other, counted, last⟩ := bind_eq_ok drafted
  cases last
  rw [Data.ofOctets] at counted
  split at counted
  · cases counted
    exact ⟨rfl, rfl⟩
  · cases counted

/-- What is known of a record that a key completed. -/
theorem Key.completed_parts {k : Key} {macs : MacFunction} {s : Signer SigningContext}
    {algorithm : Name} {draft t : Tsig} {c : SigningContext} {message : Octets}
    {requestMac : Option Octets} {first : Bool} {time : Time48}
    (drafted : s.draft algorithm = .ok draft)
    (mac : k.macOf macs c message t requestMac first = .ok t.mac.octets)
    (parts : t = { draft with time, mac := t.mac }) :
    t.algorithm = algorithm ∧ t.time = time ∧ t.mac.octets.length = k.macLength ∧
      t.other.octets = s.other := by
  obtain ⟨named, others⟩ := Signer.draft_ok drafted
  refine ⟨?_, ?_, length_macOf mac, ?_⟩
  · rw [parts]
    exact named
  · rw [parts]
  · rw [parts]
    exact others

namespace Renderer

theorem signingError_ne (e : SigningError) : signingError e ≠ .tooBig := by
  cases e <;> exact nofun

variable {Context : Type}

/-- Signing fails before the message is touched, or it adds the record that was completed. -/
theorem addTsig_cases (s : Signer Context) (algorithm : Name) (r : Renderer) :
    (∃ e, e ≠ RenderError.tooBig ∧ r.addTsig s algorithm = (.error e, r)) ∨
      ∃ draft t, s.draft algorithm = .ok draft ∧
        s.key.sign r.octets.toList draft r.time s.requestMac = .ok t ∧
        r.addTsig s algorithm = r.addTsigRecord s.owner t := by
  cases drafted : s.draft algorithm with
  | error e => exact .inl ⟨.compose e, nofun, by simp only [addTsig, drafted]⟩
  | ok draft =>
    cases signed : s.key.sign r.octets.toList draft r.time s.requestMac with
    | error e =>
      exact .inl ⟨signingError e, signingError_ne e, by simp only [addTsig, drafted, signed]⟩
    | ok t => exact .inr ⟨draft, t, rfl, signed, addTsig_of_sign drafted signed⟩

theorem signNext_cases (c : Option Context) (s : Signer Context) (r : Renderer) :
    (∃ e, e ≠ RenderError.tooBig ∧ (Operation.signNext c s).perform r = (.error e, r)) ∨
      ∃ draft t next, s.draft s.key.algorithmName = .ok draft ∧
        s.key.signNext r.octets.toList draft r.time s.requestMac c = .ok (t, next) ∧
        (Operation.signNext c s).perform r = r.addTsigRecord s.owner t := by
  cases drafted : s.draft s.key.algorithmName with
  | error e =>
    exact .inl ⟨.compose e, nofun, by simp only [Operation.perform, addNextTsig, drafted]⟩
  | ok draft =>
    cases signed : s.key.signNext r.octets.toList draft r.time s.requestMac c with
    | error e =>
      exact .inl ⟨signingError e, signingError_ne e, by
        simp only [Operation.perform, addNextTsig, drafted, signed]⟩
    | ok both =>
      obtain ⟨t, next⟩ := both
      refine .inr ⟨draft, t, next, rfl, signed, ?_⟩
      -- The context is for the caller, and nothing else is lost.
      simp only [Operation.perform, addNextTsig, drafted, signed]
      rcases r.addTsigRecord s.owner t with ⟨_ | _, r'⟩ <;> rfl

end Renderer

/-- An operation signs with a key and other data, and gives the record the name of the key. -/
inductive Operation.SignsWith (k : Key) (macs : MacFunction) (other : Octets) : Operation → Prop
  | alone (fudge originalId : UInt16) (error : TsigRcode) (requestMac : Option Octets) :
    SignsWith k macs other (.sign
      ⟨k.signing macs, k.name, fudge, originalId, error, other, requestMac⟩ k.algorithmName)
  | next (c : Option SigningContext) (fudge originalId : UInt16) (error : TsigRcode)
    (requestMac : Option Octets) :
    SignsWith k macs other (.signNext c
      ⟨k.signing macs, k.name, fudge, originalId, error, other, requestMac⟩)

namespace Operation

open Renderer

variable {k : Key} {macs : MacFunction} {other : Octets} {o : Operation} {r r' : Renderer}

/-- Signing fails before the message is touched, or it adds a record of which all lengths are
known. -/
theorem SignsWith.perform_cases (signs : o.SignsWith k macs other) (r : Renderer) :
    (∃ e, e ≠ RenderError.tooBig ∧ o.perform r = (.error e, r)) ∨
      ∃ t : Tsig, t.algorithm = k.algorithmName ∧ t.time = r.time ∧
        t.mac.octets.length = k.macLength ∧ t.other.octets = other ∧
        o.perform r = r.addTsigRecord k.name t := by
  cases signs with
  | alone fudge originalId error requestMac =>
    rcases addTsig_cases _ k.algorithmName r with failed | ⟨draft, t, drafted, signed, run⟩
    · exact .inl failed
    · obtain ⟨mac, parts⟩ := Key.sign_ok signed
      obtain ⟨algorithm, timed, length, others⟩ := Key.completed_parts drafted mac parts
      exact .inr ⟨t, algorithm, timed, length, others, run⟩
  | next c fudge originalId error requestMac =>
    rcases signNext_cases c _ r with failed | ⟨draft, t, next, drafted, signed, run⟩
    · exact .inl failed
    · obtain ⟨mac, parts, -⟩ := Key.signNext_ok signed
      obtain ⟨algorithm, timed, length, others⟩ := Key.completed_parts drafted mac parts
      exact .inr ⟨t, algorithm, timed, length, others, run⟩

end Operation

/-! ## The room that a signature takes

Between the record that was composed and the message that results lies the number of additional
records, which is written into the header. It changes neither the size nor anything behind the
header. The record is found by reading at the old end of the message, and it ends where the message
ends. That its name is read back is not a matter of sizes: it comes from the table, which tells the
truth. -/

theorem holds_overwrite_iff {m : Array UInt8} {place pos : Nat} {o x : Octets}
    (front : place + o.length ≤ pos) :
    Holds (Octets.overwrite m place o) pos x ↔ Holds m pos x := by
  simp only [Holds, size_overwrite, getElem?_overwrite o (.inr (Nat.le_add_right_of_le front))]

namespace Renderer

variable {r r' : Renderer} {part : Section} {compose : Option Name → Composer Nat}

/-- An addition is too big only if what was composed is. -/
theorem add_tooBig (run : r.add part compose = (.error .tooBig, r')) :
    ∃ n d, compose r.origin r.draft = .ok n d ∧ r.maxSize < d.size := by
  simp only [add, enter] at run
  split at run
  · rename_i entered
    split at entered <;> cases entered
    cases run
  · rename_i entered
    split at entered <;> cases entered
    simp only [transaction] at run
    split at run
    · cases run
    · rename_i n d composed
      split at run
      · rename_i large
        exact ⟨n, d, composed, large⟩
      · split at run <;> cases run

variable {owner : Name} {t : Tsig}

theorem addTsigRecord_tooBig (run : r.addTsigRecord owner t = (.error .tooBig, r')) :
    ∃ n d, composeTsig owner t (!r.wasPadded) r.origin r.draft = .ok n d ∧ r.maxSize < d.size := by
  simp only [addTsigRecord] at run
  split at run
  · rename_i added
    cases run
    exact add_tooBig added
  · cases run

/-- The record that was composed is there, and only the header has changed since. -/
theorem addTsigRecord_octets (run : r.addTsigRecord owner t = (.ok (), r')) :
    ∃ n d counted, composeTsig owner t (!r.wasPadded) r.origin r.draft = .ok n d ∧
      HeaderSection.additionalCountOffset + counted.length = HeaderSection.length ∧
      r'.octets = Octets.overwrite d.octets HeaderSection.additionalCountOffset counted := by
  obtain ⟨r₁, added, rfl⟩ := addTsigRecord_ok run
  obtain ⟨-, n, d, composed, -, -, rfl⟩ := add_ok added
  exact ⟨n, d, Wire.uint16 _, composed, congrArg _ (Octets.length_ofNat 2 _), rfl⟩

/-- A message grows by a signature as the record that was composed does. -/
theorem addTsigRecord_size (owned : owner.absolute = true) (absolute : t.algorithm.absolute = true)
    (rootless : r.draft.Rootless) (header : HeaderSection.length ≤ r.size)
    (run : r.addTsigRecord owner t = (.ok (), r')) :
    r'.size ≤ r.size + (owner.wireLength + 10 + t.room) ∧
      (r.wasPadded = true ∨ owner = Name.root →
        r'.size = r.size + (owner.wireLength + 10 + t.room)) ∧
      (Holds r'.octets r.size owner.wire ↔
        r'.size = r.size + (owner.wireLength + 10 + t.room)) := by
  obtain ⟨n, d, counted, composed, front, octets⟩ := addTsigRecord_octets run
  obtain ⟨le, full, iff⟩ := composeTsig_size owned absolute rootless composed
  have size : r'.size = d.size := (congrArg Array.size octets).trans (size_overwrite _ _ _)
  rw [size, octets, holds_overwrite_iff (front ▸ header)]
  exact ⟨le, fun inFull => full (inFull.imp_left fun padded => by rw [padded]; rfl), iff⟩

/-- The record that was added is read where the message ended before, and the message ends with
it. -/
theorem addTsigRecord_read (owned : owner.absolute = true) (absolute : t.algorithm.absolute = true)
    (truth : r.TellsTruth) (run : r.addTsigRecord owner t = (.ok (), r')) :
    ∃ found algorithm, (found == owner) = true ∧ (algorithm == t.algorithm) = true ∧
      Record.read r'.octets r.size
        = .ok ⟨found, Class.any, 0, .tsig (t.foundAs algorithm)⟩ r'.size := by
  obtain ⟨n, d, counted, composed, front, octets⟩ := addTsigRecord_octets run
  obtain ⟨-, -, found, algorithm, ho, ha, finds⟩ :=
    composeTsig_found truth.covered truth.sound composed
  have size : r'.size = d.size := (congrArg Array.size octets).trans (size_overwrite _ _ _)
  refine ⟨found, algorithm, ho.beq_of_absolute owned, ha.beq_of_absolute absolute, ?_⟩
  -- What was counted is in the header, and the names of the record do not lead there.
  rw [octets, size]
  exact finds _ (d.overwrite_keeps (Nat.le_of_eq front))

/-! ## Room that is held back

Every operation but `releaseReserved` either adds something, and then what it added has fitted into
the present maximum, or leaves the size alone and moves room between the two numbers at most.
`HoldsBack` is what comes of this: so much room is held back, and the message has not grown into it.
It is kept by every operation that does not release, and therefore by every run of such operations.
-/

/-- What is lost by no operation but one: room that is held back, unless it is given back, and the
mark that the message was padded. -/
structure Retains (r r' : Renderer) : Prop where
  reserved : r.reserved ≤ r'.reserved
  padded : r.wasPadded = true → r'.wasPadded = true

theorem Retains.of_eq (reserved : r'.reserved = r.reserved) (padded : r'.wasPadded = r.wasPadded) :
    r.Retains r' :=
  ⟨Nat.le_of_eq reserved.symm, fun h => padded.trans h⟩

theorem add_retains (run : r.add part compose = (.ok (), r')) : r.Retains r' := by
  obtain ⟨-, n, d, -, -, -, rfl⟩ := add_ok run
  exact .of_eq rfl rfl

/-- Only padding changes the mark. -/
theorem addOpt_retains {o : OptRecord} {pad optSize tsigSize : Nat}
    (run : r.addOpt o pad optSize tsigSize = (.ok (), r')) :
    r.Retains r' ∧ (0 < pad → r'.wasPadded = true) := by
  simp only [addOpt] at run
  split at run
  · rename_i none
    exact ⟨add_retains run, fun some => absurd none (Nat.ne_of_gt some)⟩
  · split at run
    · cases run
    · split at run
      · cases run
      · split at run
        · cases run
        · rename_i r₁ added
          cases run
          have retained : r.Retains r₁ := add_retains added
          exact ⟨⟨retained.reserved, fun _ => rfl⟩, fun _ => rfl⟩

theorem addTsigRecord_retains (run : r.addTsigRecord owner t = (.ok (), r')) : r.Retains r' := by
  obtain ⟨r₁, added, rfl⟩ := addTsigRecord_ok run
  have retained : r.Retains r₁ := add_retains added
  exact ⟨retained.reserved, retained.padded⟩

theorem addTsigRecord_size_le (run : r.addTsigRecord owner t = (.ok (), r')) :
    r.size ≤ r'.size := by
  obtain ⟨n, d, counted, composed, -, octets⟩ := addTsigRecord_octets run
  have size : r'.size = d.size := (congrArg Array.size octets).trans (size_overwrite _ _ _)
  rw [size]
  exact ((composeTsig_built owner t _ _).confined.grows composed).size_le

/-- So much room is held back, and the message has not grown into it. -/
structure HoldsBack (room : Nat) (r : Renderer) : Prop where
  reserved : room ≤ r.reserved
  free : r.size + room ≤ r.maxSize + r.reserved

end Renderer

open Renderer

variable {r r' : Renderer}

theorem Call.perform_retains {c : Call} (other : c ≠ .releaseReserved)
    (run : c.perform r = (.ok (), r')) : r.Retains r' := by
  cases c with
  | enter part =>
    simp only [perform, Renderer.enter] at run
    split at run <;> cases run
    exact .of_eq rfl rfl
  | addQuestion q => exact add_retains run
  | addRdataset part owner set form => exact add_retains run
  | addRrset part set form => exact add_retains run
  | addOpt o pad optSize tsigSize => exact (addOpt_retains run).1
  | addEdns version flags payloadSize options =>
    have run : r.addOpt (.forVersion version flags payloadSize options) 0 0 0 = (.ok (), r') := run
    exact (addOpt_retains run).1
  | reserve room =>
    simp only [perform, Renderer.reserve] at run
    split at run <;> cases run
    exact ⟨Nat.le_add_right _ _, id⟩
  | releaseReserved => exact absurd rfl other
  | setFlags | setTime =>
    cases run
    exact .of_eq rfl rfl
  | writeHeader =>
    cases run
    rw [Renderer.writeHeader]
    exact .of_eq rfl rfl

theorem Call.perform_size_le {c : Call} (run : c.perform r = (.ok (), r')) : r.size ≤ r'.size := by
  by_cases header : c = .writeHeader
  · subst header
    exact Nat.le_of_eq (perform_accounts (c := .writeHeader) rfl run).2.symm
  · exact (perform_keeps run header).1

namespace Operation

variable {room : Nat}

theorem perform_retains {o : Operation} (other : o ≠ .call .releaseReserved)
    (run : o.perform r = (.ok (), r')) : r.Retains r' := by
  cases o with
  | call c => exact c.perform_retains (fun is => other (congrArg call is)) run
  | sign | signNext =>
    obtain ⟨owner, t, added⟩ := signature_of_ok run fun _ is => by cases is
    exact addTsigRecord_retains added

theorem perform_size_le {o : Operation} (run : o.perform r = (.ok (), r')) : r.size ≤ r'.size := by
  cases o with
  | call c => exact c.perform_size_le run
  | sign | signNext =>
    obtain ⟨owner, t, added⟩ := signature_of_ok run fun _ is => by cases is
    exact addTsigRecord_size_le added

theorem Restored.holdsBack {asked : Option Section} (same : Restored asked r r')
    (h : r.HoldsBack room) : r'.HoldsBack room where
  reserved := same.reserved ▸ h.reserved
  free := by
    rw [same.size, same.maxSize, same.reserved]
    exact h.free

theorem perform_holdsBack {o : Operation} (h : r.HoldsBack room)
    (other : o ≠ .call .releaseReserved) (run : o.perform r = (.ok (), r')) :
    r'.HoldsBack room := by
  have held := (perform_retains other run).reserved
  have reserved := h.reserved
  refine ⟨Nat.le_trans h.reserved held, ?_⟩
  cases addition : o.isAddition with
  | true =>
    -- What was added fits into what is not held back.
    have fits := (perform_extends addition run).fits
    omega
  | false =>
    cases o with
    | call c =>
      obtain ⟨accounts, size⟩ := c.perform_accounts addition run
      rw [size, accounts.room]
      exact h.free
    | sign | signNext => cases addition

/-- Room stays held back, whatever succeeds and whatever fails, until it is given back. -/
theorem run_holdsBack (operations : List Operation)
    (others : ∀ o ∈ operations, o ≠ .call .releaseReserved) (bounded : r.draft.Bounded)
    (h : r.HoldsBack room) : (run operations r).HoldsBack room :=
  run_keeps (P := HoldsBack room) operations
    (fun o mem _ _ _ held result => perform_holdsBack held (others o mem) result)
    (fun same held => Restored.holdsBack same held) bounded h

/-! ## Reservations -/

variable {k : Key} {macs : MacFunction} {other : Octets} {o : Operation}

/-- The record of a key takes the room that the key tells, and the octets of the other data. -/
theorem room_of_key {t : Tsig} (algorithm : t.algorithm = k.algorithmName)
    (length : t.mac.octets.length = k.macLength) (others : t.other.octets = other) :
    k.name.wireLength + 10 + t.room = k.reserveLength + other.length := by
  rw [Tsig.room, algorithm, length, others, Key.reserveLength]
  omega

/-- A signature takes the room that was reserved for it or less, and all of it exactly if the name
of the key is written in full. -/
theorem SignsWith.size (signs : o.SignsWith k macs other) (rootless : r.draft.Rootless)
    (header : HeaderSection.length ≤ r.size) (run : o.perform r = (.ok (), r')) :
    r'.size ≤ r.size + (k.reserveLength + other.length) ∧
      (r.wasPadded = true ∨ k.name = Name.root →
        r'.size = r.size + (k.reserveLength + other.length)) ∧
      (Holds r'.octets r.size k.name.wire ↔
        r'.size = r.size + (k.reserveLength + other.length)) := by
  rcases signs.perform_cases r with ⟨e, -, failed⟩ | ⟨t, algorithm, -, length, others, added⟩
  · rw [failed] at run
    cases run
  · rw [added] at run
    rw [← room_of_key algorithm length others]
    exact addTsigRecord_size k.absolute (algorithm ▸ k.algorithm.name_absolute) rootless header run

/-- A signature that a key has added: its record stands behind what was there before and ends the
message, and it tells the names of the key, the time, the signature and the other data. -/
structure SignatureBetween (k : Key) (other : Octets) (r r' : Renderer) (owner : Name) (t : Tsig) :
    Prop where
  read : Record.read r'.octets r.size = .ok ⟨owner, Class.any, 0, .tsig t⟩ r'.size
  owner : (owner == k.name) = true
  algorithm : (t.algorithm == k.algorithmName) = true
  time : t.time = .ofUInt64 r.time.seconds
  mac : t.mac.octets = r'.mac
  length : t.mac.octets.length = k.macLength
  other : t.other.octets = other

/-- What signing adds is a signature. -/
theorem SignsWith.between (signs : o.SignsWith k macs other) (truth : r.TellsTruth)
    (run : o.perform r = (.ok (), r')) : ∃ owner t, SignatureBetween k other r r' owner t := by
  rcases signs.perform_cases r with
    ⟨e, -, failed⟩ | ⟨t, algorithm, timed, length, others, added⟩
  · rw [failed] at run
    cases run
  · rw [added] at run
    obtain ⟨found, named, owned, equal, read⟩ :=
      addTsigRecord_read k.absolute (algorithm ▸ k.algorithm.name_absolute) truth run
    obtain ⟨r₁, -, rfl⟩ := addTsigRecord_ok run
    exact ⟨found, t.foundAs named, read, owned, algorithm ▸ equal, by rw [Tsig.foundAs, timed], rfl,
      length, others⟩

/-- A signature is not too big if the room that was reserved for it is there. -/
theorem SignsWith.not_tooBig (signs : o.SignsWith k macs other) (rootless : r.draft.Rootless)
    (room : r.size + (k.reserveLength + other.length) ≤ r.maxSize) :
    (o.perform r).1 ≠ .error .tooBig := by
  intro big
  rcases signs.perform_cases r with
    ⟨e, differs, failed⟩ | ⟨t, algorithm, -, length, others, added⟩
  · rw [failed] at big
    cases big
    exact differs rfl
  · rw [added] at big
    -- Only the record itself can be too big, and it takes no more room than there is.
    obtain ⟨n, d, composed, large⟩ := addTsigRecord_tooBig (r := r) (Prod.ext big rfl)
    have size := (composeTsig_size k.absolute (algorithm ▸ k.algorithm.name_absolute) rootless
      composed).1
    rw [room_of_key algorithm length others] at size
    have le : d.size ≤ r.maxSize := Nat.le_trans size room
    omega

/-- What holds of a renderer whatever was done to it. -/
structure Reached (r : Renderer) : Prop where
  bounded : r.draft.Bounded
  rootless : r.draft.Rootless
  truth : r.TellsTruth

theorem Reached.run (h : Reached r) (operations : List Operation) : Reached (run operations r) :=
  ⟨run_bounded operations h.bounded, run_rootless operations h.bounded h.rootless,
    run_tellsTruth operations h.bounded h.truth⟩

theorem reached (id flags : UInt16) (total : Nat) (origin : Option Name) (time : Time48)
    (operations : List Operation) : Reached (run operations (start id flags total origin time)) :=
  have begun : Reached (start id flags total origin time) :=
    ⟨start_bounded id flags total origin time, Draft.rootless_of_empty _,
      start_tellsTruth id flags total origin time⟩
  begun.run operations

theorem reserve_holdsBack {held : Renderer} (reserved : r.reserve room = (.ok (), held))
    (fits : held.size ≤ held.maxSize) : held.HoldsBack room ∧ held.draft = r.draft := by
  simp only [Renderer.reserve] at reserved
  split at reserved
  · cases reserved
  · cases reserved
    refine ⟨⟨Nat.le_add_left _ _, ?_⟩, rfl⟩
    show r.size + room ≤ r.maxSize - room + (r.reserved + room)
    have fits : r.size ≤ r.maxSize - room := fits
    omega

/-- Whatever was done to a renderer: a signature by a key puts a record of that key at the end of
the message. The record takes the octets that the key tells to reserve and those of the other data,
or fewer, and exactly as many if the name of the key is written in full. And if so many octets have
been held back since the message was no longer than it could be then, then there is room for the
signature once they are given back, whatever was done meanwhile. -/
theorem reservation_suffices (k : Key) (macs : MacFunction) (other : Octets) (id flags : UInt16)
    (total : Nat) (origin : Option Name) (time : Time48) (before : List Operation) :
    let r := run before (start id flags total origin time)
    (∀ (o : Operation) (r' : Renderer), o.SignsWith k macs other → o.perform r = (.ok (), r') →
      (∃ owner t, SignatureBetween k other r r' owner t) ∧
        r'.size ≤ r.size + (k.reserveLength + other.length) ∧
        (Holds r'.octets r.size k.name.wire ↔
          r'.size = r.size + (k.reserveLength + other.length))) ∧
    ∀ (held : Renderer) (after : List Operation) (o : Operation),
      r.reserve (k.reserveLength + other.length) = (.ok (), held) → held.size ≤ held.maxSize →
      (∀ a ∈ after, a ≠ .call .releaseReserved) → o.SignsWith k macs other →
      (o.perform (run after held).releaseReserved).1 ≠ .error .tooBig := by
  intro r
  have state := reached id flags total origin time before
  constructor
  · intro o r' signs performed
    obtain ⟨le, -, iff⟩ := signs.size state.rootless state.truth.size performed
    exact ⟨signs.between state.truth performed, le, iff⟩
  · intro held after o reserved fits kept signs
    obtain ⟨there, same⟩ := reserve_holdsBack reserved fits
    -- Holding room back leaves the message alone, and so all that is known of its draft is known of
    -- the renderer that holds the room back.
    have bounded : held.draft.Bounded := same ▸ state.bounded
    have rootless : held.draft.Rootless := same ▸ state.rootless
    exact signs.not_tooBig (run_rootless after bounded rootless)
      (run_holdsBack after kept bounded there).free

/-- All room but for the header is held back, so that a record has none, but the signature has. The
key is named after the root, which is always written in full, and so its record takes all of the
room. -/
theorem reservation_suffices_exactly :
    let k : Key := ⟨Name.root, .sha256, [1, 2, 3], rfl⟩
    let other : Octets := [0, 0, 0, 0, 0, 1]
    let signature : Operation := .sign
      ⟨k.signing .hmac, k.name, 300, 1, TsigRcode.badTime, other, none⟩ k.algorithmName
    let record : Operation := .call (.addRdataset .answer Name.root
      (.ofRdata Class.internet 60 (.a ⟨[192, 0, 2, 1], rfl⟩)) { canonical := true })
    let r := run [] (start 1 0 90 none ⟨1000⟩)
    k.reserveLength + other.length = 78 ∧
    (∃ r', signature.perform r = (.ok (), r') ∧
      (∃ owner t, SignatureBetween k other r r' owner t) ∧
      r'.size = r.size + 78 ∧ Holds r'.octets r.size k.name.wire) ∧
    ∃ held, r.reserve 78 = (.ok (), held) ∧ held.size = held.maxSize ∧
      (record.perform held).1 = .error .tooBig ∧
      (signature.perform (run [record] held).releaseReserved).1 ≠ .error .tooBig := by
  intro k other signature record r
  obtain ⟨sizes, room⟩ := reservation_suffices k .hmac other 1 0 90 none ⟨1000⟩ []
  have signs : signature.SignsWith k .hmac other := .alone 300 1 TsigRcode.badTime none
  have rootless : r.draft.Rootless := Draft.rootless_of_empty _
  obtain ⟨r', signed⟩ := exists_addTsig (r := r) k .hmac 300 1 TsigRcode.badTime other none rootless
    (by decide) (by decide) (by decide) (fun mac h => by cases h)
  have length : k.reserveLength + other.length = 78 := by decide
  have size : r'.size = r.size + 78 :=
    length ▸ (signs.size rootless (by decide) signed).2.1 (.inr rfl)
  rw [length] at sizes room
  obtain ⟨between, -, iff⟩ := sizes signature r' signs signed
  -- With 78 octets held back, the maximum is that of the header alone.
  let held : Renderer := { start 1 0 12 none ⟨1000⟩ with
    reserved := 78
    draft := ⟨#[0, 0, 0, 0, 0, 0, 0, 0, 0, 0, 0, 0], CompressionTable.empty⟩ }
  have reserved : r.reserve 78 = (.ok (), held) := rfl
  have failed : (record.perform held).1 = .error .tooBig := by
    simp only [record, held, Operation.perform, Call.perform, Renderer.addRdataset, Renderer.add,
      Rdataset.compose_ofRdata]
    rfl
  have kept : record ≠ .call .releaseReserved := by simp [record]
  exact ⟨length, ⟨r', signed, between, size, iff.mpr size⟩, held, reserved, rfl, failed,
    room held [record] signature reserved (by decide) (List.forall_mem_singleton.mpr kept) signs⟩

end Operation

end Dns
