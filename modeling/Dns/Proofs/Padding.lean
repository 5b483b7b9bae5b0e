import Dns.Proofs.Reservations

/-!
# Padded messages

A padded message has a size that is a multiple of its block, once the signature that was foreseen is
added. Three sizes have to agree for this that are counted independently: that of the options, from
their data (`OptRecord.wireLength`); that of the padding, from the size of the message
(`Renderer.paddingLength`); and that of the signature, from its key (`Key.reserveLength`). The first
is the number of octets that are composed (`OptRecord.length_wire`), since the root is always a
single octet. The last one counts the name of the key in full, and so names are written in full once
a message has been padded. A pointer there would make the signature shorter than foreseen, and the
message would miss its block by as much.

So the mark that a message was padded is not a detail of rendering. It is the reason why the last
part of `padded_to_block` has no condition on the names in the message: the name of the key may have
been written before, and a pointer to it would be there for the taking. What has to be shown of the
mark is that no operation takes it away again (`perform_wasPadded`).

Between the padding and the signature there may be any operations that add nothing: calls that fail,
a reservation that is given back, the header. `run_size_eq` says that the message keeps its size
through them.
-/

set_option autoImplicit false

namespace Dns

/-! ## OPT records

An OPT record is always owned by the root and is therefore octets alone, with one meaning at any
place (`readAs_wire`). That the root is not in the table is what this rests on. It has no name in it
but the one octet of its owner, and so its size is the one that was counted and does not depend on
what was written before. -/

theorem Name.readAs_root : ReadAs [0] Name.read root := by
  intro m p hold
  exact readLabels_root hold (Nat.le_of_ble_eq_true rfl)

theorem RecordData.readAs_read {rtype : Rtype} {octets : Octets} {data : RecordData}
    (h : ReadAs octets (readForm rtype octets.length) data) :
    ReadAs octets (read rtype octets.length) data := by
  intro m p hold
  have inside := hold.1
  rw [read, if_neg (by omega), h m p hold]
  simp only [if_true]

/-- A record of the root is read back if its data are. -/
theorem Record.readAs_wireBehindOwner {rtype : Rtype} {recordClass : Class} {ttl : UInt32}
    {data : RecordData} {octets : Octets} (short : octets.length ≤ 65535)
    (h : ReadAs octets (RecordData.readForm rtype octets.length) data) :
    ReadAs ([0] ++ wireBehindOwner rtype recordClass ttl octets) Record.read
      ⟨Name.root, recordClass, ttl, data⟩ := by
  have number : (UInt16.ofNat octets.length).toNat = octets.length := by
    rw [UInt16.toNat_ofNat']
    exact Nat.mod_eq_of_lt (Nat.lt_succ_of_le short)
  have length : ReadAs (Octets.ofNat 2 octets.length) Reader.uint16 (.ofNat octets.length) := by
    have key := readAs_uint16 (.ofNat octets.length)
    rwa [Wire.uint16, number] at key
  rw [wireBehindOwner, List.append_assoc, List.append_assoc]
  refine Name.readAs_root.bind <| (readAs_rtype _).bind <| (readAs_class recordClass).bind <|
    (readAs_uint32 ttl).bind <| length.bind ?_
  rw [number]
  exact (RecordData.readAs_read h).map _

namespace EdnsOption

theorem length_wire (o : EdnsOption) : o.wire.length = o.wireLength := by
  have width : Registered.width OptionCode = 2 := rfl
  simp only [wire, OptionCode.wire, Registered.wire, Data.wire, List.length_append,
    Octets.length_ofNat, wireLength, width]
  cases o with
  | padding length =>
    have zeros : (Data.zeros length).octets.length = length.toNat := List.length_replicate
    simp only [data, dataLength, zeros]
    omega
  | unknown code data =>
    simp only [EdnsOption.data, dataLength]
    omega

end EdnsOption

namespace OptRecord

variable {o : OptRecord} {d d' : Draft}

/-- The options as data of a record. -/
def dataWire (o : OptRecord) : Octets := o.options.flatMap EdnsOption.wire

def wire (o : OptRecord) : Octets :=
  [0] ++ Record.wireBehindOwner Rtype.opt ⟨o.payloadSize⟩ o.flags o.dataWire

theorem length_dataWire (o : OptRecord) : o.dataWire.length = o.dataLength := by
  obtain ⟨payloadSize, flags, options⟩ := o
  induction options with
  | nil => rfl
  | cons option rest ih =>
    have tail : (rest.flatMap EdnsOption.wire).length
        = rest.foldr (fun option length => option.wireLength + length) 0 := ih
    rw [dataWire, List.flatMap_cons, List.length_append, option.length_wire, tail]
    rfl

/-- The number of octets that an OPT record is said to have is the one that it has. -/
theorem length_wire (o : OptRecord) : o.wire.length = o.wireLength := by
  rw [wire, List.length_append, Record.length_wireBehindOwner, length_dataWire, wireLength]
  show 1 + (10 + o.dataLength) = 11 + o.dataLength
  omega

theorem wireLength_withOption (o : OptRecord) (option : EdnsOption) :
    (o.withOption option).wireLength = o.wireLength + option.wireLength := by
  rw [← length_wire, ← length_wire, ← option.length_wire]
  simp only [wire, dataWire, withOption, List.length_append, Record.length_wireBehindOwner,
    List.flatMap_append, List.flatMap_singleton]
  omega

/-- An OPT record is the same octets wherever it stands. -/
theorem compose_ok {origin : Option Name} {n : Nat} (rootless : d.Rootless)
    (run : o.toRrset.rdataset.compose o.toRrset.name true origin {} d = .ok n d') :
    o.dataWire.length ≤ 65535 ∧ d' = d.put o.wire := by
  have run : ((Rdataset.ofRdata ⟨o.payloadSize⟩ o.flags (.opt o.options)).compose Name.root true
    origin {}) d = .ok n d' := run
  rw [Rdataset.compose_ofRdata] at run
  obtain ⟨_, d₂, record, last⟩ := Composer.bind_ok run
  cases last
  obtain ⟨_, d₁, owned, behind⟩ := Composer.bind_ok record
  have owned : Name.root.compose true origin false d = .ok () d₁ := owned
  rw [Name.compose_root rootless] at owned
  cases owned
  obtain ⟨short, rfl⟩ := Composer.behindOwner_ok behind
  refine ⟨short, ?_⟩
  simp only [Draft.put, append_append_octets, wire]
  rfl

/-- An OPT record is read back. -/
theorem readAs_wire (documented : ∀ option ∈ o.options, option.Documented)
    (short : o.dataWire.length ≤ 65535) :
    ReadAs o.wire Record.read ⟨Name.root, ⟨o.payloadSize⟩, o.flags, .opt o.options⟩ := by
  have form : RecordData.readForm Rtype.opt = fun length => RecordData.readKind length .opt :=
    funext (RecordData.readForm_of_kind? (d := .opt o.options) rfl)
  refine Record.readAs_wireBehindOwner short ?_
  rw [form]
  exact RecordData.readAs_options documented

end OptRecord

/-! ## The padding

How many octets of padding are added is computed from a size in which the padding option counts with
its code and its length. If that size is a multiple of the block already, the padding is empty, and
the option is there nevertheless. The size is that of the message with its signature where one is to
follow. What is padded is then a message that is not there yet. -/

namespace Renderer

theorem paddingLength_lt {block : Nat} (some : 0 < block) (length : Nat) :
    paddingLength block length < block := Nat.mod_lt _ some

theorem dvd_add_paddingLength {block : Nat} (some : 0 < block) (length : Nat) :
    block ∣ length + paddingLength block length := by
  have parts := Nat.div_add_mod length block
  have rest := Nat.mod_lt length some
  rw [paddingLength]
  -- The remainder modulo the block is taken twice, so that a full block is not filled again.
  by_cases whole : length % block = 0
  · rw [whole, Nat.sub_zero, Nat.mod_self]
    exact Nat.dvd_of_mod_eq_zero whole
  · rw [Nat.mod_eq_of_lt (by omega)]
    refine ⟨length / block + 1, ?_⟩
    rw [Nat.mul_succ]
    omega

variable {r r' : Renderer} {o : OptRecord} {pad optSize tsigSize : Nat}

/-- Options that are padded are followed by a padding option of the computed length. -/
theorem addOpt_padded (some : 0 < pad) (run : r.addOpt o pad optSize tsigSize = (.ok (), r')) :
    ∃ padding : UInt16, padding.toNat = paddingLength pad (r.size + optSize + tsigSize) ∧
      ∃ n d, (o.withOption (.padding padding)).toRrset.rdataset.compose Name.root true r.origin {}
        r.draft = .ok n d ∧ r'.draft = d := by
  have other : ¬pad = 0 := Nat.ne_of_gt some
  simp only [addOpt, other, if_false] at run
  split at run
  · cases run
  · split at run
    · cases run
    · rename_i short
      split at run
      · cases run
      · rename_i r₁ added
        cases run
        obtain ⟨-, n, d, composed, -, -, rfl⟩ := add_ok added
        refine ⟨.ofNat _, ?_, n, d, composed, rfl⟩
        rw [UInt16.toNat_ofNat']
        exact Nat.mod_eq_of_lt (Nat.lt_succ_of_le (Nat.le_of_not_lt short))

/-- Options that are padded fill a block with the signature that was foreseen, and they are read
back. -/
theorem addOpt_fills (some : 0 < pad) (rootless : r.draft.Rootless)
    (run : r.addOpt o pad o.paddedWireLength tsigSize = (.ok (), r')) :
    ∃ padding : UInt16, padding.toNat < pad ∧
      r'.size = r.size + o.paddedWireLength + padding.toNat ∧ pad ∣ r'.size + tsigSize ∧
      ((∀ option ∈ o.options, option.Documented) → Record.read r'.octets r.size
        = .ok ⟨Name.root, ⟨o.payloadSize⟩, o.flags, .opt (o.options ++ [.padding padding])⟩
          r'.size) := by
  obtain ⟨padding, length, n, d, composed, draft⟩ := addOpt_padded some run
  obtain ⟨short, rfl⟩ := OptRecord.compose_ok rootless composed
  have octets : r'.octets = r.octets ++ (o.withOption (.padding padding)).wire :=
    congrArg Draft.octets draft
  have stop : r'.size = r.size + (o.withOption (.padding padding)).wire.length :=
    (congrArg Array.size octets).trans (size_append_octets _ _)
  have size : r'.size = r.size + o.paddedWireLength + padding.toNat := by
    rw [stop, OptRecord.length_wire, OptRecord.wireLength_withOption, OptRecord.paddedWireLength]
    show r.size + (o.wireLength + (4 + padding.toNat)) = r.size + (o.wireLength + 4) + _
    omega
  refine ⟨padding, ?_, size, ?_, fun documented => ?_⟩
  · rw [length]
    exact paddingLength_lt some _
  · -- The padding was made for the size with the padding option in it and with the signature to
    -- come.
    have multiple := dvd_add_paddingLength some (r.size + o.paddedWireLength + tsigSize)
    rw [← length] at multiple
    rwa [size, Nat.add_right_comm]
  · have documented' : ∀ option ∈ o.options ++ [.padding padding], option.Documented :=
      List.forall_mem_append.mpr ⟨documented, List.forall_mem_singleton.mpr trivial⟩
    rw [octets, stop]
    exact OptRecord.readAs_wire documented' short _ _ (holds_append_size r.octets _)

end Renderer

/-! ## From the padding to the signature -/

open Renderer

variable {r r' : Renderer}

/-- A set without records is composed as nothing. -/
theorem Rdataset.compose_of_nil {set : Rdataset} {owner : Name} {compressed : Bool}
    {origin : Option Name} {form : RecordForm} {d d' : Draft} {n : Nat}
    (none : set.records owner = []) (run : set.compose owner compressed origin form d = .ok n d') :
    d' = d := by
  rw [compose, none] at run
  cases run
  rfl

/-- A message to which nothing is added keeps its size. -/
theorem Call.perform_size_eq {c : Call} (nothing : c.entries r = [])
    (run : c.perform r = (.ok (), r')) : r'.size = r.size := by
  cases effect_of_ok run with
  | question q entries =>
    rw [entries] at nothing
    cases nothing
  | records part owner set form r₁ wasPadded entries added same =>
    subst same
    rw [entries, recordsOf, List.map_eq_nil_iff] at nothing
    obtain ⟨-, n, d, composed, -, -, rfl⟩ := add_ok added
    exact congrArg Draft.size (Rdataset.compose_of_nil nothing composed)
  | header is =>
    subst is
    exact (perform_accounts (c := .writeHeader) rfl run).2
  | nothing _ draft => exact congrArg Draft.size draft

namespace Operation

theorem perform_size_eq {o : Operation} (nothing : o.parts r = [])
    (run : o.perform r = (.ok (), r')) : r'.size = r.size := by
  cases o with
  | call c => exact c.perform_size_eq (List.map_eq_nil_iff.mp nothing) run
  | sign | signNext => cases nothing

theorem perform_wasPadded {o : Operation} (padded : r.wasPadded = true)
    (run : o.perform r = (.ok (), r')) : r'.wasPadded = true := by
  by_cases release : o = .call .releaseReserved
  · subst release
    cases run
    exact padded
  · exact (perform_retains release run).padded padded

/-- Where nothing is added, a padded message keeps its size and its mark. -/
theorem run_size_eq (operations : List Operation) (nothing : written operations r = [])
    (bounded : r.draft.Bounded) (padded : r.wasPadded = true) :
    (run operations r).size = r.size ∧ (run operations r).wasPadded = true := by
  induction operations generalizing r with
  | nil => exact ⟨rfl, padded⟩
  | cons o rest ih =>
    rw [written] at nothing
    have step : run (o :: rest) r = run rest (o.perform r).2 := rfl
    rw [step]
    rcases result : o.perform r with ⟨outcome, r₁⟩
    rw [result] at nothing
    cases outcome with
    | ok =>
      obtain ⟨none, nothing⟩ := List.append_eq_nil_iff.mp nothing
      rw [← perform_size_eq none result]
      exact ih nothing (perform_bounded bounded result) (perform_wasPadded padded result)
    | error e =>
      have same := perform_error bounded result
      rw [← same.size]
      exact ih nothing (same.bounded bounded) (same.wasPadded.trans padded)

/-- Whatever was done to a renderer: once an OPT record has been added with padding, the message is
longer by that record and by less than a block of padding, and with the octets that were foreseen
for a signature it is a multiple of the block. The record is read back with its options and the
padding. And if nothing else is added until a key signs the message that was foreseen, then the
signed message is a multiple of the block, wherever its name may have stood before. -/
theorem padded_to_block (id flags : UInt16) (total : Nat) (origin : Option Name) (time : Time48)
    (before : List Operation) (opt : OptRecord) (pad foreseen : Nat) (r' : Renderer)
    (some : 0 < pad)
    (added : (run before (start id flags total origin time)).addOpt opt pad opt.paddedWireLength
      foreseen = (.ok (), r')) :
    let r := run before (start id flags total origin time)
    (∃ padding : UInt16, padding.toNat < pad ∧
      r'.size = r.size + opt.paddedWireLength + padding.toNat ∧ pad ∣ r'.size + foreseen ∧
      ((∀ option ∈ opt.options, option.Documented) → Record.read r'.octets r.size
        = .ok ⟨Name.root, ⟨opt.payloadSize⟩, opt.flags, .opt (opt.options ++ [.padding padding])⟩
          r'.size)) ∧
    ∀ (k : Key) (macs : MacFunction) (other : Octets) (between : List Operation) (o : Operation)
      (signed : Renderer), foreseen = k.reserveLength + other.length → written between r' = [] →
      o.SignsWith k macs other → o.perform (run between r') = (.ok (), signed) →
      pad ∣ signed.size := by
  intro r
  have state := reached id flags total origin time before
  have padding := addOpt_fills some state.rootless added
  refine ⟨padding, ?_⟩
  obtain ⟨_, -, -, whole, -⟩ := padding
  intro k macs other between o signed foreseen' nothing signs performed
  have step : (Operation.call (.addOpt opt pad opt.paddedWireLength foreseen)).perform r
      = (.ok (), r') := added
  have bounded' : r'.draft.Bounded := perform_bounded state.bounded step
  -- Whatever stands between the padding and the signature, the root is in no table, and so nothing
  -- else about it matters.
  have rootless' := run_rootless between bounded' (perform_rootless state.rootless step)
  obtain ⟨kept, padded⟩ := run_size_eq between nothing bounded' ((addOpt_retains added).2 some)
  have longer : HeaderSection.length ≤ (run between r').size := by
    rw [kept]
    exact Nat.le_trans state.truth.size (perform_size_le step)
  -- After padding, the name of the key takes all of the room that was foreseen for it.
  rw [(signs.size rootless' longer performed).2.1 (.inl padded), kept, ← foreseen']
  exact whole

/-- A message with a cookie is padded to 128 octets with a signature, and then signed. -/
theorem padded_to_block_signed :
    let k : Key := ⟨Name.root, .sha256, [1, 2, 3], rfl⟩
    let opt : OptRecord := ⟨1232, 0, [.unknown ⟨10⟩ ⟨[1, 2, 3, 4, 5, 6, 7, 8], by decide⟩]⟩
    let signature : Operation := .sign
      ⟨k.signing .hmac, k.name, 300, 1, TsigRcode.noError, [], none⟩ k.algorithmName
    let r := run [] (start 1 0 128 none ⟨1000⟩)
    ∃ r' signed, r.addOpt opt 128 opt.paddedWireLength 72 = (.ok (), r') ∧
      signature.perform (run [.call .writeHeader] r') = (.ok (), signed) ∧
      (∃ padding : UInt16, r'.size = r.size + 27 + padding.toNat ∧
        Record.read r'.octets r.size
          = .ok ⟨Name.root, ⟨1232⟩, 0, .opt (opt.options ++ [.padding padding])⟩ r'.size) ∧
      128 ∣ r'.size + 72 ∧ 128 ∣ signed.size := by
  intro k opt signature r
  let padded := (opt.withOption (.padding 17)).toRrset
  have composed : padded.rdataset.compose padded.name true none {} r.draft
      = .ok 1 (r.draft.put (opt.withOption (.padding 17)).wire) := by
    simp only [padded, r, OptRecord.toRrset, Rrset.ofRdata, Rdataset.compose_ofRdata,
      Record.compose, Bool.not_false, Bool.and_true, Bind.bind, EStateM.bind, run, List.foldl,
      Name.compose_root (Draft.rootless_of_empty _), start]
    cbv
  have added : r.add .additional
      (fun origin => padded.rdataset.compose padded.name true origin {}) = _ :=
    add_of_composed (by decide) composed (by decide) (by decide)
  -- The padding is determined by the size without it: what is left of the block of 128 octets is
  -- 17.
  have length : UInt16.ofNat (paddingLength 128 (r.size + opt.paddedWireLength + 72)) = 17 := rfl
  let r' : Renderer := { r with
    part := .additional
    counts := { additional := 1 }
    draft := r.draft.put (opt.withOption (.padding 17)).wire
    wasPadded := true }
  have added' : r.addOpt opt 128 opt.paddedWireLength 72 = (.ok (), r') := by
    simp only [addOpt, addRrset, addRdataset, length]
    rw [added]
    rfl
  obtain ⟨⟨padding, -, size, whole, read⟩, signing⟩ :=
    padded_to_block 1 0 128 none ⟨1000⟩ [] opt 128 72 r' (by decide) added'
  obtain ⟨signed, performed⟩ := exists_addTsig (r := run [.call .writeHeader] r') k .hmac 300 1
    TsigRcode.noError [] none (Draft.rootless_of_empty _) (by decide) (by decide) (by decide)
    (fun mac h => by cases h)
  refine ⟨r', signed, added', performed, ⟨padding, size, read ?_⟩, whole, ?_⟩
  · exact List.forall_mem_singleton.mpr (show OptionCode.mk 10 ≠ OptionCode.padding by decide)
  · exact signing k .hmac [] [.call .writeHeader] signature signed (by decide) rfl
      (.alone 300 1 TsigRcode.noError none) performed

end Operation

end Dns
