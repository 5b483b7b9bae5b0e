import Dns.Proofs.Names
import Dns.Proofs.Rollback

/-!
# Questions and records that are read back

`Composer.Writes` says of a composer and a reader that what the one composes on a sound draft is
read by the other, wherever the draft ends and however it goes on, and that the draft stays sound.
The rules for it follow the ways in which composers are put together, and so the proof for a type of
data has the shape of the code that composes it.

Octets in a fixed form are only one case of this. The other is a name, whose octets depend on the
table; and the third is a length in front of data. The two octets of the length are written twice,
and so they must not be relied on while the data are composed: among the places that are fixed, they
are left out until the length is known (`Composer.openAt`).

The reader of data is told how many octets they have, which the composer is not. That is why `read`
is a function of the length in `Writes`: most readers ignore it, those of strings and options go on
until it is used up, and `RecordData.read` compares it with where the data ended.

What is found is compared with what was added through `Record.completed`, which is the record with
the names in it completed and its class replaced. Equality of records does not look at letter case,
and it must not: a name that was compressed is read in the spelling to which its pointer leads. The
results at the end, `Record.compose_writes` and `Question.compose_writes`, are what a section of a
message is made of.
-/

set_option autoImplicit false

namespace Dns

variable {α β : Type}

namespace Composer

theorem put_put (a b : Octets) :
    (Composer.put a >>= fun _ => Composer.put b) = Composer.put (a ++ b) := by
  funext d
  exact congrArg (EStateM.Result.ok ()) (d.put_put a b)

/-- What is composed is read back as something that is `good`. The reader may ask for the number of
octets. -/
def Writes (c : Composer Unit) (read : (length : Nat) → Reader β) (good : β → Prop) : Prop :=
  ∀ (fixed : Nat → Prop) (d d' : Draft), (∀ i, d.size ≤ i → fixed i) → d.Sound fixed →
    c d = .ok () d' → d.Grows d' ∧ d'.Sound fixed ∧
      ∃ b, good b ∧ (read (d'.size - d.size)).Finds fixed d'.octets b d.size d'.size

namespace Writes

variable {c c₁ c₂ : Composer Unit} {good : β → Prop}

/-- Octets that mean the same everywhere. -/
theorem put {o : Octets} {read : Nat → Reader β} {b : β} (h : ReadAs o (read o.length) b)
    (is : good b) : (Composer.put o).Writes read good := by
  intro fixed d d' covered sound run
  cases run
  have size : (d.put o).size = d.size + o.length := size_append_octets d.octets o
  refine ⟨.put d o, sound.put o, b, is, ?_⟩
  rw [size, Nat.add_sub_cancel_left]
  exact h.finds (stands_append o covered)

/-- One after the other. -/
theorem bind {read : Reader α} {k : α → Reader β} {first : α → Prop}
    (h : c₁.Writes (fun _ => read) first) (g : ∀ a, first a → c₂.Writes (fun _ => k a) good) :
    (c₁ >>= fun _ => c₂).Writes (fun _ => read >>= k) good := by
  intro fixed d d' covered sound run
  obtain ⟨_, d₁, run₁, run⟩ := bind_ok run
  -- The first value is found in the draft `d₁`. Going on to `d'` only adds to it, so it is found
  -- there, too; and the second composer starts on a draft that is sound again.
  obtain ⟨grown₁, sound₁, a, isA, findsA⟩ := h fixed d d₁ covered sound run₁
  obtain ⟨grown₂, sound₂, b, isB, findsB⟩ :=
    g a isA fixed d₁ d' (fun i hi => covered i (Nat.le_trans grown₁.size_le hi)) sound₁ run
  have kept := grown₂.kept.mono fun i _ (_ : fixed i) => trivial
  exact ⟨grown₁.trans grown₂, sound₂, b, isB, (findsA.keeps kept fun _ _ hf => hf).bind findsB⟩

/-- Octets that mean the same everywhere, in front of something else. -/
theorem putBind {o : Octets} {read : Reader α} {k : α → Reader β} {a : α} (h : ReadAs o read a)
    (g : c.Writes (fun _ => k a) good) :
    (Composer.put o >>= fun _ => c).Writes (fun _ => read >>= k) good :=
  have first : (Composer.put o).Writes (fun _ => read) fun x => x = a := put h rfl
  first.bind fun _ is => is ▸ g

/-- Octets that may not be there, in front of something else. -/
theorem putOrFailBind {o : Except ComposeError Octets} {read : Reader α} {k : α → Reader β} {a : α}
    (h : ∀ octets, o = .ok octets → ReadAs octets read a) (g : c.Writes (fun _ => k a) good) :
    (Composer.putOrFail o >>= fun _ => c).Writes (fun _ => read >>= k) good := by
  cases o with
  | ok octets => exact putBind (h octets rfl) g
  | error e =>
    intro fixed d d' _ _ run
    cases run

/-- The last field, with which a value is made. -/
theorem map {read : Reader α} {first : α → Prop} {f : α → β} (h : c.Writes (fun _ => read) first)
    (is : ∀ a, first a → good (f a)) : c.Writes (fun _ => f <$> read) good :=
  fun fixed d d' covered sound run =>
    let ⟨grown, sound', a, isA, finds⟩ := h fixed d d' covered sound run
    ⟨grown, sound', f a, is a isA, finds.functor f⟩

end Writes

/-! ## Lengths in front of data

When data are longer than 65535 octets, composing them fails; `lengthPrefixed_ok` is about the other
case. That the data have only been added behind the two octets for the length is a premise in it,
and not a conclusion, because it depends on the composer of the data. The octets of the data are
composed with two zeros in front of them, in which the length is written afterwards. A name that was
noted meanwhile stands behind these two octets, so that what the table says stays true. -/

/-- What stands where after data were composed behind their length. -/
theorem lengthPrefixed_ok {c : Composer Unit} {d d' : Draft}
    (run : lengthPrefixed c d = .ok () d') :
    ∃ d₁, c (d.put [0, 0]) = .ok () d₁ ∧ d₁.size - (d.size + 2) ≤ 65535 ∧
      ((d.put [0, 0]).Grows d₁ → d'.table = d₁.table ∧ d'.size = d₁.size ∧
        Holds d'.octets d.size (Octets.ofNat 2 (d₁.size - (d.size + 2))) ∧
        ∀ i, i < d.size ∨ d.size + 2 ≤ i → d'.octets[i]? = d₁.octets[i]?) := by
  simp only [lengthPrefixed] at run
  split at run
  · cases run
  · rename_i d₁ inner
    refine ⟨d₁, inner, ?_⟩
    split at run
    · cases run
    · rename_i short
      refine ⟨Nat.le_of_not_lt short, fun grown => ?_⟩
      split at run
      · cases run
        have size : (d.put [0, 0]).octets.size = d.size + 2 := size_append_octets d.octets [0, 0]
        have room := grown.kept.1
        rw [size] at room
        exact ⟨rfl, size_overwrite _ _ _, holds_overwrite _ room,
          fun i hi => getElem?_overwrite _ hi⟩
      · rename_i none
        cases run
        refine ⟨rfl, rfl, ?_, fun _ _ => rfl⟩
        rw [Nat.eq_zero_of_not_pos none]
        -- There are no data, and the zeros that stood in for the length are right.
        have zeros : Stands Draft.everywhere (d.put [0, 0]).octets d.size [0, 0] :=
          stands_append (m := d.octets) [0, 0] fun _ _ => trivial
        exact (zeros.keeps grown.kept fun _ _ _ => trivial).holds

/-- Octets behind their length. -/
theorem lengthPrefixed_put_ok {o : Octets} {d d' : Draft}
    (run : lengthPrefixed (put o) d = .ok () d') :
    o.length ≤ 65535 ∧ d' = d.put (Octets.ofNat 2 o.length ++ o) := by
  -- The octets are in two pieces, a length that was written over zeros and the data behind it. What
  -- has to be seen is that this is the same as putting both at once.
  obtain ⟨d₁, inner, short, rest⟩ := lengthPrefixed_ok run
  cases inner
  obtain ⟨table, size, length, others⟩ := rest (.put _ o)
  have begun : (d.put [0, 0]).octets.size = d.size + 2 := size_append_octets d.octets [0, 0]
  have ended : ((d.put [0, 0]).put o).size = d.size + 2 + o.length := by
    rw [← begun]
    exact size_append_octets _ o
  have two : (Octets.ofNat 2 o.length).length = 2 := Octets.length_ofNat 2 _
  have added : ((d.put [0, 0]).put o).size - (d.size + 2) = o.length := by omega
  rw [added] at short length
  have data : Holds d'.octets (d.size + 2) o := by
    refine ⟨Nat.le_of_eq (ended.symm.trans size.symm), fun i hi => ?_⟩
    rw [others _ (.inr (Nat.le_add_right _ _)), ← begun]
    exact (holds_append_size (d.put [0, 0]).octets o).2 i hi
  have kept : Keeps Draft.everywhere d.octets d'.octets := by
    refine ⟨?_, fun i hi _ => ?_⟩
    · show d.size ≤ d'.size
      omega
    · rw [others i (.inl hi)]
      exact ((Draft.Grows.put d [0, 0]).trans (.put _ o)).kept.2 i hi trivial
  have octets : d'.octets = d.octets ++ (Octets.ofNat 2 o.length ++ o) := by
    refine eq_append_of_holds kept ?_ (holds_append.mpr ⟨length, by rw [two]; exact data⟩)
    rw [List.length_append, two]
    show d'.size = d.size + (2 + o.length)
    omega
  obtain ⟨octets', table'⟩ := d'
  subst octets table
  exact ⟨short, rfl⟩

/-- The places that are fixed while the length at `pos` is not known yet. -/
def openAt (fixed : Nat → Prop) (pos : Nat) : Nat → Prop :=
  fun i => fixed i ∧ (i < pos ∨ pos + 2 ≤ i)

section OpenLength

variable {fixed : Nat → Prop} {d d₁ d' : Draft}

theorem openAt_covered (covered : ∀ i, d.size ≤ i → fixed i) :
    ∀ i, (d.put [0, 0]).size ≤ i → openAt fixed d.size i := by
  intro i hi
  have begun : (d.put [0, 0]).size = d.size + 2 := size_append_octets d.octets [0, 0]
  exact ⟨covered i (by omega), .inr (by omega)⟩

/-- Names in front of a length do not notice that it is open. -/
theorem openAt_sound (sound : d.Sound fixed) : (d.put [0, 0]).Sound (openAt fixed d.size) :=
  sound.keeps (.append fixed _ _) (fun _ hi hf => ⟨hf, .inl hi⟩) rfl

/-- Setting the length changes nothing that is fixed while it is open. -/
theorem openAt_keeps (size : d'.size = d₁.size)
    (others : ∀ i, i < d.size ∨ d.size + 2 ≤ i → d'.octets[i]? = d₁.octets[i]?) :
    Keeps (openAt fixed d.size) d₁.octets d'.octets :=
  ⟨Nat.le_of_eq size.symm, fun i _ hi => others i hi.2⟩

end OpenLength

/-- Data behind their length are read back if they are read back as data of their length. -/
theorem Writes.lengthPrefixed {c : Composer Unit} {read : Nat → Reader α} {first : α → Prop}
    {good : β → Prop} {f : α → β} (h : c.Writes read first) (confined : c.Confined)
    (is : ∀ a, first a → good (f a)) :
    (Composer.lengthPrefixed c).Writes
      (fun _ => Reader.uint16 >>= fun length => f <$> read length.toNat) good := by
  intro fixed d d' covered sound run
  have grown' := (Confined.lengthPrefixed confined).grows run
  obtain ⟨d₁, inner, short, rest⟩ := lengthPrefixed_ok run
  have begun : (d.put [0, 0]).size = d.size + 2 := size_append_octets d.octets [0, 0]
  -- The data are found on a draft that does not rely on its length, and are found again once the
  -- length is set.
  obtain ⟨grown, sound₁, a, isA, finds⟩ :=
    h (openAt fixed d.size) _ d₁ (openAt_covered covered) (openAt_sound sound) inner
  obtain ⟨table, size, length, others⟩ := rest grown
  have kept : Keeps (openAt fixed d.size) d₁.octets d'.octets := openAt_keeps size others
  have reopen : ∀ i, i < d₁.octets.size → openAt fixed d.size i → fixed i := fun _ _ hi => hi.1
  refine ⟨grown', sound₁.keeps kept reopen table, f a, is a isA, ?_⟩
  have number : (UInt16.ofNat (d₁.size - (d.size + 2))).toNat = d₁.size - (d.size + 2) := by
    rw [UInt16.toNat_ofNat']
    exact Nat.mod_eq_of_lt (by omega)
  have stands : Stands fixed d'.octets d.size
      (Wire.uint16 (.ofNat (d₁.size - (d.size + 2)))) := by
    rw [Wire.uint16, number]
    exact ⟨length, fun i hi _ => covered i hi⟩
  refine ((readAs_uint16 _).finds stands).bind ?_
  have stop : d.size + (Wire.uint16 (.ofNat (d₁.size - (d.put [0, 0]).size))).length
      = (d.put [0, 0]).size := by
    rw [Wire.uint16, Octets.length_ofNat, begun]
  rw [number, size, ← begun, stop]
  exact (finds.keeps kept reopen).functor f

end Composer

open Composer

/-! ## Completed data -/

/-- A sequence of steps succeeds only if all of them do. -/
theorem bind_eq_ok {ε : Type} {x : Except ε α} {f : α → Except ε β} {b : β}
    (h : (x >>= f) = .ok b) : ∃ a, x = .ok a ∧ f a = .ok b := by
  cases x with
  | error e => cases h
  | ok a => exact ⟨a, rfl, h⟩

theorem map_eq_ok {ε α β : Type} {x : Except ε α} {f : α → β} {b : β} (h : x.map f = .ok b) :
    ∃ a, x = .ok a ∧ f a = b := by
  cases x with
  | error e => cases h
  | ok a => exact ⟨a, rfl, Except.ok.inj h⟩

/-- The absolute name that a name means. -/
def Name.absoluteName (n : Name) (origin : Option Name) : Except ComposeError Name :=
  Subtype.val <$> n.completed origin

theorem Name.absoluteName_eq (n : Name) (origin : Option Name) : n.absoluteName origin =
    if n.absolute then .ok n
    else match origin with
      | none => .error .needAbsoluteName
      | some origin => if origin.absolute then n.concat origin else .error .needAbsoluteName := by
  unfold absoluteName completed
  by_cases absolute : n.absolute = true
  · rw [dif_pos absolute, if_pos absolute]
    rfl
  · rw [dif_neg absolute, if_neg absolute]
    cases origin with
    | none => rfl
    | some origin =>
      by_cases rooted : origin.absolute = true
      · simp only [dif_pos rooted, if_pos rooted]
        split
        · rename_i joined
          exact joined.symm
        · rename_i refused
          exact refused.symm
      · simp only [dif_neg rooted, if_neg rooted]
        rfl

theorem Name.absoluteName_of_absolute {n : Name} (absolute : n.absolute = true)
    (origin : Option Name) : n.absoluteName origin = .ok n := by
  rw [absoluteName_eq, if_pos absolute]

namespace RecordData

/-- The data with absolute names in the place of relative ones. -/
def completed (origin : Option Name) : RecordData → Except ComposeError RecordData
  | ns name => return ns (← name.absoluteName origin)
  | cname name => return cname (← name.absoluteName origin)
  | soa s => do
    return soa { s with
      mname := ← s.mname.absoluteName origin
      rname := ← s.rname.absoluteName origin }
  | ptr name => return ptr (← name.absoluteName origin)
  | mx preference exchange => return mx preference (← exchange.absoluteName origin)
  | lp preference name => return lp preference (← name.absoluteName origin)
  | tsig t => return tsig { t with algorithm := ← t.algorithm.absoluteName origin }
  | d => .ok d

/-- All names are absolute, and a serial number has the width that it has in messages. -/
def Complete : RecordData → Prop
  | ns name => name.absolute = true
  | cname name => name.absolute = true
  | soa s => s.mname.absolute = true ∧ s.rname.absolute = true ∧ s.serial.bits = 32
  | ptr name => name.absolute = true
  | mx _ exchange => exchange.absolute = true
  | lp _ name => name.absolute = true
  | tsig t => t.algorithm.absolute = true
  | _ => True

theorem Complete.completed {d : RecordData} (complete : d.Complete) (origin : Option Name) :
    d.completed origin = .ok d := by
  cases d with
  | ns | cname | ptr | mx | lp | tsig =>
    simp only [RecordData.completed, Name.absoluteName_of_absolute complete]
    rfl
  | soa s =>
    simp only [RecordData.completed, Name.absoluteName_of_absolute complete.1,
      Name.absoluteName_of_absolute complete.2.1]
    rfl
  | _ => rfl

/-- The data that records are documented to have when they are added to a message: signatures are
not added like this, data of a known form are not given as opaque octets, and neither is padding. -/
def Documented : RecordData → Prop
  | opt options => ∀ o ∈ options, o.Documented
  | tsig _ => False
  | unknown rtype _ => RdataKind.ofRtype? rtype = none
  | _ => True

end RecordData

/-- What is found stands for a name that was composed. -/
def Name.Found (n : Name) (origin : Option Name) (found : Name) : Prop :=
  ∃ full, n.absoluteName origin = .ok full ∧ (found == full) = true

theorem Name.compose_writes (n : Name) (compressed : Bool) (origin : Option Name)
    (canonical : Bool) :
    (n.compose compressed origin canonical).Writes (fun _ => Name.read) (n.Found origin) := by
  intro fixed d d' covered sound run
  obtain ⟨sound', full, found, completed, equal, finds⟩ := compose_finds covered sound run
  refine ⟨(n.compose_confined _ _ _).grows run, sound', found, ⟨full.val, ?_, equal⟩, finds⟩
  rw [absoluteName, completed]
  rfl

/-! ## Record data

There is a composer and a reader for each type of data, and nothing that they share tells that they
belong together. This is the place where each pair is compared. `RecordData.Documented` leaves out
the data for which they do not match by design: opaque octets under a type that has a form of its
own would be read in that form. Reading is by type and composing by constructor, and the proof is a
case distinction on the constructor, with the lemma for the reader of that type. What both sides
have in common is the order of the fields. -/

namespace RecordData

/-- What is found stands for data that were composed. -/
def Found (d : RecordData) (origin : Option Name) (found : RecordData) : Prop :=
  ∃ full, d.completed origin = .ok full ∧ (found == full) = true

theorem found_refl {d : RecordData} {origin : Option Name} (h : d.completed origin = .ok d) :
    d.Found origin d := ⟨d, h, beq_iff_caseless.mpr rfl⟩

theorem soa_writes (s : Soa) (compressed : Bool) (origin : Option Name) (canonical : Bool) :
    (composeSoa s compressed origin canonical).Writes (fun _ => readSoa)
      fun found => (soa s).Found origin (soa found) := by
  refine (s.mname.compose_writes _ _ _).bind fun mname hm => ?_
  refine (s.rname.compose_writes _ _ _).bind fun rname hr => ?_
  -- The serial number is the one field that may have no octets, if its width is not 32 bits.
  refine .putOrFailBind (fun o ho => readAs_serial ho) ?_
  refine .putBind (readAs_uint32 _) (.putBind (readAs_uint32 _) (.putBind (readAs_uint32 _) ?_))
  refine .put ((readAs_uint32 _).map _) ?_
  obtain ⟨mname', hm, mequal⟩ := hm
  obtain ⟨rname', hr, requal⟩ := hr
  refine ⟨soa { s with mname := mname', rname := rname' }, ?_, beq_iff_caseless.mpr ?_⟩
  · simp only [completed, hm, hr]
    rfl
  · simp only [caseless, Name.beq_iff_canonical.mp mequal, Name.beq_iff_canonical.mp requal]

theorem readAs_readStrings (first : CharString) (rest : List CharString) :
    ReadAs ((first :: rest).flatMap CharString.wire)
      (readStrings ((first :: rest).flatMap CharString.wire).length) (txt first rest) := by
  intro m p h
  have items := itemsUntil_eq CharString.read CharString.wire
    (fun s _ => ⟨readAs_charString s, Nat.succ_pos _⟩) h
  rw [readStrings, Reader.bind_apply]
  simp only [Reader.position]
  rw [Reader.bind_apply, items]
  rfl

theorem readAs_options {options : List EdnsOption} (h : ∀ o ∈ options, o.Documented) :
    ReadAs (options.flatMap EdnsOption.wire)
      (readKind (options.flatMap EdnsOption.wire).length .opt) (opt options) := by
  intro m p hold
  have items := itemsUntil_eq EdnsOption.read EdnsOption.wire
    (fun o mem => ⟨readAs_ednsOption (h o mem), by
      rw [EdnsOption.wire, List.length_append, OptionCode.wire, Registered.wire,
        Octets.length_ofNat]
      exact Nat.lt_of_lt_of_le (by decide) (Nat.le_add_right _ _)⟩) hold
  rw [readKind, Reader.bind_apply]
  simp only [Reader.position]
  rw [Reader.bind_apply, items]
  rfl

theorem readAs_readNodeId (preference : UInt16) (nodeId : UInt64) :
    ReadAs (Wire.uint16 preference ++ Wire.uint64 nodeId)
      (readNodeId (Wire.uint16 preference ++ Wire.uint64 nodeId).length)
      (nid preference nodeId) := by
  -- Node identifiers come with a length of their own to check, before anything is read.
  have ten : (Wire.uint16 preference ++ Wire.uint64 nodeId).length = 10 := by
    rw [List.length_append, Wire.uint16, Wire.uint64, Octets.length_ofNat, Octets.length_ofNat]
  rw [readNodeId, if_neg (not_not_intro ten)]
  exact (readAs_uint16 preference).bind ((readAs_uint64 nodeId).map _)

theorem readForm_of_kind? {d : RecordData} {kind : RdataKind} (h : d.kind? = some kind)
    (length : Nat) : readForm d.rtype length = readKind length kind := by
  rw [readForm, rtype_eq_of_kind? h, RdataKind.ofRtype?_rtype]

/-- Data that are made of a name in one way are found if the name is. -/
theorem found_of_name {f : Name → RecordData} {n found : Name} {origin : Option Name}
    (completed : (f n).completed origin = f <$> n.absoluteName origin)
    (caseless : ∀ m, (f m).caseless = f m.canonical) (h : n.Found origin found) :
    (f n).Found origin (f found) := by
  obtain ⟨full, absolute, equal⟩ := h
  refine ⟨f full, by rw [completed, absolute]; rfl, beq_iff_caseless.mpr ?_⟩
  rw [caseless, caseless, Name.beq_iff_canonical.mp equal]

/-- Data are read back in the form that belongs to their type. -/
theorem form_writes {d : RecordData} (documented : d.Documented) (compressed : Bool)
    (origin : Option Name) (canonical : Bool) :
    (d.compose compressed origin canonical).Writes (readForm d.rtype) (d.Found origin) := by
  -- A case for each type of data, as in `RecordData.compose`. The lemma `form` selects the reader
  -- by the type; behind it stand one step for each field and a reason why what the last of them
  -- finds is the whole. Data without a name are found as they were, and data with one up to the
  -- spelling of the name.
  have form : ∀ {kind : RdataKind}, d.kind? = some kind →
      readForm d.rtype = fun length => readKind length kind := fun h =>
    funext (readForm_of_kind? h)
  cases d with
  | a address =>
    rw [form rfl]
    exact .put ((readAs_ipv4 address).functor _) (found_refl rfl)
  | ns name =>
    rw [form rfl]
    exact (name.compose_writes _ _ _).map fun _ h => found_of_name rfl (fun _ => rfl) h
  | cname name =>
    rw [form rfl]
    exact (name.compose_writes _ _ _).map fun _ h => found_of_name rfl (fun _ => rfl) h
  | soa s =>
    rw [form rfl]
    exact (soa_writes s _ _ _).map fun _ h => h
  | ptr name =>
    rw [form rfl]
    exact (name.compose_writes _ _ _).map fun _ h => found_of_name rfl (fun _ => rfl) h
  | hinfo cpu os =>
    rw [form rfl]
    exact .putBind (readAs_charString cpu)
      (.put ((readAs_charString os).functor _) (found_refl rfl))
  | mx preference exchange =>
    rw [form rfl]
    exact .putBind (readAs_uint16 preference)
      ((exchange.compose_writes _ _ _).map fun _ h =>
        found_of_name (f := mx preference) rfl (fun _ => rfl) h)
  | txt first rest =>
    rw [form rfl]
    exact .put (readAs_readStrings first rest) (found_refl rfl)
  | x25 address =>
    rw [form rfl]
    exact .put ((readAs_charString address).functor _) (found_refl rfl)
  | aaaa address =>
    rw [form rfl]
    exact .put ((readAs_ipv6 address).functor _) (found_refl rfl)
  | opt options =>
    rw [form rfl]
    exact .put (readAs_options documented) (found_refl rfl)
  | nid preference nodeId =>
    rw [form rfl]
    -- The reader takes both fields at once, and so they are put together here as well.
    show (Composer.put _ >>= fun _ => Composer.put _).Writes _ _
    rw [put_put]
    exact .put (readAs_readNodeId preference nodeId) (found_refl rfl)
  | l32 preference locator =>
    rw [form rfl]
    exact .putBind (readAs_uint16 preference)
      (.put ((readAs_ipv4 locator).functor _) (found_refl rfl))
  | l64 preference locator =>
    rw [form rfl]
    exact .putBind (readAs_uint16 preference)
      (.put ((readAs_uint64 locator).functor _) (found_refl rfl))
  | lp preference name =>
    rw [form rfl]
    exact .putBind (readAs_uint16 preference)
      ((name.compose_writes _ _ _).map fun _ h =>
        found_of_name (f := lp preference) rfl (fun _ => rfl) h)
  -- Signatures are not added as data: their own composer is treated in `Dns.Proofs.Signatures`.
  | tsig t => exact documented.elim
  | unknown rtype octets =>
    -- Opaque octets are read back because no type of data claims them.
    have other : readForm (unknown rtype octets).rtype
        = fun length => unknown rtype <$> Reader.take length := by
      funext length
      rw [readForm, show RdataKind.ofRtype? (unknown rtype octets).rtype = none from documented]
      rfl
    rw [other]
    exact .put ((readAs_take octets).functor _) (found_refl rfl)

/-- The length that is told in front of data is what they have to have. -/
theorem finds_read {rtype : Rtype} {length : Nat} {fixed : Nat → Prop} {o : Array UInt8}
    {b : RecordData} {p q : Nat} (h : (readForm rtype length).Finds fixed o b p q)
    (exact' : q = p + length) (inside : q ≤ o.size) :
    (read rtype length).Finds fixed o b p q := by
  intro m keeps
  have room := keeps.1
  rw [read, if_neg (by omega), h m keeps]
  simp only [if_pos exact']

theorem data_writes {c : Composer Unit} {rtype : Rtype} {good : RecordData → Prop}
    (h : c.Writes (readForm rtype) good) : c.Writes (read rtype) good := by
  intro fixed d d' covered sound run
  obtain ⟨grown, sound', b, is, finds⟩ := h fixed d d' covered sound run
  have le := grown.size_le
  exact ⟨grown, sound', b, is, finds_read finds (by omega) (Nat.le_refl _)⟩

end RecordData

/-! ## Records and questions

A record is its five fields one after the other, and `Record.compose_writes` says nothing more than
that each is read back. All that is particular about names and lengths has been dealt with above.
The length of the data is what is found in front of them. Reading does not take it on trust: the
data have to end there, and it is here that they are seen to. -/

/-- The record with absolute names, and with the class that the form puts in place of its own. -/
def Record.completed (r : Record) (origin : Option Name) (form : RecordForm) :
    Except ComposeError Record := do
  return {
    owner := ← r.owner.absoluteName origin
    recordClass := form.overrideClass.getD r.recordClass
    ttl := r.ttl
    data := ← r.data.completed origin }

/-- What is found stands for a record that was composed. -/
def Record.Found (r : Record) (origin : Option Name) (form : RecordForm) (found : Record) : Prop :=
  ∃ full, r.completed origin form = .ok full ∧ (found == full) = true

/-- A record is found if its parts are. -/
theorem Record.found_of_parts {r : Record} {origin : Option Name} {form : RecordForm}
    {owner : Name} {data : RecordData} (ho : r.owner.Found origin owner)
    (hd : r.data.Found origin data) :
    r.Found origin form ⟨owner, form.overrideClass.getD r.recordClass, r.ttl, data⟩ := by
  obtain ⟨owner', ho, oequal⟩ := ho
  obtain ⟨data', hd, dequal⟩ := hd
  refine ⟨⟨owner', form.overrideClass.getD r.recordClass, r.ttl, data'⟩, ?_, ?_⟩
  · simp only [completed, ho, hd]
    rfl
  · show (owner == owner' && _ == _ && _ == _ && data == data') = true
    rw [oequal, dequal]
    simp

theorem Record.compose_writes {r : Record} (documented : r.data.Documented) (compressed : Bool)
    (origin : Option Name) (form : RecordForm) :
    (r.compose compressed origin form).Writes (fun _ => Record.read) (r.Found origin form) :=
  (r.owner.compose_writes _ _ _).bind fun _ ho =>
    .putBind (readAs_rtype r.rtype) <| .putBind (readAs_class _) <|
      .putBind (readAs_uint32 r.ttl) <|
        .lengthPrefixed (RecordData.data_writes (RecordData.form_writes documented _ _ _))
          (r.data.compose_built _ _ _).confined fun _ hd => found_of_parts ho hd

/-- The question with an absolute name. -/
def Question.completed (q : Question) (origin : Option Name) : Except ComposeError Question := do
  return { q with qname := ← q.qname.absoluteName origin }

/-- What is found stands for a question that was composed. -/
def Question.Found (q : Question) (origin : Option Name) (found : Question) : Prop :=
  ∃ full, q.completed origin = .ok full ∧ (found == full) = true

theorem Question.compose_writes (q : Question) (compressed : Bool) (origin : Option Name) :
    (q.compose compressed origin).Writes (fun _ => Question.read) (q.Found origin) := by
  refine (q.qname.compose_writes _ _ _).bind fun qname hn => ?_
  refine .putBind (readAs_rtype q.qtype) (.put ((readAs_class q.qclass).map _) ?_)
  obtain ⟨qname', hn, equal⟩ := hn
  refine ⟨{ q with qname := qname' }, by simp only [completed, hn]; rfl, ?_⟩
  show (qname == qname' && _ == _ && _ == _) = true
  rw [equal]
  simp

end Dns
