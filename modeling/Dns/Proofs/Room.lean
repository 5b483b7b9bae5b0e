import Dns.Proofs.Names
import Dns.Render.Signed

/-!
# Room for signatures

Who holds room back for a signature counts every name in full, although it may be compressed. That
is enough because a pointer is never longer than what it stands for. It would be for the root alone,
which is a single octet; but the root is never noted, and so nothing points to it
(`Draft.Rootless`). This is an assumption on the table here; that every renderer fulfils it is shown
in `Dns.Proofs.Rootless`.

`Composer.Takes` is a statement of success, unlike everything that is said about composers
elsewhere: not only is there no more room taken than this, the composer *gives* a draft. It fails
for a name that cannot be completed and for data that are too long, so it is a matter of absolute
names and of lengths. The rules for it add up the room along the code.

A signature that fits, with octets that can be counted in front of them, is always made
(`Renderer.exists_addTsigRecord`). Together with the two limits of the transaction, the size of the
message and the number of additional records, these are all the reasons for which adding it may
fail.

How a name comes out is told by `Name.composeLabels_octets`: in full, or as the labels in front of a
suffix and a pointer. There is no other form, whatever is in the table.
-/

set_option autoImplicit false

namespace Dns

/-! ## What composing takes

The room of a name is bounded in two steps, first by saying what its octets look like and then by
comparing lengths. Going through the recursion with the bound itself would hide that a pointer is
the only thing that can make a name shorter. A bound of this kind is false of tables with the root
in them. A pointer to the root takes two octets where the root label takes one, and a name could
become longer than in full by being compressed. -/

/-- The table does not have the root. -/
def Draft.Rootless (d : Draft) : Prop := d.table.get? Name.root = none

theorem Draft.rootless_of_empty (o : Array UInt8) : (Draft.mk o CompressionTable.empty).Rootless :=
  CompressionTable.get?_empty _

theorem Draft.Rootless.find?_root {d : Draft} (h : d.Rootless) (compressed : Bool) :
    d.find? compressed Name.root = none := by
  cases compressed with
  | false => rfl
  | true => exact h

theorem Draft.Rootless.note_put {d : Draft} (h : d.Rootless) {n : Name} (o : Octets)
    (other : (n == Name.root) = false) : ((d.note n).put o).Rootless := by
  show (d.table.insert n d.size).get? Name.root = none
  unfold CompressionTable.insert
  split
  · rw [CompressionTable.get?, Std.HashMap.getElem?_insertIfNew, if_neg (by simp [other])]
    exact h
  · exact h

namespace Composer

variable {α β : Type} {c : Composer α} {room room' : Nat}

/-- The composer succeeds and takes no more room than this. -/
def Takes (c : Composer α) (room : Nat) : Prop :=
  ∀ d : Draft, d.Rootless → ∃ a d', c d = .ok a d' ∧ d'.Rootless ∧ d'.size ≤ d.size + room

namespace Takes

theorem put (o : Octets) : (Composer.put o).Takes o.length := fun d rootless =>
  ⟨(), d.put o, rfl, rootless, Nat.le_of_eq (size_append_octets d.octets o)⟩

theorem bind {k : α → Composer β} (h : c.Takes room) (g : ∀ a, (k a).Takes room') :
    (c >>= k).Takes (room + room') := by
  intro d rootless
  obtain ⟨a, d₁, first, rootless₁, size₁⟩ := h d rootless
  obtain ⟨b, d₂, second, rootless₂, size₂⟩ := g a d₁ rootless₁
  refine ⟨b, d₂, ?_, rootless₂, by omega⟩
  simp only [Bind.bind, EStateM.bind, first, second]

/-- Data behind their length take two octets more. -/
theorem lengthPrefixed {c : Composer Unit} (h : c.Takes room) (short : room ≤ 65535) :
    (Composer.lengthPrefixed c).Takes (2 + room) := by
  intro d rootless
  have begun : (d.put [0, 0]).size = d.size + 2 := size_append_octets d.octets [0, 0]
  obtain ⟨_, d', inner, rootless', size⟩ := h (d.put [0, 0]) rootless
  have fits : ¬65535 < d'.size - (d.size + 2) := by omega
  simp only [Composer.lengthPrefixed, inner, fits, if_false]
  split
  · refine ⟨(), _, rfl, rootless', ?_⟩
    have same := size_overwrite (Octets.ofNat 2 (d'.size - (d.size + 2))) d'.octets d.size
    simp only [Draft.overwrite, Draft.size] at *
    omega
  · exact ⟨(), d', rfl, rootless', by omega⟩

end Takes

end Composer

namespace Name

variable {compressed canonical : Bool} {d : Draft}

theorem length_labelWires (canonical : Bool) (labels : List Label) :
    (labels.flatMap (labelWire canonical)).length = labelsLength labels := by
  induction labels with
  | nil => rfl
  | cons l rest ih =>
    rw [List.flatMap_cons, List.length_append, length_labelWire, ih, labelsLength_cons]

/-- A step of composing labels notes none but names that have one. -/
theorem noted_rootless (rootless : d.Rootless) {l : Label} {rest : List Label}
    (fits : labelsLength (l :: rest) + 1 ≤ 255) (o : Octets) :
    ((if compressed then d.note ⟨l :: rest, true, fits⟩ else d).put o).Rootless := by
  have other : ((⟨l :: rest, true, fits⟩ : Name) == root) = false := by
    -- A name that is equal to the root has as many labels, which is none.
    refine Bool.eq_false_iff.mpr fun equal => ?_
    exact absurd (congrArg List.length (alike_of_beq equal)) (by simp [root])
  split
  · exact rootless.note_put o other
  · exact rootless

theorem composeLabels_rootless (compressed canonical : Bool) (labels : List Label)
    (fits : labelsLength labels + 1 ≤ 255) (rootless : d.Rootless) :
    (composeLabels compressed canonical labels fits d).Rootless := by
  induction labels generalizing d with
  | nil =>
    rw [composeLabels_root (rootless.find?_root compressed)]
    exact rootless
  | cons l rest ih =>
    cases found : d.find? compressed ⟨l :: rest, true, fits⟩ with
    | some p =>
      rw [composeLabels_known found]
      exact rootless
    | none =>
      rw [composeLabels_new found]
      exact ih _ (noted_rootless rootless fits _)

/-- Labels are all composed with the root behind them, or some of them with a pointer behind
them. -/
theorem composeLabels_octets (compressed canonical : Bool) (labels : List Label)
    (fits : labelsLength labels + 1 ≤ 255) (rootless : d.Rootless) :
    (composeLabels compressed canonical labels fits d).octets
        = d.octets ++ (labels.flatMap (labelWire canonical) ++ [0]) ∨
      ∃ front l rest p, labels = front ++ l :: rest ∧
        (composeLabels compressed canonical labels fits d).octets
          = d.octets ++ (front.flatMap (labelWire canonical) ++ pointer p) := by
  induction labels generalizing d with
  | nil =>
    rw [composeLabels_root (rootless.find?_root compressed)]
    exact .inl rfl
  | cons l rest ih =>
    cases found : d.find? compressed ⟨l :: rest, true, fits⟩ with
    | some p =>
      rw [composeLabels_known found]
      exact .inr ⟨[], l, rest, p, rfl, rfl⟩
    | none =>
      rw [composeLabels_new found]
      have octets : ((if compressed then d.note ⟨l :: rest, true, fits⟩ else d).put
          (labelWire canonical l)).octets = d.octets ++ labelWire canonical l :=
        octets_noted _ _
      -- The label was written, and how the name ends is a question of the rest. Noting it changes
      -- no octets.
      rcases ih (by rw [labelsLength_cons] at fits; omega) (noted_rootless rootless fits _) with
        full | ⟨front, m, behind, p, divided, short⟩
      · refine .inl ?_
        rw [full, octets, append_append_octets, List.flatMap_cons, List.append_assoc]
      · refine .inr ⟨l :: front, m, behind, p, by rw [divided]; rfl, ?_⟩
        rw [short, octets, append_append_octets, List.flatMap_cons, List.append_assoc]

/-- A pointer takes less room than labels and the root in its place, which are three octets at
least. -/
theorem length_pointer_lt (l : Label) (rest : List Label) (p : Fin 0x4000) :
    (pointer p).length < labelsLength (l :: rest) + 1 := by
  have some := length_pos_label l
  rw [length_pointer, labelsLength_cons, Label.wireLength]
  omega

/-- Composed labels take at most the room that they take in full. -/
theorem composeLabels_size_le (compressed canonical : Bool) (labels : List Label)
    (fits : labelsLength labels + 1 ≤ 255) (rootless : d.Rootless) :
    (composeLabels compressed canonical labels fits d).size
      ≤ d.size + (labelsLength labels + 1) := by
  rcases composeLabels_octets compressed canonical labels fits rootless with
    full | ⟨front, l, rest, p, rfl, short⟩
  · rw [Draft.size, full, size_append_octets, List.length_append, length_labelWires]
    exact Nat.le_refl _
  · have lt := length_pointer_lt l rest p
    rw [Draft.size, short, size_append_octets, List.length_append, length_labelWires,
      labelsLength_append]
    simp only [Draft.size]
    omega

theorem compose_root (rootless : d.Rootless) (compressed canonical : Bool)
    (origin : Option Name) :
    root.compose compressed origin canonical d = .ok () (d.put [0]) := by
  exact congrArg (EStateM.Result.ok ()) (composeLabels_root (rootless.find?_root compressed))

/-- An absolute name is always composed. -/
theorem compose_takes {n : Name} (absolute : n.absolute = true) (compressed canonical : Bool)
    (origin : Option Name) : (n.compose compressed origin canonical).Takes n.wireLength := by
  intro d rootless
  obtain ⟨labels, flag, fits⟩ := n
  cases absolute
  exact ⟨(), _, rfl, composeLabels_rootless compressed canonical labels fits rootless,
    composeLabels_size_le compressed canonical labels fits rootless⟩

end Name

/-! ## Signatures

The data of a signature are the algorithm, sixteen octets of numbers, and two strings of any length.
Its record has a name and ten octets in front of them: type, class, time to live and length. With
other data that are short enough the record can always be composed, and whether it is added is then
a question of the sizes alone (`add_of_composed`). -/

/-- The room that the data of a signature take. -/
def Tsig.room (t : Tsig) : Nat :=
  t.algorithm.wireLength + 16 + t.mac.octets.length + t.other.octets.length

theorem Tsig.length_wireBehindAlgorithm (t : Tsig) : t.wireBehindAlgorithm.length
    = 16 + t.mac.octets.length + t.other.octets.length := by
  simp only [wireBehindAlgorithm, Time48.wire, Wire.uint16, Data.wire, TsigRcode.wire,
    Registered.wire, List.length_append, Octets.length_ofNat]
  have width : Registered.width TsigRcode = 2 := rfl
  omega

theorem Tsig.compose_takes {t : Tsig} (absolute : t.algorithm.absolute = true)
    (origin : Option Name) : (t.compose origin).Takes t.room := by
  have takes : (t.compose origin).Takes
      (t.algorithm.wireLength + t.wireBehindAlgorithm.length) :=
    (Name.compose_takes absolute false false origin).bind fun _ => .put _
  rw [t.length_wireBehindAlgorithm] at takes
  simpa only [room, Nat.add_assoc] using takes

namespace Renderer

theorem composeTsig_eq (owner : Name) (t : Tsig) (compressed : Bool) (origin : Option Name) :
    composeTsig owner t compressed origin
      = (owner.compose compressed origin false >>= fun _ =>
          Composer.put Rtype.tsig.wire >>= fun _ => Composer.put Class.any.wire >>= fun _ =>
            Composer.put (Wire.uint32 0) >>= fun _ => Composer.lengthPrefixed (t.compose none))
          >>= fun _ => (pure 1 : Composer Nat) := by
  simp only [composeTsig, bind_assoc]

/-- The record of a signature is composed if its data can be counted. -/
theorem exists_composeTsig {owner : Name} {t : Tsig} (owned : owner.absolute = true)
    (absolute : t.algorithm.absolute = true) (short : t.room ≤ 65535) (compressed : Bool)
    (origin : Option Name) {d : Draft} (rootless : d.Rootless) :
    ∃ d', composeTsig owner t compressed origin d = .ok 1 d' ∧
      d'.size ≤ d.size + (owner.wireLength + 10 + t.room) := by
  have takes := (Name.compose_takes owned compressed false origin).bind fun _ =>
    (Composer.Takes.put Rtype.tsig.wire).bind fun _ =>
      (Composer.Takes.put Class.any.wire).bind fun _ =>
        (Composer.Takes.put (Wire.uint32 0)).bind fun _ =>
          (t.compose_takes absolute none).lengthPrefixed short
  obtain ⟨_, d', composed, -, size⟩ := takes d rootless
  refine ⟨d', ?_, ?_⟩
  · rw [composeTsig_eq]
    simp only [Bind.bind, EStateM.bind] at composed ⊢
    rw [composed]
    rfl
  · have rtype : Rtype.tsig.wire.length = 2 := Registered.length_wire _
    have anyClass : Class.any.wire.length = 2 := Registered.length_wire _
    have ttl := Wire.length_uint32 0
    omega

variable {r : Renderer} {owner : Name} {t : Tsig}

/-- An addition succeeds if it is composed, and if there is room for it and it can be counted. -/
theorem add_of_composed {part : Section} {compose : Option Name → Composer Nat} {n : Nat}
    {d : Draft} (later : r.part.index ≤ part.index) (composed : compose r.origin r.draft = .ok n d)
    (fits : d.size ≤ r.maxSize) (few : (r.counts.get part).toNat + n ≤ 65535) :
    r.add part compose = (.ok (), { r with
      draft := d
      part
      counts := r.counts.set part (.ofNat ((r.counts.get part).toNat + n)) }) := by
  simp only [add, enter, Nat.not_lt.mpr later, if_false, transaction, composed, Nat.not_lt.mpr fits,
    Nat.not_lt.mpr few]

/-- All that adding a signature does when it succeeds. -/
theorem addTsigRecord_of_fits {d : Draft}
    (composed : composeTsig owner t (!r.wasPadded) r.origin r.draft = .ok 1 d)
    (fits : d.size ≤ r.maxSize) (few : r.counts.additional.toNat < 65535) :
    r.addTsigRecord owner t = (.ok (), { r with
      part := .additional
      counts := { r.counts with additional := .ofNat (r.counts.additional.toNat + 1) }
      draft := d.overwrite HeaderSection.additionalCountOffset
        (Wire.uint16 (.ofNat (r.counts.additional.toNat + 1)))
      mac := t.mac.octets }) := by
  have last : r.part.index ≤ Section.additional.index := by
    cases r.part <;> decide
  simp only [addTsigRecord, add_of_composed last composed fits few, Counts.get, Counts.set]

/-- A signature that there is room for is added. -/
theorem exists_addTsigRecord (owned : owner.absolute = true)
    (absolute : t.algorithm.absolute = true) (short : t.room ≤ 65535)
    (rootless : r.draft.Rootless) (room : r.size + (owner.wireLength + 10 + t.room) ≤ r.maxSize)
    (few : r.counts.additional.toNat < 65535) :
    ∃ r', r.addTsigRecord owner t = (.ok (), r') := by
  obtain ⟨d, composed, size⟩ :=
    exists_composeTsig owned absolute short (!r.wasPadded) r.origin rootless
  exact ⟨_, addTsigRecord_of_fits composed (Nat.le_trans size room) few⟩

/-- What is signed is added. -/
theorem addTsig_of_sign {Context : Type} {s : Signer Context} {algorithm : Name} {draft : Tsig}
    (drafted : s.draft algorithm = .ok draft)
    (signed : s.key.sign r.octets.toList draft r.time s.requestMac = .ok t) :
    r.addTsig s algorithm = r.addTsigRecord s.owner t := by
  simp only [addTsig, drafted, signed]

end Renderer

end Dns
