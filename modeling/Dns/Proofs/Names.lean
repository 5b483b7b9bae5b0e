import Dns.Proofs.Drafts

/-!
# Names that are read back

A name that was composed is some labels and then either a zero octet or a pointer to a place where
the rest of it stands. `Name.Spelled` describes exactly such octets: it has a constructor for each
of the three, and its `limit` is the place that the next pointer has to stay in front of. This is
the limit that reading keeps, and so whatever is spelled is read (`Spelled.finds`). The relation
does not say how often a pointer may be followed and need not: each one lowers the limit.

That composing spells names rests on what is known of the table. `Draft.Sound` says that at the
place of every name in the table, a name equal to it is spelled. While a name is being composed, the
table is *not* sound: the longer suffixes of the name are noted in it already and not spelled to
their ends yet. They are never found, for what is looked up is shorter than they are, and two names
with different numbers of labels are not equal. So the induction is not on soundness but on the
weaker fact that the table tells the truth of names with at most as many labels as are left
(`composeLabels_spelled`). What is found stands in front of the name, which is the reason why every
pointer passes the check of the limit.

Names that differ in letter case are equal, and the table finds a name in the spelling of its first
occurrence. What is read back is therefore equal to what was composed and may be spelled otherwise;
`Name.SpelledAs` leaves room for that.
-/

set_option autoImplicit false

namespace Dns

namespace Name

/-! ## Spelled names -/

/-- Labels that are spelled from a place on and reach a root label through pointers in front of
`limit`; `stop` is behind the root label or the first pointer. -/
inductive Spelled (fixed : Nat → Prop) (message : Array UInt8) :
    (limit : Nat) → List Label → (pos stop : Nat) → Prop
  | root {limit pos : Nat} (here : Stands fixed message pos [0]) :
      Spelled fixed message limit [] pos (pos + 1)
  | label {limit pos stop : Nat} {l : Label} {rest : List Label}
      (here : Stands fixed message pos l.wire)
      (tail : Spelled fixed message limit rest (pos + l.wireLength) stop) :
      Spelled fixed message limit (l :: rest) pos stop
  | pointer {limit pos stop : Nat} {target : Fin 0x4000} {labels : List Label}
      (here : Stands fixed message pos (pointer target)) (backwards : target.val < limit)
      (tail : Spelled fixed message target.val labels target.val stop) :
      Spelled fixed message limit labels pos (pos + 2)

namespace Spelled

variable {fixed fixed' : Nat → Prop} {a b : Array UInt8} {limit limit' pos stop : Nat}
  {labels : List Label}

theorem mono (h : Spelled fixed a limit labels pos stop) (le : limit ≤ limit') :
    Spelled fixed a limit' labels pos stop := by
  induction h generalizing limit' with
  | root here => exact .root here
  | label here _ ih => exact .label here (ih le)
  | pointer here backwards tail _ => exact .pointer here (Nat.lt_of_lt_of_le backwards le) tail

theorem keeps (h : Spelled fixed a limit labels pos stop) (k : Keeps fixed a b)
    (sub : ∀ i, i < a.size → fixed i → fixed' i) : Spelled fixed' b limit labels pos stop := by
  induction h with
  | root here => exact .root (here.keeps k sub)
  | label here _ ih => exact .label (here.keeps k sub) ih
  | pointer here backwards _ ih => exact .pointer (here.keeps k sub) backwards ih

end Spelled

/-! ## Reading what is spelled

One lemma for each kind of octets that the loop may meet: `readLabels_root`, `readLabels_label` and
`readLabels_pointer`. They are one step of reading each, and `Spelled.readLabels` puts them together
along the constructors of `Spelled`. The limit for pointers is a premise of the step that follows
one. It is met along the way, because a name that is spelled points to places in front of it only.
-/

theorem length_pointer (target : Fin 0x4000) : (pointer target).length = 2 :=
  Octets.length_ofNat 2 _

/-- The two octets of a pointer, as numbers. -/
theorem pointer_octets (target : Fin 0x4000) : ∃ high low : UInt8, pointer target = [high, low] ∧
    192 ≤ high.toNat ∧ (high.toNat - 192) * 256 + low.toNat = target.val := by
  refine ⟨UInt8.ofNat ((0xC000 + target.val) >>> 8), UInt8.ofNat ((0xC000 + target.val) >>> 0),
    rfl, ?_⟩
  have reached := target.isLt
  rw [UInt8.toNat_ofNat', UInt8.toNat_ofNat', Nat.shiftRight_eq_div_pow, Nat.shiftRight_eq_div_pow]
  omega

/-- The length octet of a label. -/
theorem toNat_labelLength (l : Label) : (UInt8.ofNat l.octets.length).toNat = l.octets.length := by
  have := l.short
  rw [UInt8.toNat_ofNat']
  omega

theorem length_pos_label (l : Label) : 0 < l.octets.length := List.length_pos_iff.mpr l.nonempty

section Steps

variable {m : Array UInt8} {limit pos : Nat} {w : Walk}

theorem readLabels_root (hold : Holds m pos [0]) (fits : labelsLength w.labels + 1 ≤ 255) :
    readLabels m limit pos w = .ok ⟨w.labels, true, fits⟩ (w.resume.getD (pos + 1)) := by
  have first : m[pos]? = some 0 := hold.getElem? (i := 0) (by simp)
  rw [readLabels]
  simp only [first, ↓reduceDIte, dif_pos fits]

theorem labelAt_eq {l : Label} {length : UInt8} (hold : Holds m pos l.octets)
    (same : length.toNat = l.octets.length) (positive : length ≠ 0) (plain : length < 64)
    (inside : pos + length.toNat ≤ m.size) : labelAt m pos length positive plain inside = l := by
  cases l
  simp only [labelAt, Label.mk.injEq]
  rw [same]
  exact hold.extract

theorem readLabels_label {l : Label} (hold : Holds m pos l.wire)
    (fits : labelsLength (w.labels ++ [l]) ≤ 255) :
    readLabels m limit pos w
      = readLabels m limit (pos + l.wireLength) { w with labels := w.labels ++ [l], fits } := by
  -- The first octet is the length, between 1 and 63, and so it begins a label and nothing else.
  have first : m[pos]? = some (UInt8.ofNat l.octets.length) :=
    hold.getElem? (i := 0) (Nat.succ_pos _)
  have content : Holds m (pos + 1) l.octets := Holds.right (a := [_]) hold
  have same := toNat_labelLength l
  have positive : UInt8.ofNat l.octets.length ≠ 0 := by
    intro zero
    have := length_pos_label l
    rw [zero] at same
    simp at same
    omega
  have plain : UInt8.ofNat l.octets.length < 64 := by
    have := l.short
    rw [UInt8.lt_iff_toNat_lt, same]
    exact Nat.lt_succ_of_le this
  have next : pos + 1 + (UInt8.ofNat l.octets.length).toNat = pos + l.wireLength := by
    rw [same, Label.wireLength]
    omega
  have inside : pos + l.wireLength ≤ m.size := by
    rw [← next, same]
    exact content.1
  rw [readLabels]
  simp only [first, dif_neg positive, dif_pos plain, next, dif_pos inside,
    labelAt_eq content same, dif_pos fits]

theorem readLabels_pointer {target : Fin 0x4000} (hold : Holds m pos (pointer target))
    (backwards : target.val < limit) :
    readLabels m limit pos w
      = readLabels m target.val target.val { w with resume := some (w.resume.getD (pos + 2)) } := by
  -- Both top bits of the first octet are set. The branches for labels and for the other two types
  -- of length octets are excluded by its size.
  obtain ⟨high, low, octets, large, leads⟩ := pointer_octets target
  rw [octets] at hold
  have first : m[pos]? = some high := hold.getElem? (i := 0) (by simp)
  have second : m[pos + 1]? = some low := hold.getElem? (i := 1) (by simp)
  have positive : high ≠ 0 := by
    rintro rfl
    simp at large
  have special : ¬high < 64 := by
    rw [UInt8.lt_iff_toNat_lt]
    exact Nat.not_lt.mpr (Nat.le_trans (by decide) large)
  have known : ¬high < 192 := by
    rw [UInt8.lt_iff_toNat_lt]
    exact Nat.not_lt.mpr large
  rw [readLabels]
  simp only [first, second, dif_neg positive, dif_neg special, if_neg known, leads,
    dif_pos backwards]

end Steps

/-- Reading finds what is spelled, behind whatever it has found before. A greater limit than needed
does no harm. -/
theorem Spelled.readLabels {fixed : Nat → Prop} {m : Array UInt8} {limit pos stop : Nat}
    {labels : List Label} (h : Spelled fixed m limit labels pos stop) :
    ∀ (limit' : Nat) (w : Walk) (fits : labelsLength (w.labels ++ labels) + 1 ≤ 255),
      limit ≤ limit' → Name.readLabels m limit' pos w
        = .ok ⟨w.labels ++ labels, true, fits⟩ (w.resume.getD stop) := by
  induction h with
  | root here =>
    intro limit' w fits _
    have fits' : labelsLength w.labels + 1 ≤ 255 := by simpa using fits
    rw [readLabels_root here.holds fits']
    simp only [List.append_nil]
  | @label limit pos stop l rest here tail ih =>
    intro limit' w fits le
    -- The labels read so far are in front: the statement is about them and the ones to come.
    have rejoin : w.labels ++ [l] ++ rest = w.labels ++ l :: rest := by simp
    have fits' : labelsLength (w.labels ++ [l]) ≤ 255 := by
      rw [← rejoin, labelsLength_append] at fits
      omega
    rw [readLabels_label here.holds fits']
    rw [ih limit' { w with labels := w.labels ++ [l], fits := fits' } (by rwa [rejoin]) le]
    simp only [rejoin]
  | pointer here backwards tail ih =>
    intro limit' w fits le
    -- From the first pointer on, `resume` tells where to go on; later pointers leave it alone.
    rw [readLabels_pointer here.holds (Nat.lt_of_lt_of_le backwards le)]
    exact ih _ { w with resume := some (w.resume.getD _) } fits (Nat.le_refl _)

/-- A name that is spelled from its own place on is read, also when the message goes on. -/
theorem Spelled.finds {fixed : Nat → Prop} {o : Array UInt8} {pos stop : Nat}
    {labels : List Label} (h : Spelled fixed o pos labels pos stop)
    (fits : labelsLength labels + 1 ≤ 255) :
    Name.read.Finds fixed o ⟨labels, true, fits⟩ pos stop := by
  intro m keeps
  have spelled := h.keeps keeps fun _ _ hf => hf
  exact spelled.readLabels pos ⟨pos, none, [], by simp⟩ fits (Nat.le_refl _)

/-! ## Composing spells

Two bookkeeping facts travel together through the induction: the name is spelled where it was to be
composed, and each of its suffixes that was noted is spelled where the table says it is. Neither can
be shown without the other, since the name that is noted first is the one that is completed last.
The letters need not agree. A suffix that is found in the table was written in the letters of an
earlier name, and so the name that is spelled is `Alike` to the one that was composed, and of the
same length. -/

/-- Labels that differ in the case of letters at most. -/
def Alike (a b : List Label) : Prop := a.map Label.lower = b.map Label.lower

theorem Alike.trans {a b c : List Label} (h : Alike a b) (g : Alike b c) : Alike a c :=
  Eq.trans h g

theorem Alike.length_eq {a b : List Label} (h : Alike a b) : a.length = b.length := by
  have := congrArg List.length h
  simpa using this

theorem Alike.labelsLength_eq {a b : List Label} (h : Alike a b) :
    labelsLength a = labelsLength b := by
  rw [← labelsLength_lower a, ← labelsLength_lower b, h]

theorem alike_of_beq {a b : Name} (h : (a == b) = true) : Alike a.labels b.labels :=
  congrArg Name.labels (beq_iff_canonical.mp h)

theorem beq_of_alike {a b : Name} (labels : Alike a.labels b.labels)
    (absolute : a.absolute = b.absolute) : (a == b) = true := by
  refine beq_iff_canonical.mpr ?_
  simp only [canonical, Name.mk.injEq]
  exact ⟨labels, absolute⟩

/-- A label as it is written. -/
theorem labelWire_eq (canonical : Bool) (l : Label) :
    ∃ written : Label, labelWire canonical l = written.wire ∧ written.lower = l.lower := by
  cases canonical with
  | false => exact ⟨l, rfl, rfl⟩
  | true => exact ⟨l.lower, rfl, by simp⟩

/-- Labels like these are spelled from a place on. -/
def SpelledAs (fixed : Nat → Prop) (o : Array UInt8) (limit : Nat) (labels : List Label)
    (pos stop : Nat) : Prop :=
  ∃ written, Alike written labels ∧ Spelled fixed o limit written pos stop

theorem SpelledAs.keeps {fixed fixed' : Nat → Prop} {a b : Array UInt8} {limit pos stop : Nat}
    {labels : List Label} (h : SpelledAs fixed a limit labels pos stop) (k : Keeps fixed a b)
    (sub : ∀ i, i < a.size → fixed i → fixed' i) : SpelledAs fixed' b limit labels pos stop := by
  obtain ⟨written, alike, spelled⟩ := h
  exact ⟨written, alike, spelled.keeps k sub⟩

theorem SpelledAs.mono {fixed : Nat → Prop} {o : Array UInt8} {limit limit' pos stop : Nat}
    {labels : List Label} (h : SpelledAs fixed o limit labels pos stop) (le : limit ≤ limit') :
    SpelledAs fixed o limit' labels pos stop := by
  obtain ⟨written, alike, spelled⟩ := h
  exact ⟨written, alike, spelled.mono le⟩

theorem Spelled.lt_size {fixed : Nat → Prop} {o : Array UInt8} {limit pos stop : Nat}
    {labels : List Label} (h : Spelled fixed o limit labels pos stop) : pos < o.size := by
  cases h with
  | root here => exact here.holds.1
  | label here _ =>
    have := here.holds.1
    rw [Label.length_wire, Label.wireLength] at this
    omega
  | pointer here _ _ =>
    have := here.holds.1
    rw [length_pointer] at this
    omega

/-- A name that is spelled is read, up to the case of its letters. -/
theorem SpelledAs.finds {fixed : Nat → Prop} {o : Array UInt8} {pos stop : Nat} {n : Name}
    (h : SpelledAs fixed o pos n.labels pos stop) (absolute : n.absolute = true) :
    ∃ found, (found == n) = true ∧ Name.read.Finds fixed o found pos stop := by
  obtain ⟨written, alike, spelled⟩ := h
  have fits : labelsLength written + 1 ≤ 255 := by
    have := n.fits
    rw [absolute] at this
    rw [alike.labelsLength_eq]
    exact this
  exact ⟨⟨written, true, fits⟩, beq_of_alike alike absolute.symm, spelled.finds fits⟩

end Name

/-- What the table must know of a name for a pointer to its place: it stands there, in front of
`limit`. -/
def Draft.Knows (fixed : Nat → Prop) (d : Draft) (limit : Nat) (n : Name) (p : Nat) : Prop :=
  n.absolute = true ∧ p < limit ∧ ∃ stop, Name.SpelledAs fixed d.octets p n.labels p stop

namespace Name

section Composing

variable {fixed : Nat → Prop} {d : Draft} {compressed canonical : Bool} {start : Nat}

/-- A name that is found in the table can be replaced by a pointer, if the table knows of names of
its length. -/
theorem pointer_spelled {n : Name} {p : Fin 0x4000} (covered : ∀ i, d.size ≤ i → fixed i)
    (known : ∀ m q, (m, q) ∈ d.table.toList → m.labels.length ≤ n.labels.length →
      d.Knows fixed start m q.val)
    (found : d.find? compressed n = some p) :
    SpelledAs fixed (d.put (pointer p)).octets start n.labels d.size
      (d.put (pointer p)).size := by
  have looked : d.table.get? n = some p := by
    unfold Draft.find? at found
    split at found
    · exact found
    · cases found
  -- The entry is that of a name `m` which is equal to `n`, perhaps in other letters. It has as many
  -- labels, so it is one of those that the table is known to be right about.
  obtain ⟨m, equal, there⟩ := CompressionTable.mem_of_get? looked
  have alike := alike_of_beq equal
  obtain ⟨-, backwards, stop, written, alike', spelled⟩ :=
    known m p there (Nat.le_of_eq alike.length_eq)
  have size : (d.put (pointer p)).size = d.size + 2 := by
    rw [← length_pointer p]
    exact size_append_octets d.octets (pointer p)
  refine ⟨written, alike'.trans alike, ?_⟩
  rw [size]
  exact .pointer (stands_append _ covered) backwards
    (spelled.keeps (.append _ _ _) fun _ _ hf => hf)

/-- The names in the table after a name was composed: those from before, and its suffixes. -/
def Noted (fixed : Nat → Prop) (start : Nat) (d d' : Draft) : Prop :=
  ∀ n p, (n, p) ∈ d'.table.toList → (n, p) ∈ d.table.toList ∨
    (d.size ≤ p.val ∧ n.absolute = true ∧
      SpelledAs fixed d'.octets start n.labels p.val d'.size)

/-- A step of composing adds a label and may note a name. -/
theorem octets_noted (n : Name) (o : Octets) :
    ((if compressed then d.note n else d).put o).octets = d.octets ++ o := by
  split <;> rfl

theorem mem_noted {n m : Name} {p : Fin 0x4000} {o : Octets}
    (h : (m, p) ∈ ((if compressed then d.note n else d).put o).table.toList) :
    (m, p) ∈ d.table.toList ∨ m = n ∧ p.val = d.size := by
  split at h
  · exact CompressionTable.mem_insert h
  · exact .inl h

/-- With the labels behind it, a label is spelled; so is the name that was noted for it. -/
theorem label_spelled {l : Label} {rest : List Label} {fits : labelsLength (l :: rest) + 1 ≤ 255}
    {d₁ d' : Draft} (octets : d₁.octets = d.octets ++ labelWire canonical l)
    (names : ∀ m p, (m, p) ∈ d₁.table.toList →
      (m, p) ∈ d.table.toList ∨ m = ⟨l :: rest, true, fits⟩ ∧ p.val = d.size)
    (covered : ∀ i, d.size ≤ i → fixed i) (grown : d₁.Grows d')
    (tail : SpelledAs fixed d'.octets start rest d₁.size d'.size)
    (noted : Noted fixed start d₁ d') :
    SpelledAs fixed d'.octets start (l :: rest) d.size d'.size ∧ Noted fixed start d d' := by
  obtain ⟨l', wire, lower⟩ := labelWire_eq canonical l
  obtain ⟨written, alike, spelled⟩ := tail
  rw [wire] at octets
  have size : d₁.size = d.size + l'.wireLength := by
    rw [← Label.length_wire]
    exact (congrArg Array.size octets).trans (size_append_octets _ _)
  have here : Stands fixed d'.octets d.size l'.wire := by
    have stands := stands_append (m := d.octets) l'.wire covered
    rw [← octets] at stands
    exact stands.keeps (grown.kept.mono fun _ _ _ => trivial) fun _ _ hf => hf
  rw [size] at spelled
  have whole : SpelledAs fixed d'.octets start (l :: rest) d.size d'.size := by
    refine ⟨l' :: written, ?_, .label here spelled⟩
    rw [Alike, List.map_cons, List.map_cons, lower, alike]
  refine ⟨whole, fun n p there => ?_⟩
  -- A name in the table was noted behind this label, for this label, or before.
  rcases noted n p there with before | ⟨behind, absolute, suffix⟩
  · rcases names n p before with old | ⟨rfl, place⟩
    · exact .inl old
    · rw [← place] at whole
      exact .inr ⟨Nat.le_of_eq place.symm, rfl, whole⟩
  · exact .inr ⟨by omega, absolute, suffix⟩

/-- Composing labels spells them and notes their suffixes. The induction is on the labels that are
left; of the names that are noted in vain so far, none has as few labels as these. -/
theorem composeLabels_spelled (compressed canonical : Bool) (labels : List Label)
    (fits : labelsLength labels + 1 ≤ 255) (covered : ∀ i, d.size ≤ i → fixed i)
    (known : ∀ n p, (n, p) ∈ d.table.toList → n.labels.length ≤ labels.length →
      d.Knows fixed start n p.val) :
    let d' := composeLabels compressed canonical labels fits d
    SpelledAs fixed d'.octets start labels d.size d'.size ∧ Noted fixed start d d' := by
  induction labels generalizing d with
  | nil =>
    rw [composeLabels]
    split
    · rename_i p found
      -- The root is looked up like every other name.
      exact ⟨pointer_spelled (n := root) covered known found, fun n p h => .inl h⟩
    · refine ⟨⟨[], rfl, ?_⟩, fun n p h => .inl h⟩
      have size : (d.put [0]).size = d.size + 1 := size_append_octets d.octets [0]
      rw [size]
      exact .root (stands_append _ covered)
  | cons l rest ih =>
    rw [composeLabels]
    simp only
    split
    · rename_i p found
      exact ⟨pointer_spelled covered known found, fun n p h => .inl h⟩
    · generalize step : Draft.put (if compressed then d.note ⟨l :: rest, true, fits⟩ else d)
        (labelWire canonical l) = d₁
      have octets : d₁.octets = d.octets ++ labelWire canonical l := by
        rw [← step]
        exact octets_noted _ _
      have names : ∀ m p, (m, p) ∈ d₁.table.toList →
          (m, p) ∈ d.table.toList ∨ m = ⟨l :: rest, true, fits⟩ ∧ p.val = d.size := by
        rw [← step]
        exact fun m p there => mem_noted there
      have kept : Keeps fixed d.octets d₁.octets := by
        rw [octets]
        exact .append _ _ _
      obtain ⟨tail, noted⟩ := ih (d := d₁) (by rw [labelsLength_cons] at fits; omega)
        (fun i hi => covered i (Nat.le_trans kept.1 hi)) (fun n p there fewer => by
          rcases names n p there with old | ⟨rfl, -⟩
          · obtain ⟨absolute, backwards, stop, spelled⟩ := known n p old (Nat.le_succ_of_le fewer)
            exact ⟨absolute, backwards, stop, spelled.keeps kept fun _ _ hf => hf⟩
          · -- The name that was just noted has one label more than are left.
            exact absurd fewer (Nat.not_succ_le_self _))
      exact label_spelled octets names covered (composeLabels_grows rest _) tail noted

end Composing

end Name

/-! ## Sound drafts

Between two names the table is sound again. This is the form in which the rest of the development
uses all this: a draft that is sound stays sound (`Name.composeLabels_sound`), and a name that is
composed on it is found again (`Name.compose_finds`). It does not matter who put the entries there.
A draft is also sound after it has been cut, and when octets are put behind, and when the ones that
are overwritten belong to no name. -/

namespace Draft

variable {fixed fixed' : Nat → Prop} {d d' : Draft}

/-- At the place of every name in the table a name equal to it is spelled. -/
def Sound (fixed : Nat → Prop) (d : Draft) : Prop :=
  ∀ n p, (n, p) ∈ d.table.toList → d.Knows fixed d.size n p.val

theorem sound_of_empty (fixed : Nat → Prop) (o : Array UInt8) :
    (Draft.mk o CompressionTable.empty).Sound fixed := fun n p there =>
  absurd (bounded_empty n p there) (Nat.not_lt_zero _)

theorem Knows.keeps {limit limit' : Nat} {n : Name} {p : Nat} (h : d.Knows fixed limit n p)
    (le : limit ≤ limit') (k : Keeps fixed d.octets d'.octets)
    (sub : ∀ i, i < d.size → fixed i → fixed' i) : d'.Knows fixed' limit' n p := by
  obtain ⟨absolute, backwards, stop, spelled⟩ := h
  exact ⟨absolute, Nat.lt_of_lt_of_le backwards le, stop, spelled.keeps k sub⟩

/-- A table stays sound if the message goes on. -/
theorem Sound.keeps (h : d.Sound fixed) (k : Keeps fixed d.octets d'.octets)
    (sub : ∀ i, i < d.size → fixed i → fixed' i) (same : d'.table = d.table) :
    d'.Sound fixed' := fun n p there =>
  (h n p (same ▸ there)).keeps k.1 k sub

/-- Soundness is a matter of the octets and of the entries of the table. -/
theorem Sound.congr (h : d.Sound fixed) (octets : d'.octets = d.octets)
    (table : d'.table.Same d.table) : d'.Sound fixed := by
  intro n p there
  have knows := h n p (table.mem_iff.mp there)
  rwa [Knows, ← octets, Draft.size, ← octets] at knows

theorem Sound.put (h : d.Sound fixed) (o : Octets) : (d.put o).Sound fixed :=
  h.keeps (.append _ _ _) (fun _ _ hf => hf) rfl

end Draft

namespace Name

variable {fixed : Nat → Prop} {d d' : Draft} {compressed canonical : Bool} {origin : Option Name}

theorem composeLabels_sound (labels : List Label) (fits : labelsLength labels + 1 ≤ 255)
    (covered : ∀ i, d.size ≤ i → fixed i) (sound : d.Sound fixed) :
    (composeLabels compressed canonical labels fits d).Sound fixed := by
  have grown : d.Grows (composeLabels compressed canonical labels fits d) :=
    composeLabels_grows labels fits
  obtain ⟨-, noted⟩ := composeLabels_spelled compressed canonical labels fits covered
    fun n p there _ => sound n p there
  intro n p there
  rcases noted n p there with old | ⟨behind, absolute, written, alike, spelled⟩
  · exact (sound n p old).keeps grown.size_le (grown.kept.mono fun _ _ _ => trivial)
      fun _ _ hf => hf
  · exact ⟨absolute, spelled.lt_size, _, written, alike, spelled.mono behind⟩

/-- A name that was composed is read back, up to letter case, and reading stops behind it. -/
theorem compose_finds {n : Name} (covered : ∀ i, d.size ≤ i → fixed i) (sound : d.Sound fixed)
    (run : n.compose compressed origin canonical d = .ok () d') :
    d'.Sound fixed ∧ ∃ full found, n.completed origin = .ok full ∧ (found == full.val) = true ∧
      Name.read.Finds fixed d'.octets found d.size d'.size := by
  rw [compose] at run
  split at run
  · cases run
  · rename_i m absolute completed
    cases run
    refine ⟨composeLabels_sound _ _ covered sound, ⟨m, absolute⟩, ?_⟩
    obtain ⟨spelled, -⟩ := composeLabels_spelled compressed canonical m.labels
      (by simpa [absolute] using m.fits) covered fun n p there _ => sound n p there
    obtain ⟨found, equal, finds⟩ := spelled.finds (n := m) absolute
    exact ⟨found, completed, equal, finds⟩

end Name

end Dns
