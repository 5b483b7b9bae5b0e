import Dns.Name.Text
import Mathlib.Data.List.Forall2

/-!
# The texts that mean names

Which texts mean a name is said here without a scanner. An octet of a label stands for itself, or
behind a backslash, or as three digits behind one; a label is the texts of its octets one after the
other; and labels stand with single dots between them, with or without a dot at the end
(`Name.PresentsLabels`). Beside these there are the texts that mean names without labels.

The scanner reads every such text as its labels, whatever it has begun and whatever follows
(`Name.scan_presented`), and what it reads is such a text (`Name.scan_ok`). The first is by
induction on the labels, the second on the scanner, with the octets of the label that has been begun
in front of those that are still to come.

The relation is about octets. A character that is not ASCII is several of them in UTF-8, each of
which stands for itself, and a label is limited by its octets and not by its characters. Digits
behind a backslash are always three, and a single digit cannot be escaped by a backslash, for it
would be the first of three.

That a text presents labels does not mean that they fit into a name: labels may be too long, and
there may be too many. `Name.Fit` is the condition on labels, and it is no other than that there is
a name with them (`Name.fit_iff`). So each way in which a text can be refused is one of the two.
-/

set_option autoImplicit false

namespace Dns

namespace Name

/-! ## Presentations

The three lemmas about labels take a text apart at its first label, as the scanner does. The same
labels may be presented by several texts, but no text presents two lists of labels, since it is
scanned to the one that it presents. -/

/-- An ASCII digit. -/
def IsDigit (b : UInt8) : Prop := 48 ≤ b.toNat ∧ b.toNat ≤ 57

instance (b : UInt8) : Decidable (IsDigit b) := inferInstanceAs (Decidable (_ ∧ _))

/-- What may be written for an octet of a label. -/
inductive PresentsOctet : (text : Octets) → UInt8 → Prop
  | itself {b : UInt8} (dot : b ≠ 46) (backslash : b ≠ 92) : PresentsOctet [b] b
  | escaped {b : UInt8} (noDigit : ¬ IsDigit b) : PresentsOctet [92, b] b
  | byValue {x y z b : UInt8} (first : IsDigit x) (second : IsDigit y) (third : IsDigit z)
      (value : (x.toNat - 48) * 100 + (y.toNat - 48) * 10 + (z.toNat - 48) = b.toNat) :
      PresentsOctet [92, x, y, z] b

/-- What may be written for a label. -/
def PresentsLabel (text label : Octets) : Prop :=
  ∃ pieces, List.Forall₂ PresentsOctet pieces label ∧ text = pieces.flatten

/-- What may be written for labels: each of them, with single dots between them, and one more dot
if the root label follows. -/
def PresentsLabels (text : Octets) (labels : List Octets) (absolute : Bool) : Prop :=
  ∃ pieces, List.Forall₂ PresentsLabel pieces labels ∧
    text = List.intercalate [46] pieces ++ if absolute then [46] else []

/-- Labels of 1 to 63 octets which take up 255 octets at most, with an octet for the length of each
of them and one for the root label. -/
def Fit (labels : List Octets) (absolute : Bool) : Prop :=
  (∀ label ∈ labels, 1 ≤ label.length ∧ label.length ≤ 63) ∧
    labels.foldr (fun label rest => label.length + 1 + rest) 0 + absolute.toNat ≤ 255

/-- A text that means the name of some labels: one of those that mean no labels, or another one that
presents them. -/
def Presents (text : Octets) (labels : List Octets) (absolute : Bool) : Prop :=
  if text = [] ∨ text = [64] then labels = [] ∧ absolute = false
  else if text = [46] then labels = [] ∧ absolute = true
  else PresentsLabels text labels absolute ∧ Fit labels absolute

theorem PresentsLabel.cons {piece text label : Octets} {b : UInt8} (octet : PresentsOctet piece b)
    (rest : PresentsLabel text label) : PresentsLabel (piece ++ text) (b :: label) := by
  obtain ⟨pieces, octets, rfl⟩ := rest
  exact ⟨piece :: pieces, .cons octet octets, rfl⟩

theorem presentsLabels_nil {text : Octets} {absolute : Bool} :
    PresentsLabels text [] absolute ↔ text = if absolute then [46] else [] := by
  constructor
  · rintro ⟨pieces, none, rfl⟩
    cases none
    rfl
  · rintro rfl
    exact ⟨[], .nil, rfl⟩

theorem presentsLabels_single {text label : Octets} {absolute : Bool} :
    PresentsLabels text [label] absolute ↔
      ∃ piece, PresentsLabel piece label ∧ text = piece ++ if absolute then [46] else [] := by
  constructor
  · rintro ⟨pieces, one, rfl⟩
    obtain ⟨piece, _, presents, none, rfl⟩ := List.forall₂_cons_right_iff.mp one
    cases none
    exact ⟨piece, presents, by rw [List.intercalate_singleton]⟩
  · rintro ⟨piece, presents, rfl⟩
    exact ⟨[piece], .cons presents .nil, by rw [List.intercalate_singleton]⟩

theorem presentsLabels_cons {text label next : Octets} {rest : List Octets} {absolute : Bool} :
    PresentsLabels text (label :: next :: rest) absolute ↔
      ∃ piece more, PresentsLabel piece label ∧ PresentsLabels more (next :: rest) absolute ∧
        text = piece ++ 46 :: more := by
  constructor
  · rintro ⟨pieces, all, rfl⟩
    obtain ⟨piece, _, presents, others, rfl⟩ := List.forall₂_cons_right_iff.mp all
    obtain ⟨second, pieces, -, -, rfl⟩ := List.forall₂_cons_right_iff.mp others
    refine ⟨piece, _, presents, ⟨_, others, rfl⟩, ?_⟩
    rw [List.intercalate_cons_cons, List.append_assoc, List.append_assoc]
    rfl
  · rintro ⟨piece, _, presents, ⟨pieces, others, rfl⟩, rfl⟩
    obtain ⟨second, pieces, -, -, rfl⟩ := List.forall₂_cons_right_iff.mp others
    refine ⟨piece :: second :: pieces, .cons presents others, ?_⟩
    rw [List.intercalate_cons_cons, List.append_assoc, List.append_assoc]
    rfl

/-- One more octet at the beginning of the first label. -/
theorem PresentsLabels.octet {piece text first : Octets} {rest : List Octets} {absolute : Bool}
    {b : UInt8} (octet : PresentsOctet piece b) (h : PresentsLabels text (first :: rest) absolute) :
    PresentsLabels (piece ++ text) ((b :: first) :: rest) absolute := by
  cases rest with
  | nil =>
    obtain ⟨label, presents, rfl⟩ := presentsLabels_single.mp h
    exact presentsLabels_single.mpr ⟨_, presents.cons octet, (List.append_assoc ..).symm⟩
  | cons next rest =>
    obtain ⟨label, more, presents, others, rfl⟩ := presentsLabels_cons.mp h
    exact presentsLabels_cons.mpr ⟨_, more, presents.cons octet, others,
      (List.append_assoc ..).symm⟩

/-! ## Steps of the scanner

One equation for each way in which the scanner goes on. Those that end in an error are not needed: a
text that is read did not go through them. They are used as rewriting rules, so that the proofs
about texts do not open the scanner again. -/

variable {current rest : Octets} {b x y z : UInt8}

theorem scan_octet (dot : b ≠ 46) (backslash : b ≠ 92) :
    scan current (b :: rest) = scan (b :: current) rest := by
  rw [scan.eq_def]
  simp only [dot, backslash, if_false]

theorem scan_escaped (noDigit : digitValue? x = none) :
    scan current (92 :: x :: rest) = scan (x :: current) rest := by
  rw [scan.eq_def]
  simp [noDigit]

theorem scan_value (digits : escapedOctet? x y z = some b) :
    scan current (92 :: x :: y :: z :: rest) = scan (b :: current) rest := by
  have first : (digitValue? x).isSome = true := by
    cases digit : digitValue? x with
    | none => simp [escapedOctet?, digit] at digits
    | some => rfl
  rw [scan.eq_def]
  simp [first, digits]

theorem scan_dot (begun : current ≠ []) :
    scan current (46 :: x :: rest) = (scan [] (x :: rest)).map fun (labels, absolute) =>
      (current.reverse :: labels, absolute) := by
  rw [scan.eq_def]
  simp only [List.isEmpty_iff, begun, if_true, if_false]
  rfl

theorem scan_lastDot (begun : current ≠ []) :
    scan current [46] = .ok ([current.reverse], true) := by
  rw [scan.eq_def]
  simp [begun]

theorem scan_end (begun : current ≠ []) : scan current [] = .ok ([current.reverse], false) := by
  rw [scan.eq_def]
  simp [begun]

/-! ## Digits -/

theorem digitValue?_eq (b : UInt8) :
    digitValue? b = if IsDigit b then some (b.toNat - 48) else none := by
  have same : 48 ≤ b ∧ b ≤ 57 ↔ IsDigit b := by
    rw [UInt8.le_iff_toNat_le, UInt8.le_iff_toNat_le]
    rfl
  unfold digitValue?
  simp only [same]

theorem digitValue?_isSome (b : UInt8) : (digitValue? b).isSome = true ↔ IsDigit b := by
  rw [digitValue?_eq]
  split <;> simp_all

theorem escapedOctet?_eq_some_iff : escapedOctet? x y z = some b ↔
    IsDigit x ∧ IsDigit y ∧ IsDigit z ∧
      (x.toNat - 48) * 100 + (y.toNat - 48) * 10 + (z.toNat - 48) = b.toNat := by
  unfold escapedOctet?
  rw [digitValue?_eq, digitValue?_eq, digitValue?_eq]
  by_cases first : IsDigit x
  · by_cases second : IsDigit y
    · by_cases third : IsDigit z
      · simp only [first, second, third, if_true, Option.bind_eq_bind, Option.bind_some, true_and]
        constructor
        · intro some
          split at some
          · rename_i small
            rw [← Option.some.inj some, UInt8.toNat_ofNat', Nat.mod_eq_of_lt small]
          · cases some
        · intro value
          rw [value, if_pos b.toNat_lt, UInt8.ofNat_toNat]
      · simp [first, second, third]
    · simp [first, second]
  · simp [first]

/-! ## What is presented is scanned -/

theorem scan_presentedOctet {text : Octets} (h : PresentsOctet text b) (current rest : Octets) :
    scan current (text ++ rest) = scan (b :: current) rest := by
  cases h with
  | itself dot backslash => exact scan_octet dot backslash
  | escaped noDigit =>
    exact scan_escaped (by rw [digitValue?_eq, if_neg noDigit])
  | byValue first second third value =>
    exact scan_value (escapedOctet?_eq_some_iff.mpr ⟨first, second, third, value⟩)

theorem scan_presentedLabel {text label : Octets} (h : PresentsLabel text label)
    (current rest : Octets) :
    scan current (text ++ rest) = scan (label.reverse ++ current) rest := by
  obtain ⟨pieces, octets, rfl⟩ := h
  induction octets generalizing current with
  | nil => rfl
  | cons octet _ ih =>
    rw [List.flatten_cons, List.append_assoc, scan_presentedOctet octet, ih, List.reverse_cons,
      List.append_assoc, List.singleton_append]

/-- A text is scanned as the labels that it presents. -/
theorem scan_presented {text label : Octets} {rest : List Octets} {absolute : Bool}
    (h : PresentsLabels text (label :: rest) absolute)
    (nonempty : ∀ l ∈ label :: rest, l ≠ []) :
    scan [] text = .ok (label :: rest, absolute) := by
  induction rest generalizing text label with
  | nil =>
    obtain ⟨piece, presents, rfl⟩ := presentsLabels_single.mp h
    -- A dot behind nothing is an error, and so it matters that the label is not empty.
    have begun : label.reverse ++ [] ≠ [] := by
      simpa using nonempty label List.mem_cons_self
    rw [scan_presentedLabel presents]
    cases absolute with
    | false => exact (scan_end begun).trans (by rw [List.append_nil, List.reverse_reverse])
    | true => exact (scan_lastDot begun).trans (by rw [List.append_nil, List.reverse_reverse])
  | cons next rest ih =>
    obtain ⟨piece, more, presents, others, rfl⟩ := presentsLabels_cons.mp h
    have begun : label.reverse ++ [] ≠ [] := by
      simpa using nonempty label List.mem_cons_self
    have behind := fun l mem => nonempty l (List.mem_cons_of_mem label mem)
    have scanned := ih others behind
    rw [scan_presentedLabel presents]
    cases more with
    | nil => cases scanned
    | cons x more =>
      rw [scan_dot begun, scanned, List.append_nil, List.reverse_reverse]
      rfl

/-! ## What is scanned is presented -/

/-- What is said of a text by what it is scanned as: there is nothing in it, or it presents labels
of which the first one goes on with the octets of the label that has been begun. -/
def Scanned (current text : Octets) (labels : List Octets) (absolute : Bool) : Prop :=
  (current = [] ∧ text = [] ∧ labels = [] ∧ absolute = false) ∨
    ∃ first others, labels = (current.reverse ++ first) :: others ∧
      PresentsLabels text (first :: others) absolute

theorem Scanned.octet {piece text : Octets} {labels : List Octets} {absolute : Bool}
    (octet : PresentsOctet piece b) (h : Scanned (b :: current) text labels absolute) :
    Scanned current (piece ++ text) labels absolute := by
  rcases h with ⟨begun, -⟩ | ⟨first, others, rfl, presents⟩
  · cases begun
  · refine .inr ⟨b :: first, others, ?_, presents.octet octet⟩
    rw [List.reverse_cons, List.append_assoc, List.singleton_append]

theorem scan_ok {text : Octets} {labels : List Octets} {absolute : Bool}
    (h : scan current text = .ok (labels, absolute)) : Scanned current text labels absolute := by
  have nothing : PresentsLabel [] [] := ⟨[], .nil, rfl⟩
  fun_induction scan current text generalizing labels absolute with
  | case1 current =>
    cases h
    cases current with
    | nil => exact .inl ⟨rfl, rfl, rfl, rfl⟩
    | cons b current =>
      exact .inr ⟨[], [], by simp, presentsLabels_single.mpr ⟨[], nothing, rfl⟩⟩
  | case3 current begun =>
    cases h
    exact .inr ⟨[], [], by simp, presentsLabels_single.mpr ⟨[], nothing, rfl⟩⟩
  | case4 current begun next rest ih =>
    -- The label that has been begun ends here, and the next one begins with nothing.
    cases scanned : scan [] (next :: rest) with
    | error e =>
      rw [scanned] at h
      cases h
    | ok found =>
      rw [scanned] at h
      cases h
      rcases ih scanned with ⟨-, text, -⟩ | ⟨first, others, labels, presents⟩
      · cases text
      · rw [List.reverse_nil, List.nil_append] at labels
        refine .inr ⟨[], first :: others, ?_, ?_⟩
        · rw [List.append_nil, labels]
        · exact presentsLabels_cons.mpr ⟨[], _, nothing, presents, rfl⟩
  -- An octet by its value, behind a backslash, or as it is.
  | case6 current x digit y z rest b value _ ih =>
    obtain ⟨first, second, third, value⟩ := escapedOctet?_eq_some_iff.mp value
    exact (ih h).octet (.byValue first second third value)
  | case9 current b rest noDigit _ ih =>
    rw [digitValue?_isSome] at noDigit
    exact (ih h).octet (.escaped noDigit)
  | case10 current b rest dot backslash ih => exact (ih h).octet (.itself dot backslash)
  | case2 | case5 | case7 | case8 => cases h

/-! ## Names

Making a name of octets asks for the length of each label and for that of the whole. Whoever has a
name has asked already. -/

theorem foldr_octets (labels : List Label) :
    (labels.map Label.octets).foldr (fun label rest => label.length + 1 + rest) 0
      = labelsLength labels := by
  induction labels with
  | nil => rfl
  | cons l rest ih =>
    rw [List.map_cons, List.foldr_cons, ih]
    rfl

theorem label_ofOctets {octets : Octets} {l : Label} :
    Label.ofOctets octets = .ok l ↔ l.octets = octets := by
  constructor
  · intro made
    unfold Label.ofOctets at made
    split at made
    · cases made
    · split at made
      · cases made
        rfl
      · cases made
  · rintro rfl
    rw [Label.ofOctets, dif_neg l.nonempty, dif_pos l.short]

theorem mapM_ofOctets {labels : List Octets} {found : List Label} :
    labels.mapM Label.ofOctets = .ok found ↔ found.map Label.octets = labels := by
  induction labels generalizing found with
  | nil =>
    rw [List.map_eq_nil_iff]
    exact ⟨fun all => (Except.ok.inj all).symm, fun nothing => congrArg Except.ok nothing.symm⟩
  | cons octets rest ih =>
    rw [List.mapM_cons]
    constructor
    · intro all
      -- An error of any label is one of all, so that both the first label and the others were made.
      cases first : Label.ofOctets octets with
      | error e =>
        rw [first] at all
        cases all
      | ok l =>
        cases others : rest.mapM Label.ofOctets with
        | error e =>
          rw [first, others] at all
          cases all
        | ok ls =>
          rw [first, others] at all
          cases all
          rw [List.map_cons, label_ofOctets.mp first, ih.mp others]
    · intro all
      cases found with
      | nil => cases all
      | cons l ls =>
        obtain ⟨first, others⟩ := List.cons_eq_cons.mp all
        rw [label_ofOctets.mpr first, ih.mpr others]
        rfl

/-- Octets of labels make the name that has these octets. -/
theorem ofOctets_ok_iff {labels : List Octets} {absolute : Bool} {n : Name} :
    ofOctets labels absolute = .ok n ↔
      n.labels.map Label.octets = labels ∧ n.absolute = absolute := by
  unfold ofOctets
  constructor
  · intro made
    cases all : labels.mapM Label.ofOctets with
    | error e =>
      rw [all] at made
      cases made
    | ok found =>
      rw [all] at made
      have made : ofLabels found absolute = .ok n := made
      unfold ofLabels at made
      split at made
      · cases made
        exact ⟨mapM_ofOctets.mp all, rfl⟩
      · cases made
  · rintro ⟨rfl, rfl⟩
    rw [mapM_ofOctets.mpr rfl]
    exact dif_pos n.fits

/-- There is a name of some labels exactly if they fit. -/
theorem fit_iff {labels : List Octets} {absolute : Bool} :
    Fit labels absolute ↔
      ∃ n : Name, n.labels.map Label.octets = labels ∧ n.absolute = absolute := by
  constructor
  · rintro ⟨each, total⟩
    obtain ⟨found, rfl⟩ : ∃ found : List Label, found.map Label.octets = labels := by
      clear total
      induction labels with
      | nil => exact ⟨[], rfl⟩
      | cons octets rest ih =>
        obtain ⟨⟨nonempty, short⟩, others⟩ := List.forall_mem_cons.mp each
        obtain ⟨found, rfl⟩ := ih others
        exact ⟨⟨octets, List.ne_nil_of_length_pos nonempty, short⟩ :: found, rfl⟩
    rw [foldr_octets] at total
    exact ⟨⟨found, absolute, total⟩, rfl, rfl⟩
  · rintro ⟨n, rfl, rfl⟩
    refine ⟨?_, ?_⟩
    · intro label mem
      obtain ⟨l, -, rfl⟩ := List.mem_map.mp mem
      exact ⟨List.length_pos_iff.mpr l.nonempty, l.short⟩
    · rw [foldr_octets]
      exact n.fits

theorem eq_of_parts {n m : Name} (labels : n.labels = m.labels)
    (absolute : n.absolute = m.absolute) : n = m := by
  cases n
  cases m
  cases labels
  cases absolute
  rfl

theorem ok_iff_of_no_labels {n m : Name} (none : n.labels = []) :
    (Except.ok n : Except NameError Name) = .ok m ↔
      m.labels.map Label.octets = [] ∧ m.absolute = n.absolute := by
  rw [Except.ok.injEq, List.map_eq_nil_iff]
  constructor
  · rintro rfl
    exact ⟨none, rfl⟩
  · rintro ⟨labels, absolute⟩
    exact eq_of_parts (none.trans labels.symm) absolute.symm

/-- Scanned octets make the name whose labels they present. There are labels in every text but the
two that present none. -/
theorem scan_ofOctets_iff {text : Octets} {n : Name} (noEmpty : text ≠ []) (noRoot : text ≠ [46]) :
    (do let (labels, absolute) ← scan [] text; ofOctets labels absolute) = .ok n ↔
      PresentsLabels text (n.labels.map Label.octets) n.absolute := by
  constructor
  · intro made
    cases scanned : scan [] text with
    | error e =>
      rw [scanned] at made
      cases made
    | ok found =>
      rw [scanned] at made
      obtain ⟨labels, absolute⟩ := ofOctets_ok_iff.mp made
      rw [labels, absolute]
      rcases scan_ok scanned with ⟨-, text, -⟩ | ⟨first, others, all, presents⟩
      · exact absurd text noEmpty
      · rw [all]
        exact presents
  · -- Without labels only the two texts are left that were set aside.
    intro presents
    cases labels : n.labels.map Label.octets with
    | nil =>
      rw [labels, presentsLabels_nil] at presents
      cases absolute : n.absolute with
      | false => exact absurd (by rw [presents, absolute]; rfl) noEmpty
      | true => exact absurd (by rw [presents, absolute]; rfl) noRoot
    | cons first others =>
      have nonempty : ∀ l ∈ first :: others, l ≠ [] := by
        intro l mem
        rw [← labels] at mem
        obtain ⟨label, -, rfl⟩ := List.mem_map.mp mem
        exact label.nonempty
      rw [labels] at presents
      rw [scan_presented presents nonempty]
      exact ofOctets_ok_iff.mpr ⟨labels, rfl⟩

/-- A text means a name if it presents its labels, and no other name. -/
theorem ofTextOctets_ok_iff {text : Octets} {n : Name} :
    ofTextOctets text = .ok n ↔ Presents text (n.labels.map Label.octets) n.absolute := by
  have fits : Fit (n.labels.map Label.octets) n.absolute := fit_iff.mpr ⟨n, rfl, rfl⟩
  unfold ofTextOctets Presents
  split
  · exact ok_iff_of_no_labels rfl
  · rename_i noEmpty
    split
    · exact ok_iff_of_no_labels rfl
    · rename_i noRoot
      rw [scan_ofOctets_iff (fun empty => noEmpty (.inl empty)) noRoot]
      exact (and_iff_left fits).symm

theorem Presents.fit {text : Octets} {labels : List Octets} {absolute : Bool}
    (h : Presents text labels absolute) : Fit labels absolute := by
  have nothing : ∀ absolute : Bool, Fit [] absolute := by
    intro absolute
    exact ⟨List.forall_mem_nil _, by cases absolute <;> decide⟩
  unfold Presents at h
  split at h
  · obtain ⟨rfl, -⟩ := h
    exact nothing absolute
  · split at h
    · obtain ⟨rfl, -⟩ := h
      exact nothing absolute
    · exact h.2

/-- A text is read as a name exactly if it presents labels that fit, and then as the name of these
labels; every other text is refused. -/
theorem ofText_accepts_presented (text : String) :
    (∀ (labels : List Octets) (absolute : Bool),
      Presents text.toUTF8.data.toList labels absolute ↔
        ∃ n, ofText text = .ok n ∧ n.labels.map Label.octets = labels ∧ n.absolute = absolute) ∧
    ((∃ e, ofText text = .error e) ↔
      ∀ (labels : List Octets) (absolute : Bool),
        ¬ Presents text.toUTF8.data.toList labels absolute) := by
  have accepted : ∀ (labels : List Octets) (absolute : Bool),
      Presents text.toUTF8.data.toList labels absolute ↔
        ∃ n, ofText text = .ok n ∧ n.labels.map Label.octets = labels ∧
          n.absolute = absolute := by
    intro labels absolute
    constructor
    · intro presents
      obtain ⟨n, rfl, rfl⟩ := fit_iff.mp presents.fit
      exact ⟨n, ofTextOctets_ok_iff.mpr presents, rfl, rfl⟩
    · rintro ⟨n, read, rfl, rfl⟩
      exact ofTextOctets_ok_iff.mp read
  refine ⟨accepted, ?_, ?_⟩
  · rintro ⟨e, refused⟩ labels absolute presents
    obtain ⟨n, read, -⟩ := (accepted labels absolute).mp presents
    rw [refused] at read
    cases read
  · intro none
    cases result : ofText text with
    | error e => exact ⟨e, rfl⟩
    | ok n => exact absurd ((accepted _ _).mpr ⟨n, result, rfl, rfl⟩) (none _ _)

end Name

end Dns
