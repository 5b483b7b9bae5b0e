import Dns.Proofs.Footprints

/-!
# Where reading a name leads

Reading a name goes forwards over labels and backwards over pointers, through a message that whoever
sent it may have filled with anything. What can be said of it on every message is said of its trail:
the labels and pointers that it passes, one after the other (`Name.Trail`), and the reason why it
ends where it does (`Name.Ends`). Both are relations that do not speak of reading; that reading
follows them is `Journey.read_eq`, and that there always is a trail to follow is `exists_trail`.

Each kind of fact about reading is then a short induction on trails. The limit for pointers is the
target of the last one, so that targets fall (`Trail.falling`) and a trail is not longer than its
start and the length of a name allow (`Trail.length_le`). Labels and pointers stand in the message,
so that no place outside is visited (`Trail.inside`). And since all else is left to the message, a
message that has the same octets at these places is read in the same way (`Trail.of_same`).

A trail and its end make a `Journey`. Every way to go on or to stop has its own constructor, and
none is left over for all the others, so that the relations can be held against the format one line
at a time.
-/

set_option autoImplicit false

namespace Dns

namespace Name

/-! ## Hops -/

/-- What is passed when a name is read: a label, or a pointer that leads to another place. -/
inductive Hop where
  | label (place : Nat) (l : Label)
  | pointer (place : Nat) (target : Fin 0x4000)

namespace Hop

/-- The octets that it stands in. -/
def places : Hop → List Nat
  | label place l => List.range' place l.wireLength
  | pointer place _ => [place, place + 1]

def label? : Hop → Option Label
  | label _ l => some l
  | pointer .. => none

def target? : Hop → Option Nat
  | label .. => none
  | pointer _ target => some target.val

/-- The place behind a pointer, to which reading returns in the end. -/
def behind? : Hop → Option Nat
  | label .. => none
  | pointer place _ => some (place + 2)

end Hop

def labelsOf (hops : List Hop) : List Label := hops.filterMap Hop.label?

/-- The places that pointers lead to, in the order in which they are followed. -/
def targetsOf (hops : List Hop) : List Nat := hops.filterMap Hop.target?

/-- The place behind the first pointer. -/
def resumeOf (hops : List Hop) : Option Nat := hops.findSome? Hop.behind?

@[simp] theorem labelsOf_label (place : Nat) (l : Label) (hops : List Hop) :
    labelsOf (.label place l :: hops) = l :: labelsOf hops := rfl

@[simp] theorem labelsOf_pointer (place : Nat) (target : Fin 0x4000) (hops : List Hop) :
    labelsOf (.pointer place target :: hops) = labelsOf hops := rfl

@[simp] theorem targetsOf_label (place : Nat) (l : Label) (hops : List Hop) :
    targetsOf (.label place l :: hops) = targetsOf hops := rfl

@[simp] theorem targetsOf_pointer (place : Nat) (target : Fin 0x4000) (hops : List Hop) :
    targetsOf (.pointer place target :: hops) = target.val :: targetsOf hops := rfl

/-- Where reading stands in the end: behind the first pointer if one was followed, and otherwise
behind the root label, or where it began if there is no name. -/
def outcomeOf (resume : Option Nat) (stop start : Nat) : Except ParseError Name → Outcome Name
  | .ok n => .ok n (resume.getD (stop + 1))
  | .error e => .error e (resume.getD start)

/-! ## Trails

The target of a pointer is both the next place and the next limit. So the limit is of interest only
for the pointers to come, and labels leave it alone. Reading starts with both at the same place, and
so the first pointer leads to a place in front of the name itself. -/

/-- Labels and pointers that stand in a message and lead from a place to another. Each pointer goes
below the limit and is the limit for the next one. -/
inductive Trail (m : Array UInt8) : (limit pos : Nat) → List Hop → (limit' pos' : Nat) → Prop
  | done {limit pos : Nat} : Trail m limit pos [] limit pos
  | label {limit pos limit' pos' : Nat} {l : Label} {hops : List Hop}
      (here : Holds m pos l.wire)
      (rest : Trail m limit (pos + l.wireLength) hops limit' pos') :
      Trail m limit pos (.label pos l :: hops) limit' pos'
  | pointer {limit pos limit' pos' : Nat} {target : Fin 0x4000} {hops : List Hop}
      (here : Holds m pos (pointer target)) (backwards : target.val < limit)
      (rest : Trail m target.val target.val hops limit' pos') :
      Trail m limit pos (.pointer pos target :: hops) limit' pos'

/-- Why reading ends at a place, with some labels found: the places that it looks at there, and what
comes of it. -/
inductive Ends (m : Array UInt8) (limit pos : Nat) (labels : List Label) :
    List Nat → Except ParseError Name → Prop
  | root (first : m[pos]? = some 0) (fits : labelsLength labels + 1 ≤ 255) :
      Ends m limit pos labels [pos] (.ok ⟨labels, true, fits⟩)
  | longRoot (first : m[pos]? = some 0) (long : ¬labelsLength labels + 1 ≤ 255) :
      Ends m limit pos labels [pos] (.error (.malformed .longName))
  | outside (first : m[pos]? = none) : Ends m limit pos labels [] (.error .shortInput)
  | cutLabel {octet : UInt8} (first : m[pos]? = some octet) (positive : octet ≠ 0)
      (plain : octet < 64) (cut : ¬pos + 1 + octet.toNat ≤ m.size) :
      Ends m limit pos labels [pos] (.error .shortInput)
  | longLabels {octet : UInt8} (first : m[pos]? = some octet) (positive : octet ≠ 0)
      (plain : octet < 64) (inside : pos + 1 + octet.toNat ≤ m.size)
      (long : ¬labelsLength labels + (octet.toNat + 1) ≤ 255) :
      Ends m limit pos labels (List.range' pos (octet.toNat + 1)) (.error (.malformed .longName))
  | reserved {octet : UInt8} (first : m[pos]? = some octet) (special : ¬octet < 64)
      (unknown : octet < 192) :
      Ends m limit pos labels [pos] (.error (.malformed .unknownLabelType))
  | cutPointer {octet : UInt8} (first : m[pos]? = some octet) (known : ¬octet < 192)
      (second : m[pos + 1]? = none) : Ends m limit pos labels [pos] (.error .shortInput)
  | forwards {octet low : UInt8} (first : m[pos]? = some octet) (known : ¬octet < 192)
      (second : m[pos + 1]? = some low)
      (bad : ¬(octet.toNat - 192) * 256 + low.toNat < limit) :
      Ends m limit pos labels [pos, pos + 1] (.error (.malformed .badPointer))

/-! ## Reading follows its trail

That there is a trail is an induction on the cases of reading (`exists_trail`). That reading follows
it is an induction on the trail (`Trail.readLabels`), and at its end there is one case for each
reason to stop (`Ends.readLabels`). -/

section Reading

variable {m u : Array UInt8} {limit pos limit' pos' : Nat} {hops : List Hop}

theorem labelsLength_labelAt (labels : List Label) {octet : UInt8} (positive : octet ≠ 0)
    (plain : octet < 64) (inside : pos + 1 + octet.toNat ≤ m.size) :
    labelsLength (labels ++ [labelAt m (pos + 1) octet positive plain inside])
      = labelsLength labels + (octet.toNat + 1) := by
  have length : (labelAt m (pos + 1) octet positive plain inside).octets.length = octet.toNat := by
    simp only [labelAt, Array.length_toList, Array.size_extract]
    omega
  rw [labelsLength_append, labelsLength_cons, Label.wireLength, length, labelsLength_nil]

/-- Wherever reading begins, there is a trail of labels that fit into a name, and an end of it. -/
theorem exists_trail (m : Array UInt8) (limit pos : Nat) (w : Walk) :
    ∃ hops limit' pos' places result, Trail m limit pos hops limit' pos' ∧
      labelsLength (w.labels ++ labelsOf hops) ≤ 255 ∧
      Ends m limit' pos' (w.labels ++ labelsOf hops) places result := by
  -- Where reading goes no further, the trail is empty.
  have here : ∀ {limit pos : Nat} {w : Walk} {places : List Nat} {result : Except ParseError Name},
      Ends m limit pos w.labels places result →
      ∃ hops limit' pos' places result, Trail m limit pos hops limit' pos' ∧
        labelsLength (w.labels ++ labelsOf hops) ≤ 255 ∧
        Ends m limit' pos' (w.labels ++ labelsOf hops) places result := by
    intro limit pos w places result ends
    have none : w.labels ++ labelsOf [] = w.labels := List.append_nil _
    refine ⟨[], limit, pos, places, result, .done, ?_, ?_⟩
    · rw [none]
      exact w.fits
    · rw [none]
      exact ends
  fun_induction readLabels m limit pos w with
  | case1 limit pos w first => exact here (.outside first)
  | case2 limit pos w fits first => exact here (.root first fits)
  | case3 limit pos w long first => exact here (.longRoot first long)
  | case4 limit pos w octet first positive plain inside labels fits ih =>
    obtain ⟨hops, limit', pos', places, result, trail, short, ends⟩ := ih
    obtain ⟨holds, reached⟩ := labelAt_spans first positive plain inside
    rw [Label.length_wire] at reached
    rw [reached] at trail
    have joined : labels ++ labelsOf hops
        = w.labels ++ labelsOf (.label pos (labelAt m (pos + 1) octet positive plain inside)
          :: hops) := by
      rw [labelsOf_label]
      exact List.append_assoc _ _ _
    rw [joined] at short ends
    exact ⟨_, limit', pos', places, result, .label holds trail, short, ends⟩
  | case5 limit pos w octet first positive plain inside labels long =>
    rw [labelsLength_labelAt] at long
    exact here (.longLabels first positive plain inside long)
  | case6 limit pos w octet first positive plain cut =>
    exact here (.cutLabel first positive plain cut)
  | case7 limit pos w octet first positive special unknown =>
    exact here (.reserved first special unknown)
  | case8 limit pos w octet first positive special known second =>
    exact here (.cutPointer first known second)
  | case9 limit pos w octet first positive special known low second target backwards ih =>
    obtain ⟨hops, limit', pos', places, result, trail, short, ends⟩ := ih
    obtain ⟨place, leads, octets⟩ := exists_pointer low known
    -- Any two octets that begin like a pointer are the pointer to some place, since its two bits
    -- and the place fill them.
    have holds : Holds m pos (pointer place) := by
      rw [octets]
      exact ((spans_octet first).append (spans_octet second)).holds
    have target_eq : target = place.val := leads.symm
    rw [target_eq] at trail backwards
    exact ⟨_, limit', pos', places, result, .pointer holds backwards trail, short, ends⟩
  | case10 limit pos w octet first positive special known low second target bad =>
    exact here (.forwards first known second bad)

/-- Reading goes on at the end of a trail with the labels that it found. -/
theorem Trail.readLabels (h : Trail m limit pos hops limit' pos') :
    ∀ (w : Walk) (fits : labelsLength (w.labels ++ labelsOf hops) ≤ 255),
      Name.readLabels m limit pos w = Name.readLabels m limit' pos'
        ⟨w.start, w.resume.or (resumeOf hops), w.labels ++ labelsOf hops, fits⟩ := by
  induction h with
  | done =>
    intro w fits
    have none : w.labels ++ labelsOf [] = w.labels := List.append_nil _
    simp only [none, resumeOf, List.findSome?_nil, Option.or_none]
  | @label limit pos limit' pos' l hops here rest ih =>
    intro w fits
    have joined : w.labels ++ labelsOf (.label pos l :: hops)
        = w.labels ++ [l] ++ labelsOf hops := by
      rw [labelsOf_label, List.append_assoc, List.singleton_append]
    have fits' : labelsLength (w.labels ++ [l]) ≤ 255 := by
      rw [joined, labelsLength_append] at fits
      omega
    rw [readLabels_label here fits', ih ⟨w.start, w.resume, w.labels ++ [l], fits'⟩
      (by rwa [← joined])]
    simp only [joined]
    rfl
  | @pointer limit pos limit' pos' target hops here backwards rest ih =>
    intro w fits
    -- Only the first pointer sets the place to return to.
    have resumed : (some (w.resume.getD (pos + 2))).or (resumeOf hops)
        = w.resume.or (resumeOf (.pointer pos target :: hops)) := by
      cases w.resume <;> rfl
    rw [readLabels_pointer here backwards,
      ih ⟨w.start, some (w.resume.getD (pos + 2)), w.labels, w.fits⟩ fits]
    simp only [resumed, labelsOf_pointer]

/-- At the end of the trail, reading gives what comes of it. -/
theorem Ends.readLabels {w : Walk} {places : List Nat} {result : Except ParseError Name}
    (h : Ends m limit pos w.labels places result) :
    Name.readLabels m limit pos w = outcomeOf w.resume pos w.start result := by
  have not_zero : ∀ {octet : UInt8}, ¬octet < 64 → octet ≠ 0 := by
    rintro octet special rfl
    exact special (by decide)
  have not_plain : ∀ {octet : UInt8}, ¬octet < 192 → ¬octet < 64 := fun known less =>
    known (Nat.lt_trans less (by decide))
  rw [Name.readLabels]
  -- Each way to end is one branch of the loop, and the tests in front of that branch come out as
  -- the constructor says.
  cases h with
  | root first fits =>
    simp only [first, ↓reduceDIte, dif_pos fits]
    rfl
  | longRoot first long =>
    simp only [first, ↓reduceDIte, dif_neg long]
    rfl
  | outside first =>
    simp only [first]
    rfl
  | cutLabel first positive plain cut =>
    simp only [first, dif_neg positive, dif_pos plain, dif_neg cut]
    rfl
  | longLabels first positive plain inside long =>
    simp only [first, dif_neg positive, dif_pos plain, dif_pos inside, labelsLength_labelAt,
      dif_neg long]
    rfl
  | reserved first special unknown =>
    simp only [first, dif_neg (not_zero special), dif_neg special, if_pos unknown]
    rfl
  | cutPointer first known second =>
    simp only [first, second, dif_neg (not_zero (not_plain known)), dif_neg (not_plain known),
      if_neg known]
    rfl
  | forwards first known second bad =>
    simp only [first, second, dif_neg (not_zero (not_plain known)), dif_neg (not_plain known),
      if_neg known, dif_neg bad]
    rfl

/-! ## What trails are like -/

/-- Pointers lead to ever smaller places, and the first of them below the limit. -/
theorem Trail.falling (h : Trail m limit pos hops limit' pos') :
    (limit :: targetsOf hops).Pairwise (· > ·) := by
  induction h with
  | done => exact List.pairwise_singleton _ _
  | label here rest ih => exact ih
  | @pointer limit pos limit' pos' target hops here backwards rest ih =>
    refine List.Pairwise.cons ?_ ih
    intro next mem
    -- The first target is below the limit, and it is the limit for the others.
    rcases List.mem_cons.mp mem with rfl | later
    · exact backwards
    · exact Nat.lt_trans (List.rel_of_pairwise_cons ih later) backwards

/-- No label and no pointer of a trail is outside of the message. -/
theorem Trail.inside (h : Trail m limit pos hops limit' pos') :
    ∀ i ∈ hops.flatMap Hop.places, i < m.size := by
  -- What stands in the message at some place lies within it, and the places of a hop are those of
  -- what stands there.
  induction h with
  | done =>
    intro i mem
    simp at mem
  | @label limit pos limit' pos' l hops here rest ih =>
    have reached := here.1
    rw [Label.length_wire] at reached
    intro i mem
    rw [List.flatMap_cons, List.mem_append] at mem
    rcases mem with own | later
    · obtain ⟨-, before⟩ := List.mem_range'_1.mp own
      omega
    · exact ih i later
  | @pointer limit pos limit' pos' target hops here backwards rest ih =>
    have reached := here.1
    rw [length_pointer] at reached
    intro i mem
    rw [List.flatMap_cons, List.mem_append] at mem
    rcases mem with own | later
    · simp only [Hop.places, List.mem_cons, List.not_mem_nil, or_false] at own
      omega
    · exact ih i later

/-- A message with the same octets at the places of a trail has the same trail. -/
theorem Trail.of_same (h : Trail m limit pos hops limit' pos') (size : u.size = m.size)
    (same : ∀ i ∈ hops.flatMap Hop.places, u[i]? = m[i]?) :
    Trail u limit pos hops limit' pos' := by
  induction h with
  | done => exact .done
  | @label limit pos limit' pos' l hops here rest ih =>
    rw [List.flatMap_cons] at same
    obtain ⟨own, others⟩ := List.forall_mem_append.mp same
    refine .label (here.of_same (size ▸ here.1) ?_) (ih others)
    intro i from_pos before
    rw [Label.length_wire] at before
    exact own i (List.mem_range'_1.mpr ⟨from_pos, before⟩)
  | @pointer limit pos limit' pos' target hops here backwards rest ih =>
    rw [List.flatMap_cons] at same
    obtain ⟨own, others⟩ := List.forall_mem_append.mp same
    refine .pointer (here.of_same (size ▸ here.1) ?_) backwards (ih others)
    intro i from_pos before
    rw [length_pointer] at before
    obtain rfl | rfl : i = pos ∨ i = pos + 1 := by omega
    · exact own i List.mem_cons_self
    · exact own (pos + 1) (List.mem_cons_of_mem _ List.mem_cons_self)

variable {labels : List Label} {places : List Nat} {result : Except ParseError Name}

theorem Ends.inside (h : Ends m limit pos labels places result) : ∀ i ∈ places, i < m.size := by
  have lt_size : ∀ {i : Nat} {octet : UInt8}, m[i]? = some octet → i < m.size := by
    intro i octet there
    exact (Array.getElem?_eq_some_iff.mp there).1
  intro i mem
  cases h with
  | outside => cases mem
  | root first | longRoot first | cutLabel first | reserved first | cutPointer first =>
    rw [List.mem_singleton.mp mem]
    exact lt_size first
  | longLabels first positive plain reached =>
    obtain ⟨-, before⟩ := List.mem_range'_1.mp mem
    omega
  | forwards first known second =>
    rcases List.mem_cons.mp mem with rfl | mem
    · exact lt_size first
    · rw [List.mem_singleton.mp mem]
      exact lt_size second

/-- A message of the same size with the same octets where reading ends makes it end there, too. -/
theorem Ends.of_same (h : Ends m limit pos labels places result) (size : u.size = m.size)
    (same : ∀ i ∈ places, u[i]? = m[i]?) : Ends u limit pos labels places result := by
  have outside : ∀ {i : Nat}, m[i]? = none → u[i]? = none := by
    intro i there
    rw [Array.getElem?_eq_none_iff] at there ⊢
    omega
  cases h with
  | root first fits => exact .root ((same pos (by simp)).trans first) fits
  | longRoot first long => exact .longRoot ((same pos (by simp)).trans first) long
  | outside first => exact .outside (outside first)
  | cutLabel first positive plain cut =>
    exact .cutLabel ((same pos (by simp)).trans first) positive plain (by rwa [size])
  | longLabels first positive plain inside long =>
    have here := (same pos (List.mem_range'_1.mpr ⟨Nat.le_refl _, by omega⟩)).trans first
    exact .longLabels here positive plain (by rwa [size]) long
  | reserved first special unknown =>
    exact .reserved ((same pos (by simp)).trans first) special unknown
  | cutPointer first known second =>
    exact .cutPointer ((same pos (by simp)).trans first) known (outside second)
  | forwards first known second bad =>
    exact .forwards ((same pos (by simp)).trans first) known
      ((same (pos + 1) (by simp)).trans second) bad

end Reading

/-! ## How long trails are

Labels are few because they fit into a name, and pointers are few because their targets fall. The
two are counted apart: a label takes two octets at least, of 255, and there are no more falling
numbers below a limit than the limit is large. Nothing is said on the order in which they come. -/

/-- Places that fall from a place on are not more than there are below it. -/
theorem length_le_of_falling (places : List Nat) :
    ∀ {limit : Nat}, (limit :: places).Pairwise (· > ·) → places.length ≤ limit := by
  induction places with
  | nil =>
    intro limit _
    exact Nat.zero_le _
  | cons place rest ih =>
    intro limit falling
    obtain ⟨below, rest_falling⟩ := List.pairwise_cons.mp falling
    have first := below place List.mem_cons_self
    have few := ih rest_falling
    rw [List.length_cons]
    omega

/-- A label takes two octets at least. -/
theorem two_mul_length_le (labels : List Label) : 2 * labels.length ≤ labelsLength labels := by
  induction labels with
  | nil => exact Nat.le_refl _
  | cons l rest ih =>
    have some := length_pos_label l
    rw [List.length_cons, labelsLength_cons, Label.wireLength]
    omega

theorem length_hops (hops : List Hop) :
    hops.length = (labelsOf hops).length + (targetsOf hops).length := by
  induction hops with
  | nil => rfl
  | cons hop rest ih =>
    cases hop with
    | label place l =>
      simp only [labelsOf_label, targetsOf_label, List.length_cons]
      omega
    | pointer place target =>
      simp only [labelsOf_pointer, targetsOf_pointer, List.length_cons]
      omega

/-- A trail of labels that fit into a name has at most 127 of them, and as many pointers as there
are places below the limit. -/
theorem Trail.length_le {m : Array UInt8} {limit pos limit' pos' : Nat} {hops : List Hop}
    (h : Trail m limit pos hops limit' pos') (fits : labelsLength (labelsOf hops) ≤ 255) :
    hops.length ≤ limit + 127 := by
  have pointers := length_le_of_falling _ h.falling
  have labels := two_mul_length_le (labelsOf hops)
  have all := length_hops hops
  omega

/-! ## Journeys -/

/-- All that happens when a name is read at a place of a message. -/
structure Journey (m : Array UInt8) (start : Nat) where
  hops : List Hop
  /-- The target of the last pointer, or the start. -/
  limit : Nat
  /-- Where the trail ends. -/
  stop : Nat
  /-- The octets that are looked at there. -/
  last : List Nat
  result : Except ParseError Name
  trail : Trail m start start hops limit stop
  fits : labelsLength (labelsOf hops) ≤ 255
  ends : Ends m limit stop (labelsOf hops) last result

namespace Journey

variable {m u : Array UInt8} {start : Nat}

/-- All octets that are looked at. -/
def places (j : Journey m start) : List Nat := j.hops.flatMap Hop.places ++ j.last

theorem read_eq (j : Journey m start) :
    Name.read m start = outcomeOf (resumeOf j.hops) j.stop start j.result := by
  unfold Name.read
  rw [j.trail.readLabels ⟨start, none, [], by simp⟩ j.fits]
  exact j.ends.readLabels (w := ⟨start, none.or (resumeOf j.hops), [] ++ labelsOf j.hops, j.fits⟩)

/-- The same journey through a message that is the same where it leads. -/
def through (j : Journey m start) (size : u.size = m.size)
    (same : ∀ i ∈ j.places, u[i]? = m[i]?) : Journey u start :=
  { j with
    trail := j.trail.of_same size (List.forall_mem_append.mp same).1
    ends := j.ends.of_same size (List.forall_mem_append.mp same).2 }

theorem inside (j : Journey m start) : ∀ i ∈ j.places, i < m.size := by
  intro i mem
  rcases List.mem_append.mp mem with passed | last
  · exact j.trail.inside i passed
  · exact j.ends.inside i last

/-- A name that was found has the labels that were passed, and the root label stands where the trail
ends. -/
theorem found (j : Journey m start) {n : Name} (h : j.result = .ok n) :
    n.absolute = true ∧ n.labels = labelsOf j.hops ∧ m[j.stop]? = some 0 := by
  obtain ⟨hops, limit, stop, last, result, trail, fits, ends⟩ := j
  have h : result = .ok n := h
  subst h
  cases ends with
  | root first fits => exact ⟨rfl, rfl, first⟩

end Journey

/-- On every message and wherever it begins, reading a name follows a trail. The trail is no longer
than the places before its start and the labels of a name are many. Only octets of the message are
looked at, and the outcome depends on nothing but these and the size of the message. Pointers lead
to ever smaller places below the start. A name that is found is absolute, of at most 255 octets, and
made of the labels on the trail. -/
theorem read_follows (m : Array UInt8) (start : Nat) :
    ∃ j : Journey m start,
      Name.read m start = outcomeOf (resumeOf j.hops) j.stop start j.result ∧
      j.hops.length ≤ start + 127 ∧
      (∀ i ∈ j.places, i < m.size) ∧
      (∀ u : Array UInt8, u.size = m.size → (∀ i ∈ j.places, u[i]? = m[i]?) →
        Name.read u start = Name.read m start) ∧
      (start :: targetsOf j.hops).Pairwise (· > ·) ∧
      ∀ n, j.result = .ok n → n.absolute = true ∧ n.wire.length ≤ 255 ∧
        n.wire = (labelsOf j.hops).flatMap Label.wire ++ [0] ∧
        (∀ l ∈ n.labels, 0 < l.octets.length ∧ l.octets.length ≤ 63) ∧ m[j.stop]? = some 0 := by
  obtain ⟨hops, limit, stop, last, result, trail, fits, ends⟩ :=
    exists_trail m start start ⟨start, none, [], by simp⟩
  let j : Journey m start := ⟨hops, limit, stop, last, result, trail, fits, ends⟩
  refine ⟨j, j.read_eq, trail.length_le fits, j.inside, ?_, trail.falling, ?_⟩
  · intro u size same
    exact (j.through size same).read_eq.trans j.read_eq.symm
  · intro n found
    obtain ⟨absolute, labels, zero⟩ := j.found found
    refine ⟨absolute, ?_, ?_, ?_, zero⟩
    · rw [length_wire]
      exact n.fits
    · rw [wire, labels, absolute]
      rfl
    · intro l _
      exact ⟨length_pos_label l, l.short⟩

end Name

end Dns
