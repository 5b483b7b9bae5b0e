import Dns.Proofs.StoredDrafts
import Dns.Proofs.Trails
import Dns.Name.Text

/-!
# Where names come from

Names come from labels, from texts and from messages, and from other names by taking suffixes,
joining, parting, and making letters small. A `NameRecipe` is any way of putting these together. It
can be followed twice: with names (`NameRecipe.name`), and with octets and nothing else
(`NameRecipe.stored?`), where labels are gathered and appended, octets are copied out of a message,
and places are added up. The two come to the same, and so whatever is followed with octets never
leaves them, and leaves behind what is well formed. The induction is on recipes, with one lemma for
each of their kinds.

A recipe may fail, and it must fail in both ways for the same reason. So the lemmas do not say that
octets are those of a name *if* there is one; they are equations between outcomes, errors and
positions included. The checks of the two are made on different things, for the one counts labels
with their lengths, and the other counts octets that it has already copied.

Composing a name follows its octets, too. It looks suffixes up in a table of stored names, which
agrees with a table of names if it finds the same (`StoredDraft.Agrees`). And since suffixes,
parents and composing do not care where a name came from, what is known of every name
(`Name.Walkable`) is known of the name of every recipe.
-/

set_option autoImplicit false

namespace Dns

open Octets

namespace StoredName

/-! ## From labels and texts

Both find the first bad label first, and look at the length of the whole only after all labels are
good. The scanner of texts is the same for both, for it gives octets. So the two agree on errors as
well as on names. -/

/-- The octets of labels, behind those that were gathered. -/
def gather : (found : Octets) → List Octets → Except NameError Octets
  | found, [] => .ok found
  | found, l :: rest =>
    if l = [] then .error .emptyLabel
    else if 63 < l.length then .error .longLabel
    else gather (found ++ UInt8.ofNat l.length :: l) rest

def ofOctets (labels : List Octets) (absolute : Bool) : Except NameError StoredName := do
  let octets := (← gather [] labels) ++ (if absolute then [0] else [])
  if 255 < octets.length then .error .longName else .ok ⟨octets, absolute⟩

def ofText (text : String) : Except NameError StoredName :=
  let octets := text.toUTF8.data.toList
  if octets = [] ∨ octets = [64] then .ok empty
  else if octets = [46] then .ok root
  else do
    let (labels, absolute) ← Name.scan [] octets
    ofOctets labels absolute

theorem gather_eq (found : Octets) (labels : List Octets) : gather found labels
    = (labels.mapM Label.ofOctets).map fun ls => found ++ ls.flatMap Label.wire := by
  induction labels generalizing found with
  | nil => exact congrArg Except.ok (List.append_nil found).symm
  | cons l rest ih =>
    rw [gather, List.mapM_cons, Label.ofOctets]
    by_cases nonempty : l = []
    · rw [if_pos nonempty, dif_pos nonempty]
      rfl
    · rw [if_neg nonempty, dif_neg nonempty]
      by_cases short : l.length ≤ 63
      · rw [if_neg (Nat.not_lt.mpr short), dif_pos short, ih]
        cases rest.mapM Label.ofOctets with
        | error e => rfl
        | ok ls =>
          exact congrArg Except.ok (List.append_assoc found _ (ls.flatMap Label.wire))
      · rw [if_pos (Nat.lt_of_not_le short), dif_neg short]
        rfl

theorem ofOctets_stored (labels : List Octets) (absolute : Bool) :
    ofOctets labels absolute = (Name.ofOctets labels absolute).map Name.stored := by
  unfold ofOctets Name.ofOctets
  rw [gather_eq]
  cases labels.mapM Label.ofOctets with
  | error e => rfl
  | ok ls =>
    have length := length_wireOf ls absolute
    show (if 255 < (wireOf ls absolute).length then _ else _) = (Name.ofLabels ls absolute).map _
    rw [length, Name.ofLabels]
    by_cases short : labelsLength ls + absolute.toNat ≤ 255
    · rw [if_neg (Nat.not_lt.mpr short), dif_pos short]
      rfl
    · rw [if_pos (Nat.lt_of_not_le short), dif_neg short]
      rfl

theorem ofText_stored (text : String) : ofText text = (Name.ofText text).map Name.stored := by
  unfold ofText Name.ofText Name.ofTextOctets
  dsimp only
  split
  · rfl
  · split
    · rfl
    · cases Name.scan [] text.toUTF8.data.toList with
      | error e => rfl
      | ok found => exact ofOctets_stored found.1 found.2

/-! ## From messages

The octet loop copies the length octet with the label. To it the root label is a label of no octets,
so that one lemma covers both (`readOctets_plain`), and the length of a name is that of what was
copied. The limit of a name is asked for at each label, over octets here and over labels there, so
that both stop at the same place. -/

/-- Copies labels out of a message, behind what was found, until the root label. -/
def readOctets (message : Array UInt8) (limit pos start : Nat) (resume : Option Nat)
    (found : Octets) : Outcome StoredName :=
  match message[pos]? with
  | none => .error .shortInput (resume.getD start)
  | some octet =>
    if octet < 64 then
      let stop := pos + 1 + octet.toNat
      if stop ≤ message.size then
        let found := found ++ (message.extract pos stop).toList
        if 255 < found.length then .error (.malformed .longName) (resume.getD start)
        else if octet = 0 then .ok ⟨found, true⟩ (resume.getD stop)
        else readOctets message limit stop start resume found
      else .error .shortInput (resume.getD start)
    else if octet < 192 then .error (.malformed .unknownLabelType) (resume.getD start)
    else
      match message[pos + 1]? with
      | none => .error .shortInput (resume.getD start)
      | some low =>
        let target := (octet.toNat - 192) * 256 + low.toNat
        if _backwards : target < limit then
          readOctets message target target start (some (resume.getD (pos + 2))) found
        else .error (.malformed .badPointer) (resume.getD start)
termination_by (limit, message.size - pos)

def read (message : Array UInt8) (pos : Nat) : Outcome StoredName :=
  readOctets message pos pos pos none []

/-- A label that is all there is copied with its length octet. -/
theorem readOctets_plain {m : Array UInt8} {limit pos start : Nat} {resume : Option Nat}
    {found o : Octets} {octet : UInt8} (first : m[pos]? = some octet) (plain : octet < 64)
    (spans : Spans m pos o (pos + 1 + octet.toNat)) :
    readOctets m limit pos start resume found
      = if 255 < (found ++ o).length then .error (.malformed .longName) (resume.getD start)
        else if octet = 0 then .ok ⟨found ++ o, true⟩ (resume.getD (pos + 1 + octet.toNat))
        else readOctets m limit (pos + 1 + octet.toNat) start resume (found ++ o) := by
  have copied : (m.extract pos (pos + 1 + octet.toNat)).toList = o := by
    rw [spans.stop]
    exact spans.holds.extract
  rw [readOctets]
  simp only [first, if_pos plain, if_pos spans.inside, copied]

theorem readOctets_stored (m : Array UInt8) (limit pos : Nat) (w : Name.Walk) :
    readOctets m limit pos w.start w.resume (w.labels.flatMap Label.wire)
      = (Name.readLabels m limit pos w).map Name.stored := by
  -- The cases are those of reading labels. In the first three the name is over, or there is none;
  -- in the next two a label is found, and in the others something that is none. What was copied so
  -- far are the octets of the labels that were found so far.
  fun_induction Name.readLabels m limit pos w with
  | case1 limit pos w first =>
    rw [readOctets]
    simp only [first]
    rfl
  -- The root label, with which the name fits or not.
  | case2 limit pos w fits first =>
    have length : ¬255 < (w.labels.flatMap Label.wire ++ [0]).length := by
      rw [List.length_append, length_wires]
      exact Nat.not_lt.mpr fits
    rw [readOctets_plain first (by decide) (spans_octet first), if_neg length]
    rfl
  | case3 limit pos w long first =>
    have length : 255 < (w.labels.flatMap Label.wire ++ [0]).length := by
      rw [List.length_append, length_wires]
      exact Nat.lt_of_not_le long
    rw [readOctets_plain first (by decide) (spans_octet first), if_pos length]
    rfl
  -- A label inside the message. That it fits is asked of the labels with the new one, for which the
  -- root label is not yet counted, and in the same way of the octets.
  | case4 limit pos w octet first positive plain inside labels fits ih =>
    have joined : labels.flatMap Label.wire = w.labels.flatMap Label.wire
        ++ (Name.labelAt m (pos + 1) octet positive plain inside).wire := by
      rw [List.flatMap_append, List.flatMap_singleton]
    have length : ¬255 < (labels.flatMap Label.wire).length := by
      rw [length_wires]
      exact Nat.not_lt.mpr fits
    rw [readOctets_plain first plain (Name.labelAt_spans first positive plain inside), ← joined,
      if_neg length, if_neg positive]
    exact ih
  | case5 limit pos w octet first positive plain inside labels long =>
    have joined : labels.flatMap Label.wire = w.labels.flatMap Label.wire
        ++ (Name.labelAt m (pos + 1) octet positive plain inside).wire := by
      rw [List.flatMap_append, List.flatMap_singleton]
    have length : 255 < (labels.flatMap Label.wire).length := by
      rw [length_wires]
      exact Nat.lt_of_not_le long
    rw [readOctets_plain first plain (Name.labelAt_spans first positive plain inside), ← joined,
      if_pos length]
    rfl
  | case6 limit pos w octet first positive plain cut =>
    rw [readOctets]
    simp only [first, if_pos plain, if_neg cut]
    rfl
  | case7 limit pos w octet first positive special unknown =>
    rw [readOctets]
    simp only [first, if_neg special, if_pos unknown]
    rfl
  | case8 limit pos w octet first positive special known second =>
    rw [readOctets]
    simp only [first, second, if_neg special, if_neg known]
    rfl
  -- A pointer backwards adds no octets, and sets the place to return to for both in the same way.
  | case9 limit pos w octet first positive special known low second target backwards ih =>
    rw [readOctets]
    simp only [first, second, if_neg special, if_neg known]
    rw [dif_pos backwards]
    exact ih
  | case10 limit pos w octet first positive special known low second target bad =>
    rw [readOctets]
    simp only [first, second, if_neg special, if_neg known]
    rw [dif_neg bad]
    rfl

theorem read_stored (m : Array UInt8) (pos : Nat) :
    read m pos = (Name.read m pos).map Name.stored :=
  readOctets_stored m pos pos ⟨pos, none, [], by simp⟩

end StoredName

/-! ## Recipes -/

/-- Why there is no name. -/
inductive NameFailure where
  | name (e : NameError)
  | parse (e : ParseError)
  | compose (e : ComposeError)

/-- A way of making a name. -/
inductive NameRecipe where
  | root
  | empty
  | ofOctets (labels : List Octets) (absolute : Bool)
  | ofText (text : String)
  | read (message : Array UInt8) (pos : Nat)
  | suffix (n : NameRecipe) (count : Nat)
  | concat (n origin : NameRecipe)
  | relativize (n origin : NameRecipe)
  | canonical (n : NameRecipe)

namespace NameRecipe

/-- The name that a recipe makes. -/
def name : NameRecipe → Except NameFailure Name
  | root => .ok Name.root
  | empty => .ok Name.empty
  | ofOctets labels absolute => (Name.ofOctets labels absolute).mapError .name
  | ofText text => (Name.ofText text).mapError .name
  | read message pos => (Name.read message pos).result.mapError .parse
  | suffix n count => do return (← n.name).suffix count
  | concat n origin => do ((← n.name).concat (← origin.name)).mapError .compose
  | relativize n origin => do return (← n.name).relativize (← origin.name)
  | canonical n => do return (← n.name).canonical

/-- The octets that it makes. -/
def stored? : NameRecipe → Option (Except NameFailure StoredName)
  | root => some (.ok StoredName.root)
  | empty => some (.ok StoredName.empty)
  | ofOctets labels absolute => some ((StoredName.ofOctets labels absolute).mapError .name)
  | ofText text => some ((StoredName.ofText text).mapError .name)
  | read message pos => some ((StoredName.read message pos).result.mapError .parse)
  | suffix n count => do
    match ← n.stored? with
    | .ok n => return .ok (← n.suffix? count)
    | .error e => return .error e
  | concat n origin => do
    match ← n.stored?, ← origin.stored? with
    | .ok n, .ok origin => return (n.concat origin).mapError .compose
    | .error e, _ => return .error e
    | _, .error e => return .error e
  | relativize n origin => do
    match ← n.stored?, ← origin.stored? with
    | .ok n, .ok origin => return .ok (← n.relativize? origin)
    | .error e, _ => return .error e
    | _, .error e => return .error e
  | canonical n => do return (← n.stored?).map StoredName.canonical

theorem map_mapError {ε ε' α β : Type} (x : Except ε α) (f : α → β) (g : ε → ε') :
    (x.map f).mapError g = (x.mapError g).map f := by
  cases x <;> rfl

theorem stored?_eq (r : NameRecipe) : r.stored? = some (r.name.map Name.stored) := by
  induction r with
  | root => rfl
  | empty => rfl
  | ofOctets labels absolute =>
    rw [stored?, name, StoredName.ofOctets_stored, map_mapError]
  | ofText text => rw [stored?, name, StoredName.ofText_stored, map_mapError]
  | read message pos =>
    rw [stored?, name, StoredName.read_stored]
    cases Name.read message pos <;> rfl
  | suffix n count ih =>
    rw [stored?, name, ih]
    cases n.name with
    | error e => rfl
    | ok n =>
      simp only [Except.map, Option.bind_eq_bind, Option.bind_some, StoredName.suffix?_stored]
      rfl
  -- If both names cannot be made, it is the first that counts.
  | concat n origin ihn iho =>
    rw [stored?, name, ihn, iho]
    cases n.name with
    | error e => cases origin.name <;> rfl
    | ok n =>
      cases origin.name with
      | error e => rfl
      | ok origin =>
        simp only [Except.map, Option.bind_eq_bind, Option.bind_some, StoredName.concat_stored]
        exact congrArg some (map_mapError _ _ _)
  | relativize n origin ihn iho =>
    rw [stored?, name, ihn, iho]
    cases n.name with
    | error e => cases origin.name <;> rfl
    | ok n =>
      cases origin.name with
      | error e => rfl
      | ok origin =>
        simp only [Except.map, Option.bind_eq_bind, Option.bind_some,
          StoredName.relativize?_stored]
        rfl
  | canonical n ih =>
    rw [stored?, name, ih]
    cases n.name with
    | error e => rfl
    | ok n => exact congrArg (fun s => some (Except.ok s)) (StoredName.canonical_stored n)

end NameRecipe

/-! ## What is known of every name -/

/-- Whatever is done with the octets of a name stays within them, and comes to what is done with its
labels. -/
structure Name.Walkable (n : Name) : Prop where
  wellFormed : n.stored.WellFormed
  labels : labels? n.stored.octets = some n.labelOctets
  labelCount : n.stored.labelCount? = some n.labelCount
  /-- A suffix has the labels behind the first ones, and the root label at least. -/
  suffix : ∀ count, n.stored.suffix? count = some (n.suffix count).stored ∧
    (n.suffix count).labelOctets = n.labelOctets.drop (min count n.labels.length)
  isSubdomain : ∀ parent : Name,
    n.stored.isSubdomain? parent.stored = some (n.isSubdomain parent)
  relativize : ∀ origin : Name,
    n.stored.relativize? origin.stored = some (n.relativize origin).stored
  /-- The name is composed to any draft, with any table. -/
  compose : ∀ (compressed canonical : Bool) (origin : Option Name) (s : StoredDraft),
    ∃ outcome, n.stored.compose? compressed (origin.map Name.stored) canonical s = some outcome ∧
      ∀ d, s.Agrees d → StoredDraft.Matches outcome (n.compose compressed origin canonical d)

open StoredName in
theorem Name.walkable (n : Name) : n.Walkable where
  wellFormed := wellFormed_iff.mpr ⟨n, rfl⟩
  labels := labels?_stored n
  labelCount := labelCount?_stored n
  suffix count := ⟨suffix?_stored n count, labelOctets_suffix n count⟩
  isSubdomain := isSubdomain?_stored n
  relativize := relativize?_stored n
  compose compressed canonical origin s := compose?_stored n compressed origin canonical s

/-- A recipe that is followed with octets never leaves them. It fails for the reason for which it
fails with names, or makes the octets of the name, which are well formed, and which nothing that is
done with them leaves. -/
theorem NameRecipe.stays_within (r : NameRecipe) :
    r.stored? = some (r.name.map Name.stored) ∧ ∀ n, r.name = .ok n → n.Walkable :=
  ⟨r.stored?_eq, fun n _ => n.walkable⟩

/-- A relative name in front of one that is read through a pointer, in small letters and without its
first label. -/
theorem NameRecipe.stays_within_pointer :
    let r : NameRecipe := .canonical (.suffix (.concat (.ofOctets [[65], [66]] false)
      (.read #[1, 99, 0, 1, 100, 192, 0] 3)) 1)
    ∃ n, r.name = .ok n ∧ n.wire = [1, 98, 1, 100, 1, 99, 0] ∧ r.stored? = some (.ok n.stored) ∧
      n.Walkable ∧ ∃ outcome, n.stored.compose? true none false ⟨#[], ∅⟩ = some outcome ∧
        StoredDraft.Matches outcome (n.compose true none false Draft.empty) := by
  intro r
  let n : Name := ⟨[⟨[98], by decide, by decide⟩, ⟨[100], by decide, by decide⟩,
    ⟨[99], by decide, by decide⟩], true, by decide⟩
  have found : Name.read #[1, 99, 0, 1, 100, 192, 0] 3 = .ok ⟨[⟨[100], by decide, by decide⟩,
      ⟨[99], by decide, by decide⟩], true, by decide⟩ 7 := by cbv
  have made : r.name = .ok n := by
    simp only [r, NameRecipe.name, found]
    rfl
  obtain ⟨same, walkable⟩ := r.stays_within
  obtain ⟨outcome, composed, agrees⟩ := (walkable n made).compose true false none ⟨#[], ∅⟩
  refine ⟨n, made, by decide, ?_, walkable n made, outcome, composed,
    agrees Draft.empty (StoredDraft.agrees_of_empty #[])⟩
  rw [same, made]
  rfl

end Dns
