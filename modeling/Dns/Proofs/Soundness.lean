import Dns.Proofs.Messages

/-!
# The table of every renderer is sound

`Draft.Sound` says that the table tells the truth: at the place of each of its names, a name equal
to it is spelled, and so a pointer to that place is read as the name. As part of `Renderer.Shows`
this is known of renderers to which nothing but documented entries were added. Here it is shown of
*every* renderer, whatever was added to it: data that no reader would take back may well stand in
the message, and the names in it are found all the same.

That needs no look at the data. Names are noted by `Name.compose` alone, which is sound on a sound
table (`Name.composeLabels_sound`); all else that is composed leaves the table as it is and puts
octets behind those that the table tells of. The one exception is a length in front of data, which
is written over once the data are known. No name that was noted meanwhile stands there, because the
two octets were already taken when it was composed; this is why they are left out of the fixed
places until then (`Composer.openAt`).

Of the header nothing is fixed, since its numbers change with every addition.
-/

set_option autoImplicit false

namespace Dns

/-! ## Composing -/

namespace Composer

variable {α β : Type} {c : Composer α}

/-- Whatever is composed on a sound draft, the draft stays sound. As with `Writes`, the places that
are fixed have to be all those from the end of the draft on. -/
def KeepsSound (c : Composer α) : Prop :=
  ∀ (fixed : Nat → Prop) (d : Draft) (a : α) (d' : Draft), (∀ i, d.size ≤ i → fixed i) →
    d.Sound fixed → c d = .ok a d' → d'.Sound fixed

namespace KeepsSound

theorem pure (a : α) : KeepsSound (Pure.pure a) := by
  intro fixed d a d' _ sound run
  cases run
  exact sound

/-- The second composer begins behind what the first one has added, where all places are fixed
still. -/
theorem bind {k : α → Composer β} (h : c.KeepsSound) (confined : c.Confined)
    (g : ∀ a, (k a).KeepsSound) : (c >>= k).KeepsSound := by
  intro fixed d b d' covered sound run
  obtain ⟨a, d₁, first, run⟩ := bind_ok run
  have later : ∀ i, d₁.size ≤ i → fixed i := fun i hi =>
    covered i (Nat.le_trans (confined.grows first).size_le hi)
  exact g a fixed d₁ b d' later (h fixed d a d₁ covered sound first) run

theorem put (o : Octets) : (Composer.put o).KeepsSound := by
  intro fixed d a d' _ sound run
  cases run
  exact sound.put o

theorem putOrFail (o : Except ComposeError Octets) : (Composer.putOrFail o).KeepsSound := by
  cases o with
  | ok o => exact put o
  | error e =>
    intro fixed d a d' _ _ run
    cases run

theorem name (n : Name) (compressed : Bool) (origin : Option Name) (canonical : Bool) :
    (n.compose compressed origin canonical).KeepsSound := by
  intro fixed d a d' covered sound run
  exact (Name.compose_finds covered sound run).1

theorem lengthPrefixed {c : Composer Unit} (h : c.KeepsSound) (confined : c.Confined) :
    (Composer.lengthPrefixed c).KeepsSound := by
  intro fixed d a d' covered sound run
  obtain ⟨d₁, inner, -, rest⟩ := lengthPrefixed_ok run
  have sound₁ : d₁.Sound (openAt fixed d.size) :=
    h _ (d.put [0, 0]) () d₁ (openAt_covered covered) (openAt_sound sound) inner
  -- Once the length is set, its two octets are fixed like all others.
  obtain ⟨table, size, -, others⟩ := rest (confined.grows inner)
  exact sound₁.keeps (openAt_keeps size others) (fun _ _ hi => hi.1) table

end KeepsSound

/-- Nothing that is composed makes the table tell of names that are not there. -/
theorem Built.keepsSound {c : Composer α} (h : c.Built) : c.KeepsSound := by
  induction h with
  | pure a => exact .pure a
  | bind first _ ih next => exact ih.bind first.confined next
  | put octets => exact .put octets
  | putOrFail octets => exact .putOrFail octets
  | name n compressed origin canonical => exact .name n compressed origin canonical
  | lengthPrefixed data ih => exact ih.lengthPrefixed data.confined

end Composer

open Composer

/-! ## Renderers

The invariant has a second part, because the first one says nothing about a message that is shorter
than its header: everything is composed behind the header, and so nothing that is fixed is ever
written over. What is written there are the header and the number of additional records. A signature
changes the second one when the names have long been noted, and so the table has to be known to
speak of other octets. -/

namespace Renderer

variable {r r' : Renderer} {part : Section} {compose : Option Name → Composer Nat}

/-- The names in the table are spelled behind the header. -/
structure TellsTruth (r : Renderer) : Prop where
  sound : r.draft.Sound behindHeader
  size : HeaderSection.length ≤ r.size

theorem start_tellsTruth (id flags : UInt16) (maxSize : Nat) (origin : Option Name)
    (time : Time48) : (start id flags maxSize origin time).TellsTruth :=
  have shows := start_shows id flags maxSize origin time
  ⟨shows.sound, shows.size⟩

/-- Behind a message that has its header, all places are fixed. -/
theorem TellsTruth.covered (h : r.TellsTruth) : ∀ i, r.draft.size ≤ i → behindHeader i :=
  fun _ hi => Nat.le_trans h.size hi

theorem TellsTruth.add (h : r.TellsTruth) (built : Built (compose r.origin))
    (run : r.add part compose = (.ok (), r')) : r'.TellsTruth := by
  obtain ⟨-, n, draft, composed, -, -, rfl⟩ := add_ok run
  have grown := built.confined.grows composed
  exact ⟨built.keepsSound behindHeader r.draft n draft h.covered h.sound composed,
    Nat.le_trans h.size grown.size_le⟩

/-- Numbers in the header may be changed. -/
theorem TellsTruth.overwrite (h : r.TellsTruth) {place : Nat} {o : Octets}
    (inside : place + o.length ≤ HeaderSection.length) :
    TellsTruth { r with draft := r.draft.overwrite place o } := by
  have kept := r.draft.overwrite_keeps inside
  exact ⟨h.sound.keeps kept (fun _ _ hi => hi) rfl, Nat.le_trans h.size kept.1⟩

theorem TellsTruth.congr (h : r.TellsTruth) (octets : r'.draft.octets = r.draft.octets)
    (table : r'.draft.table.Same r.draft.table) : r'.TellsTruth :=
  ⟨h.sound.congr octets table,
    Nat.le_trans h.size (Nat.le_of_eq (congrArg Array.size octets).symm)⟩

/-- The number of additional records follows a signature at once. -/
theorem TellsTruth.addTsigRecord {owner : Name} {t : Tsig} (h : r.TellsTruth)
    (run : r.addTsigRecord owner t = (.ok (), r')) : r'.TellsTruth := by
  obtain ⟨r₁, added, rfl⟩ := addTsigRecord_ok run
  have inside : HeaderSection.additionalCountOffset + (Wire.uint16 r₁.counts.additional).length
      ≤ HeaderSection.length := by
    rw [Wire.length_uint16]
    decide
  have overwritten := (h.add (composeTsig_built owner t _ r.origin) added).overwrite inside
  exact ⟨overwritten.sound, overwritten.size⟩

end Renderer

/-! ## Runs

There is nothing new to the sections above but the order: a call is one of the four kinds of
`Call.Effect`, and a failure is no exception, because it leaves the same octets and a table with the
same entries. The same induction as for the items that a renderer shows could be used for this. It
is kept apart, because a statement about the table alone is what a reservation needs, also of runs
of which the items are of no interest. -/

open Renderer

variable {r r' : Renderer}

theorem Call.perform_tellsTruth {c : Call} (h : r.TellsTruth)
    (run : c.perform r = (.ok (), r')) : r'.TellsTruth := by
  cases Call.effect_of_ok run with
  | question q _ added => exact h.add (q.entry_built r.origin) added
  | records part owner set form r₁ wasPadded _ added same =>
    subst same
    have truth : r₁.TellsTruth := h.add (set.compose_built owner true r.origin form) added
    exact truth.congr rfl (.refl _)
  | header _ same =>
    subst same
    exact h.overwrite (Nat.le_of_eq (by rw [Nat.zero_add, length_header]))
  | nothing _ draft => exact h.congr (by rw [draft]) (by rw [draft]; exact .refl _)

namespace Operation

theorem perform_tellsTruth {o : Operation} (h : r.TellsTruth)
    (run : o.perform r = (.ok (), r')) : r'.TellsTruth := by
  cases o with
  | call c => exact c.perform_tellsTruth h run
  | sign | signNext =>
    obtain ⟨owner, t, added⟩ := signature_of_ok run fun _ is => by cases is
    exact h.addTsigRecord added

/-- Whatever succeeds in a run and whatever fails, the table goes on telling the truth. -/
theorem run_tellsTruth (operations : List Operation) (bounded : r.draft.Bounded)
    (h : r.TellsTruth) : (run operations r).TellsTruth :=
  run_keeps (P := TellsTruth) operations
    (fun _ _ _ _ _ truth result => perform_tellsTruth truth result)
    (fun same truth => truth.congr same.octets same.table) bounded h

end Operation

end Dns
