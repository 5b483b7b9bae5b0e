import Dns.Proofs.Footprints

/-!
# What an accepted message consists of

Who checks a signature cuts the message where its TSIG record is said to start, and takes what is in
front for what was signed. This is right only if there is no second such record further in front, if
nothing comes behind, and if the place is the place of that record.

A row of entries is determined by where it begins and by which sections its entries belong to
(`Item.Row.goes_on`). The header fixes both. So all that is known of the entries of an accepted
message (`Message.ofOctets_ok`) holds of every way to read it, also of one that is stopped halfway:
octets that begin with a TSIG record in the wrong place cannot be those of an accepted message.

`Message.accepted_covered` collects what follows, for any octets. Of accepted ones: the numbers in
the header are those of the entries; the entries are tiles, each with octets of its own, and they
cover the message from the header to its end; a TSIG record can only be the last of them; and the
signature that the message tells is that record, with its place. Of all others: if they begin with a
header and some of the entries that it announces, and the last of these is a TSIG record in another
section, or in front of others, or in front of anything else, then they are not accepted.

The second half speaks of octets that are *not* accepted, of which no parser has told anything. This
is the use of `Message.Begins`, which says of any octets what they begin with.
-/

set_option autoImplicit false

namespace Dns

variable {m : Array UInt8} {p q : Nat}

/-! ## Entries that leave nothing out

A row with the additional remark that every entry has octets of its own. That an entry is not empty
is a matter of its name, of which there is an octet at least. With it, items are tiles: each begins
where the one before it has ended, and their number is limited by that of the octets. -/

/-- Entries take up the octets from a place to another. Each has octets of its own and begins where
the one before it has ended. -/
def Item.Tiles (m : Array UInt8) : List (Section × Item) → (p q : Nat) → Prop
  | [], p, q => p = q
  | x :: rest, p, q => ∃ s, x.2.ReadAt m p s ∧ p < s ∧ s ≤ m.size ∧ Tiles m rest s q

theorem Item.Row.tiles {items : List (Section × Item)} (h : Item.Row m items p q) :
    Item.Tiles m items p q := by
  induction items generalizing p with
  | nil => exact h
  | cons x rest ih =>
    obtain ⟨s, first, others⟩ := h
    exact ⟨s, first, first.lt, first.inside, ih others⟩

/-! ## Entries that the header announces

The numbers in the header are four, and what they announce is a list of sections: so many questions,
then so many answers, and so on. What octets begin with belongs to a prefix of that list. That they
are a prefix is what makes two descriptions of one message comparable, of which one stops earlier:
the shorter one is the beginning of the longer. -/

/-- The sections of the entries that are announced, in the order of the message. -/
def Counts.parts (c : Counts) : List Section :=
  Section.all.flatMap fun part => List.replicate (c.get part).toNat part

/-- The octets begin with a header and with some of the entries that it announces, or all of them,
and these end at a place. -/
structure Message.Begins (m : Array UInt8) (h : HeaderSection) (items : List (Section × Item))
    (stop : Nat) : Prop where
  header : HeaderSection.read m 0 = .ok h HeaderSection.length
  announced : items.map Prod.fst <+: h.counts.parts
  fits : ∀ x ∈ items, Item.Fits x
  row : Item.Row m items HeaderSection.length stop

namespace Message

theorem Begins.header_eq {h h' : HeaderSection} {xs ys : List (Section × Item)} {s t : Nat}
    (hx : Begins m h xs s) (hy : Begins m h' ys t) : h = h' := by
  have both := hx.header.symm.trans hy.header
  cases both
  rfl

/-- What octets begin with goes on to what more of them begins with. -/
theorem Begins.goes_on {h h' : HeaderSection} {xs ys : List (Section × Item)} {s t : Nat}
    (hx : Begins m h xs s) (hy : Begins m h' ys t) (fewer : xs.length ≤ ys.length) :
    ∃ rest, ys = xs ++ rest ∧ Item.Row m rest s t := by
  obtain rfl := hx.header_eq hy
  refine hx.row.goes_on hy.row hx.fits hy.fits ?_
  exact List.prefix_of_prefix_length_le hx.announced hy.announced (by simpa using fewer)

/-! ## Accepted messages

There are two descriptions of the entries of an accepted message, and the proofs compare them: those
in front of the signature together with it, as the parser has found them, and all of them in one
row. From the first comes that there is no signature but the last entry, and from the second that
there are no octets that belong to no entry. -/

section Accepted

variable {message : Message} {c : Contents} {stop : Nat} {last : List Record}

theorem ReadFrom.items_eq (h : message.ReadFrom m c stop last) :
    message.contents.items = c.items ++ recordItems .additional last := by
  rw [h.contents]
  simp only [Contents.items, recordItems, List.map_append, List.append_assoc]

theorem ReadFrom.row_last (h : message.ReadFrom m c stop last) :
    Item.Row m (recordItems .additional last) stop m.size := by
  have ending := h.ending
  generalize message.tsigStart = start at ending
  cases ending with
  | unsigned same => exact same.symm
  | signed _ read => exact ⟨m.size, read, rfl⟩

theorem ReadFrom.parts_eq (h : message.ReadFrom m c stop last) :
    message.contents.items.map Prod.fst = message.header.counts.parts := by
  simp only [Contents.map_fst_items, Counts.parts, Section.all, List.flatMap_cons, List.flatMap_nil,
    List.append_nil, h.counts]

/-- The octets of an accepted message are its header and all entries that are announced. -/
theorem ReadFrom.begins (h : message.ReadFrom m c stop last) :
    Begins m message.header message.contents.items m.size where
  header := h.header
  announced := h.parts_eq ▸ List.prefix_rfl
  fits := by
    rw [h.items_eq]
    refine List.forall_mem_append.mpr ⟨fun x mem => (h.plain.sorted.1 x mem).fits, ?_⟩
    exact List.forall_mem_map.mpr fun r _ => by simp [Item.Fits]
  row := by
    rw [h.items_eq]
    exact Item.row_append.mpr ⟨stop, h.row, h.row_last⟩

/-- No entry but the last one is a signature, which is an additional record then. -/
theorem ReadFrom.signature_last (h : message.ReadFrom m c stop last)
    {before after : List (Section × Item)} {part : Section} {r : Record}
    (items : message.contents.items = before ++ (part, .record r) :: after)
    (signature : r.data.kind? = some .tsig) :
    part = .additional ∧ after = [] ∧ before = c.items ∧ last = [r] := by
  -- In front of the ending there are no signatures.
  have elsewhere : ∀ {a b : List (Section × Item)},
      c.items = a ++ (part, .record r) :: b → False := by
    intro a b same
    have placed := h.plain.sorted.1 (part, .record r) (by simp [same])
    exact placed.2 signature
  rw [h.items_eq] at items
  have ending := h.ending
  generalize message.tsigStart = start at ending
  cases ending with
  | unsigned =>
    exact (elsewhere (by simpa [recordItems] using items)).elim
  | @signed r' _ _ _ =>
    -- If there is something behind the signature, the ending is that, and the signature is one of
    -- the others.
    rcases List.eq_nil_or_concat' after with rfl | ⟨front, x, rfl⟩
    · obtain ⟨same, one⟩ := List.append_inj' items rfl
      cases one
      exact ⟨rfl, rfl, same.symm, rfl⟩
    · have shorter : c.items ++ recordItems .additional [r']
          = (before ++ (part, .record r) :: front) ++ [x] := by simpa using items
      exact (elsewhere (List.append_inj' shorter rfl).1).elim

theorem ReadFrom.tsig?_iff (h : message.ReadFrom m c stop last) {owner : Name} {t : Tsig}
    {start : Nat} : message.tsig? = some (owner, t, start) ↔ ∃ before r,
      message.contents.items = before ++ [(.additional, .record r)] ∧ r.owner = owner ∧
        r.data = .tsig t ∧ Item.Row m before HeaderSection.length start ∧
        Record.read m start = .ok r m.size := by
  constructor
  · intro told
    rcases h.tsig?_eq with ⟨none, -⟩ | ⟨r, t', rfl, signature, some⟩
    · cases none.symm.trans told
    · cases some.symm.trans told
      obtain ⟨s, read, rfl⟩ := h.row_last
      exact ⟨c.items, r, h.items_eq, rfl, signature, h.row, read⟩
  · rintro ⟨before, r, items, rfl, signature, row, read⟩
    have kind : r.data.kind? = some .tsig := by rw [signature]; rfl
    obtain ⟨-, -, rfl, rfl⟩ := h.signature_last items kind
    rcases h.tsig?_eq with ⟨-, none⟩ | ⟨r', t', one, signature', some⟩
    · cases none
    · cases one
      cases signature.symm.trans signature'
      -- The row that is given begins like the one that was read and has as many items. So they end
      -- at the same place.
      obtain ⟨rest, same, rest_row⟩ := h.row.goes_on row
        (fun x mem => (h.plain.sorted.1 x mem).fits) (fun x mem => (h.plain.sorted.1 x mem).fits)
        List.prefix_rfl
      obtain rfl : rest = [] := List.self_eq_append_right.mp same
      cases rest_row
      exact some

theorem ReadFrom.tsig?_none_iff (h : message.ReadFrom m c stop last) : message.tsig? = none ↔
    ∀ part r, (part, Item.record r) ∈ message.contents.items → r.data.kind? ≠ some .tsig := by
  constructor
  · intro none part r mem signature
    obtain ⟨before, after, items⟩ := List.append_of_mem mem
    obtain ⟨-, -, -, rfl⟩ := h.signature_last items signature
    rcases h.tsig?_eq with ⟨-, never⟩ | ⟨r', t, -, -, some⟩
    · cases never
    · cases none.symm.trans some
  · intro plain
    rcases h.tsig?_eq with ⟨none, -⟩ | ⟨r, t, rfl, signature, -⟩
    · exact none
    · have mem : (Section.additional, Item.record r) ∈ message.contents.items := by
        rw [h.items_eq]
        exact List.mem_append_right _ List.mem_cons_self
      exact absurd (by rw [signature]; rfl) (plain _ _ mem)

/-- If octets begin with a TSIG record and are accepted, then nothing comes after it. -/
theorem ReadFrom.nothing_behind (h : message.ReadFrom m c stop last) {header : HeaderSection}
    {before : List (Section × Item)} {part : Section} {r : Record} {reached : Nat}
    (begun : Begins m header (before ++ [(part, .record r)]) reached)
    (signature : r.data.kind? = some .tsig) :
    part = .additional ∧ before.length + 1 = header.counts.parts.length ∧ reached = m.size := by
  obtain rfl := begun.header_eq h.begins
  -- What was announced is what is there, and so the beginning is no longer than the whole.
  have fewer : (before ++ [(part, Item.record r)]).length ≤ message.contents.items.length := by
    have lengths := begun.announced.length_le
    rwa [← h.parts_eq, List.length_map, List.length_map] at lengths
  obtain ⟨rest, items, row⟩ := begun.goes_on h.begins fewer
  have split : message.contents.items = before ++ (part, .record r) :: rest := by
    rw [items, List.append_assoc]
    rfl
  obtain ⟨additional, rfl, -, -⟩ := h.signature_last split signature
  refine ⟨additional, ?_, row⟩
  rw [← h.parts_eq, List.length_map, split, List.length_append]
  rfl

end Accepted

/-! ## Acceptance -/

/-- **Accepted octets are their entries, and a signature is the last of them.** Behind the header of
an accepted message stand as many entries in each section as the header says; they take up all
octets up to the end. A TSIG record can only be the last entry, as an additional record. `tsig?` is
the owner, the data and the place of this record, where it is read up to the end of the octets, and
`none` if no entry is a TSIG record. Octets with a TSIG record in another section, in front of
another record that is announced, or in front of anything else, are not accepted. -/
theorem accepted_covered (m : Array UInt8) :
    (∀ message, ofOctets m = .ok message →
      (∀ part, message.sectionLength part = (message.header.counts.get part).toNat) ∧
      Begins m message.header message.contents.items m.size ∧
      Item.Tiles m message.contents.items HeaderSection.length m.size ∧
      (∀ before part r after, message.contents.items = before ++ (part, .record r) :: after →
        r.data.kind? = some .tsig → part = .additional ∧ after = []) ∧
      (∀ owner t start, message.tsig? = some (owner, t, start) ↔ ∃ before r,
        message.contents.items = before ++ [(.additional, .record r)] ∧ r.owner = owner ∧
          r.data = .tsig t ∧ Item.Row m before HeaderSection.length start ∧
          Record.read m start = .ok r m.size) ∧
      (message.tsig? = none ↔ ∀ part r, (part, Item.record r) ∈ message.contents.items →
        r.data.kind? ≠ some .tsig)) ∧
    (∀ header before part r stop, Begins m header (before ++ [(part, .record r)]) stop →
      r.data.kind? = some .tsig →
      part ≠ .additional ∨ before.length + 1 < header.counts.parts.length ∨ stop < m.size →
      ∃ e, ofOctets m = .error e) := by
  refine ⟨?_, ?_⟩
  · intro message accepted
    obtain ⟨c, stop, last, h⟩ := ofOctets_ok accepted
    refine ⟨fun part => ?_, h.begins, h.begins.row.tiles, ?_, fun _ _ _ => h.tsig?_iff,
      h.tsig?_none_iff⟩
    · rw [h.counts]
      cases part <;> rfl
    · intro before part r after items signature
      obtain ⟨additional, nothing, -, -⟩ := h.signature_last items signature
      exact ⟨additional, nothing⟩
  · intro header before part r stop begun signature misplaced
    -- If these octets were accepted, their entries would be the ones begun with, and then each of
    -- the three cases is against what is known of the signature.
    cases accepted : ofOctets m with
    | error e => exact ⟨e, rfl⟩
    | ok message =>
      obtain ⟨c, _, last, h⟩ := ofOctets_ok accepted
      obtain ⟨additional, all, whole⟩ := h.nothing_behind begun signature
      rcases misplaced with other | more | behind
      · exact absurd additional other
      · omega
      · omega

/-- A TSIG record behind a question and an answer is found where it stands. Two TSIG records in the
additional section are one too many. -/
theorem accepted_covered_answer :
    (let octets : Array UInt8 := #[0, 10, 0, 0, 0, 1, 0, 1, 0, 0, 0, 1, 1, 97, 0, 0, 1, 0, 1,
        192, 12, 0, 1, 0, 1, 0, 0, 0, 60, 0, 4, 192, 0, 2, 1,
        192, 12, 0, 250, 0, 255, 0, 0, 0, 0, 0, 17,
        0, 0, 0, 0, 0, 0, 0, 0, 0, 0, 0, 0, 0, 0, 0, 0, 0]
      ∃ message r, ofOctets octets = .ok message ∧ message.contents.items.getLast? =
        some (.additional, .record r) ∧ Record.read octets 35 = .ok r octets.size) ∧
    (let octets : Array UInt8 := #[0, 10, 0, 0, 0, 0, 0, 0, 0, 0, 0, 2,
        0, 0, 250, 0, 255, 0, 0, 0, 0, 0, 17, 0, 0, 0, 0, 0, 0, 0, 0, 0, 0, 0, 0, 0, 0, 0, 0, 0,
        0, 0, 250, 0, 255, 0, 0, 0, 0, 0, 17, 0, 0, 0, 0, 0, 0, 0, 0, 0, 0, 0, 0, 0, 0, 0, 0, 0]
      ∃ e, ofOctets octets = .error e) := by
  refine ⟨?_, ?_⟩
  · intro octets
    have accepted : (ofOctets octets).map (fun m => m.tsig?.map fun (_, _, start) => start)
        = .ok (some 35) := by cbv
    obtain ⟨message, read, place⟩ := map_eq_ok accepted
    obtain ⟨⟨owner, t, start⟩, signed, rfl⟩ := Option.map_eq_some_iff.mp place
    obtain ⟨-, -, -, -, told, -⟩ := (accepted_covered octets).1 message read
    obtain ⟨before, r, items, -, -, -, last⟩ := (told owner t 35).mp signed
    exact ⟨message, r, read, by rw [items, List.getLast?_concat], last⟩
  · intro octets
    have found : (Record.read octets 12).map (fun r => r.data.kind?) = .ok (some .tsig) 40 := by cbv
    have header : HeaderSection.read octets 0
        = .ok ⟨⟨10, 0⟩, ⟨0, 0, 0, 2⟩⟩ HeaderSection.length := by cbv
    obtain ⟨r, read, kind⟩ : ∃ r, Record.read octets 12 = .ok r 40 ∧ r.data.kind? = some .tsig := by
      cases read : Record.read octets 12 with
      | error e q => rw [read] at found; cases found
      | ok r q =>
        rw [read] at found
        obtain ⟨kind, rfl⟩ := Outcome.ok.inj found
        exact ⟨r, rfl, kind⟩
    refine (accepted_covered octets).2 _ [] .additional r 40 ⟨header, ?_, ?_, 40, read, rfl⟩ kind
      (.inr (.inl (by decide)))
    · exact ⟨[.additional], rfl⟩
    · simp [Item.Fits]

end Message

end Dns
