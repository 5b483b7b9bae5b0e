import Dns.Proofs.Texts
import Dns.Tsig.Keyring

/-!
# Keyrings that are read back from their texts

The text of a keyring is read back in layers. Base64 gives back a secret, three octets at a time
(`Base64.decode?_encode`). Neither it nor the texts of names and algorithms have blanks in them, so
that the lines of the text are the lines of the keys (`Keyring.lines_eq`) and their words are what
was written there (`Keyring.words_fields`). And since no two keys of a keyring have the same name,
the keys that are read are kept in their order (`Keyring.extend_of_distinct`).

Two keys do not come through this. The text of a name may begin with a number sign, which is not
escaped, and then the line is taken for a comment. An empty secret leaves no word behind, and then
the text of the algorithm is taken for the secret (`Keyring.readLine_fields`).

Whether a line is a comment is asked before its words are counted, and so a key may have both of
these and is then left out without an error. `Key.unreadable` is about the others. Reading stops at
the first line that is an error, and everything behind it is not looked at, which is why the result
is told by the place of that line (`Keyring.readLines_fields`).

Equal keyrings are equally long, and leaving out lines makes them shorter. So the condition under
which a keyring comes back is not only sufficient (`Keyring.read_back_iff`).
-/

set_option autoImplicit false

namespace Dns

open Text

/-! ## Base64

Three octets are four digits. At the end there may be one octet or two, whose digits have bits that
belong to no octet; those have to be zero, and padding stands for the digits that are not there. -/

namespace Base64

theorem value?_digit {n : Nat} (small : n < 64) : value? (digit n) = some n := by
  have all : ∀ i : Fin 64, value? (digit i) = some i.val := by decide
  exact all ⟨n, small⟩

theorem digit_ne_padding {n : Nat} (small : n < 64) : digit n ≠ '=' := by
  intro padding
  have value := value?_digit small
  rw [padding] at value
  cases value

theorem visible_digit {n : Nat} (small : n < 64) : Visible (digit n) := by
  have all : ∀ i : Fin 64, Visible (digit i) := by decide
  exact all ⟨n, small⟩

theorem ofNat_eq {n : Nat} {b : UInt8} (low : n % 256 = b.toNat) : UInt8.ofNat n = b := by
  rw [← UInt8.toNat_inj, UInt8.toNat_ofNat', ← low]

variable (found : Octets) (a b c : UInt8)

/-- A group gives its three octets back, whatever comes behind it. -/
theorem decodeFrom_group (rest : List Char) :
    decodeFrom found (group a b c ++ rest) = decodeFrom (c :: b :: a :: found) rest := by
  have ha : a.toNat < 256 := a.toNat_lt
  have hb : b.toNat < 256 := b.toNat_lt
  have hc : c.toNat < 256 := c.toNat_lt
  obtain ⟨n, number⟩ : ∃ n, n = (a.toNat * 256 + b.toNat) * 256 + c.toNat := ⟨_, rfl⟩
  have last : digit (n % 64) ≠ '=' := digit_ne_padding (Nat.mod_lt _ (by decide))
  -- The four digits are those of the number that the three octets make.
  have sum : ((n / 262144 * 64 + n / 4096 % 64) * 64 + n / 64 % 64) * 64 + n % 64 = n := by omega
  simp only [group, ← number, List.cons_append, List.nil_append]
  rw [decodeFrom, value?_digit (by omega), value?_digit (by omega), value?_digit (by omega),
    value?_digit (by omega)]
  · simp only [sum]
    rw [ofNat_eq (b := c) (by omega), ofNat_eq (b := b) (by omega), ofNat_eq (b := a) (by omega)]
  · exact fun _ padding => absurd padding last
  · exact fun padding => absurd padding last

theorem decodeFrom_group₁ : decodeFrom found (group₁ a) = some (found.reverse ++ [a]) := by
  have ha : a.toNat < 256 := a.toNat_lt
  -- The bits that belong to no octet are zero.
  have whole : (a.toNat / 4 * 64 + a.toNat % 4 * 16) % 16 = 0 := by omega
  rw [group₁, decodeFrom, value?_digit (by omega), value?_digit (by omega)]
  simp only [Option.bind_eq_bind, Option.bind_some, if_pos whole]
  rw [ofNat_eq (b := a) (by omega), List.reverse_cons]

theorem decodeFrom_group₂ : decodeFrom found (group₂ a b) = some (found.reverse ++ [a, b]) := by
  have ha : a.toNat < 256 := a.toNat_lt
  have hb : b.toNat < 256 := b.toNat_lt
  obtain ⟨n, number⟩ : ∃ n, n = a.toNat * 256 + b.toNat := ⟨_, rfl⟩
  have last : digit (n % 16 * 4) ≠ '=' := digit_ne_padding (by omega)
  have whole : ((n / 1024 * 64 + n / 16 % 64) * 64 + n % 16 * 4) % 4 = 0 := by omega
  simp only [group₂, ← number]
  rw [decodeFrom, value?_digit (by omega), value?_digit (by omega), value?_digit (by omega)]
  · simp only [Option.bind_eq_bind, Option.bind_some, if_pos whole]
    rw [ofNat_eq (b := b) (by omega), ofNat_eq (b := a) (by omega), List.reverse_cons,
      List.reverse_cons, List.append_assoc]
    rfl
  · exact last

theorem decodeFrom_encode (octets : Octets) (found : Octets) :
    decodeFrom found (encode octets) = some (found.reverse ++ octets) := by
  induction octets using groups.induct generalizing found with
  | case1 a b c rest ih =>
    rw [encode, groups, List.flatten_cons, decodeFrom_group]
    refine (ih _).trans ?_
    simp only [List.reverse_cons, List.append_assoc, List.cons_append, List.nil_append]
  | case2 a b =>
    rw [encode, groups, List.flatten_singleton, decodeFrom_group₂]
  | case3 a =>
    rw [encode, groups, List.flatten_singleton, decodeFrom_group₁]
  | case4 =>
    rw [encode, groups, List.flatten_nil, decodeFrom, List.append_nil]

/-- What was written in base64 is read back. -/
theorem decode?_encode (octets : Octets) : decode? (encode octets) = some octets :=
  decodeFrom_encode octets []

theorem visible_groups (octets : Octets) : ∀ g ∈ groups octets, ∀ c ∈ g, Visible c := by
  have padding : Visible '=' := by decide
  have digits : ∀ n, Visible (digit (n % 64)) := fun n => visible_digit (Nat.mod_lt _ (by decide))
  induction octets using groups.induct with
  | case1 a b c rest ih =>
    have ha : a.toNat < 256 := a.toNat_lt
    have hb : b.toNat < 256 := b.toNat_lt
    have hc : c.toNat < 256 := c.toNat_lt
    rw [groups, List.forall_mem_cons]
    refine ⟨?_, ih⟩
    simp only [group, List.forall_mem_cons]
    exact ⟨visible_digit (by omega), digits _, digits _, digits _, List.forall_mem_nil _⟩
  | case2 a b =>
    have ha : a.toNat < 256 := a.toNat_lt
    have hb : b.toNat < 256 := b.toNat_lt
    simp only [groups, List.forall_mem_singleton, group₂, List.forall_mem_cons]
    exact ⟨visible_digit (by omega), digits _, visible_digit (by omega), padding⟩
  | case3 a =>
    have ha : a.toNat < 256 := a.toNat_lt
    simp only [groups, List.forall_mem_singleton, group₁, List.forall_mem_cons]
    exact ⟨visible_digit (by omega), visible_digit (by omega), padding, padding⟩
  | case4 => exact List.forall_mem_nil _

theorem visible_encode (octets : Octets) : ∀ c ∈ encode octets, Visible c := by
  intro c mem
  obtain ⟨g, there, mem⟩ := List.mem_flatten.mp mem
  exact visible_groups octets g there c mem

/-- Only of nothing nothing is written. -/
theorem encode_eq_nil {octets : Octets} : encode octets = [] ↔ octets = [] := by
  refine ⟨fun nothing => ?_, fun nothing => by rw [nothing]; rfl⟩
  have back := decode?_encode octets
  rw [nothing] at back
  exact (Option.some.inj back).symm

end Base64

/-! ## Words and lines -/

namespace Text

variable {test : Char → Bool} {piece rest : List Char}

theorem splitAt_ne_nil (text : List Char) : splitAt test text ≠ [] := by
  induction text with
  | nil => exact nofun
  | cons c rest ih =>
    rw [splitAt]
    split
    · exact nofun
    · split <;> exact nofun

theorem splitAt_of_mark {c : Char} (mark : test c = true) :
    splitAt test (c :: rest) = [] :: splitAt test rest := by
  rw [splitAt]
  split
  · rename_i nothing
    exact absurd nothing (splitAt_ne_nil rest)
  · rename_i piece pieces divided
    rw [if_pos mark, divided]

/-- What has no mark in it is one piece. -/
theorem splitAt_of_plain (plain : ∀ c ∈ piece, test c = false) : splitAt test piece = [piece] := by
  induction piece with
  | nil => rfl
  | cons c rest ih =>
    obtain ⟨ordinary, plain⟩ := List.forall_mem_cons.mp plain
    rw [splitAt, ih plain]
    simp only [ordinary, Bool.false_eq_true, if_false]

/-- A piece ends with the first mark. -/
theorem splitAt_append {c : Char} (plain : ∀ d ∈ piece, test d = false) (mark : test c = true) :
    splitAt test (piece ++ c :: rest) = piece :: splitAt test rest := by
  induction piece with
  | nil => exact splitAt_of_mark mark
  | cons d more ih =>
    obtain ⟨ordinary, plain⟩ := List.forall_mem_cons.mp plain
    rw [List.cons_append, splitAt, ih plain]
    simp only [ordinary, Bool.false_eq_true, if_false]

theorem isBlank_of_visible {c : Char} (visible : Visible c) : isBlank c = false := by
  obtain ⟨low, high⟩ := visible
  simp only [isBlank, Bool.or_eq_false_iff, Bool.and_eq_false_iff, decide_eq_false_iff_not,
    beq_eq_false_iff_ne]
  omega

theorem ne_newline_of_visible {c : Char} (visible : Visible c) : (c == '\n') = false := by
  refine beq_eq_false_iff_ne.mpr fun same => ?_
  rw [same] at visible
  exact absurd visible (by decide)

end Text

/-! ## Texts of algorithms -/

namespace Algorithm

theorem visible_text (a : Algorithm) : ∀ c ∈ a.text.toList, Visible c := by
  have all : a.text.toList.all (fun c => decide (Visible c)) = true := by cases a <;> decide
  exact fun c mem => of_decide_eq_true (List.all_eq_true.mp all c mem)

theorem ofText_ofList (a : Algorithm) : ofText (String.ofList a.text.toList) = .ok a := by
  rw [String.ofList_toList]
  cases a <;> rfl

/-- The texts of algorithms have a hyphen in them, and base64 has none. -/
theorem decode?_text (a : Algorithm) : Base64.decode? a.text.toList = none := by
  cases a <;> decide

end Algorithm

/-! ## Inserting

Keys that are read are inserted one after the other. That they come out in their order is due to
their names, which were different before they were written. Without that, a later key would have
displaced an earlier one and the ring would be shorter. -/

namespace Keyring

/-- No two keys have the same name. -/
def Distinct (keys : List Key) : Prop := keys.Pairwise fun a b => (a.name == b.name) = false

variable {key : Key} {keys : List Key} {r : Keyring}

theorem insertInto_of_new (new : ∀ k ∈ keys, (k.name == key.name) = false) :
    insertInto key keys = (none, keys ++ [key]) := by
  induction keys with
  | nil => rfl
  | cons k rest ih =>
    obtain ⟨other, new⟩ := List.forall_mem_cons.mp new
    rw [insertInto, if_neg (by rw [other]; exact Bool.false_ne_true), ih new]
    rfl

theorem mem_insertInto {k : Key} (mem : k ∈ (insertInto key keys).2) : k = key ∨ k ∈ keys := by
  induction keys with
  | nil => exact .inl (List.mem_singleton.mp mem)
  | cons l rest ih =>
    rw [insertInto] at mem
    split at mem
    · rcases List.mem_cons.mp mem with new | old
      · exact .inl new
      · exact .inr (List.mem_cons_of_mem _ old)
    · rcases List.mem_cons.mp mem with rfl | others
      · exact .inr List.mem_cons_self
      · exact (ih others).imp id (List.mem_cons_of_mem _)

theorem insertInto_distinct (h : Distinct keys) : Distinct (insertInto key keys).2 := by
  induction keys with
  | nil => exact List.pairwise_singleton _ _
  | cons k rest ih =>
    obtain ⟨others, distinct⟩ := List.pairwise_cons.mp h
    rw [insertInto]
    split
    · rename_i same
      -- The names of the rest differ from the one that is replaced, and so from the new one.
      refine List.pairwise_cons.mpr ⟨fun l mem => ?_, distinct⟩
      refine Bool.eq_false_iff.mpr fun equal => ?_
      have known : (k.name == l.name) = true := BEq.trans same equal
      rw [others l mem] at known
      cases known
    · rename_i differs
      refine List.pairwise_cons.mpr ⟨fun l mem => ?_, ih distinct⟩
      rcases mem_insertInto mem with rfl | old
      · exact Bool.eq_false_iff.mpr differs
      · exact others l old

theorem extend_distinct (h : Distinct r.keys) : Distinct (r.extend keys).keys := by
  induction keys generalizing r with
  | nil => exact h
  | cons k rest ih => exact ih (r := (r.insert k).2) (insertInto_distinct h)

/-- Keys with names of their own are put behind each other. -/
theorem extend_of_distinct (h : Distinct (r.keys ++ keys)) : r.extend keys = ⟨r.keys ++ keys⟩ := by
  induction keys generalizing r with
  | nil => rw [List.append_nil]; rfl
  | cons k rest ih =>
    have new : ∀ l ∈ r.keys, (l.name == k.name) = false := fun l mem =>
      (List.pairwise_append.mp h).2.2 l mem k List.mem_cons_self
    have inserted : (r.insert k).2 = ⟨r.keys ++ [k]⟩ := by
      rw [insert, insertInto_of_new new]
    have step : r.extend (k :: rest) = (r.insert k).2.extend rest := rfl
    have whole : r.keys ++ k :: rest = (r.keys ++ [k]) ++ rest := List.append_cons ..
    rw [whole] at h ⊢
    rw [step, inserted]
    exact ih h

end Keyring

/-! ## Lines of keys

The line of a key is known by its first character and by how many words it has. The reader looks at
nothing else before it reads the words. A name that begins with `#` makes its line a comment,
whatever words follow. -/

/-- The name begins with a number sign, and so does the line of the key. -/
def Key.commented (k : Key) : Bool :=
  (k.name.labels.head?.bind fun l => l.octets.head?) == some 35

/-- The line of the key is no comment, but has the algorithm for its last word. -/
def Key.unreadable (k : Key) : Bool := !k.commented && k.secret.isEmpty

/-- The text of a name is never empty, and begins as its first label does if that is a number
sign. -/
theorem Key.textChars_cons (k : Key) :
    ∃ c rest, k.name.textChars = c :: rest ∧ (c = '#' ↔ k.commented = true) := by
  rw [commented]
  cases labels : k.name.labels with
  | nil =>
    refine ⟨'.', [], by simp [Name.textChars, labels, k.absolute], ?_⟩
    exact iff_of_false (by decide) Bool.false_ne_true
  | cons l rest =>
    obtain ⟨c, more, shape, -, -, sign⟩ := Name.text_begins l rest k.name.absolute
    refine ⟨c, more, (Name.textChars_eq labels).trans shape, sign.trans ?_⟩
    rw [beq_iff_eq]
    rfl

namespace Keyring

variable {key : Key} {keys : List Key} {r : Keyring}

/-- The line of a key without its end. -/
def fields (key : Key) : List Char :=
  key.name.textChars ++ ' ' :: (key.algorithm.text.toList ++ ' ' :: Base64.encode key.secret)

theorem line_eq (key : Key) : line key = fields key ++ ['\n'] := by
  simp [line, fields]

theorem lines_eq (keys : List Key) : Text.lines (keys.flatMap line) = keys.map fields ++ [[]] := by
  induction keys with
  | nil => rfl
  | cons key rest ih =>
    have plain : ∀ c ∈ fields key, (c == '\n') = false := by
      have space : (' ' == '\n') = false := rfl
      simp only [fields, List.forall_mem_append, List.forall_mem_cons]
      exact ⟨fun c mem => ne_newline_of_visible (key.name.visible_textChars c mem), space,
        fun c mem => ne_newline_of_visible (key.algorithm.visible_text c mem), space,
        fun c mem => ne_newline_of_visible (Base64.visible_encode key.secret c mem)⟩
    rw [List.flatMap_cons, line_eq, List.append_assoc, List.singleton_append, Text.lines,
      splitAt_append plain rfl, ← Text.lines, ih]
    rfl

/-- A key has three words in its line, or two if its secret is empty. -/
theorem words_fields (key : Key) : Text.words (fields key)
    = key.name.textChars :: key.algorithm.text.toList ::
        if key.secret = [] then [] else [Base64.encode key.secret] := by
  have blank : isBlank ' ' = true := rfl
  have name : (!key.name.textChars.isEmpty) = true := by
    obtain ⟨c, rest, shape, -⟩ := key.textChars_cons
    rw [shape]
    rfl
  have algorithm : (!key.algorithm.text.toList.isEmpty) = true := by
    cases key.algorithm <;> decide
  rw [Text.words, fields,
    splitAt_append (fun c mem => isBlank_of_visible (key.name.visible_textChars c mem)) blank,
    splitAt_append (fun c mem => isBlank_of_visible (key.algorithm.visible_text c mem)) blank,
    splitAt_of_plain fun c mem => isBlank_of_visible (Base64.visible_encode key.secret c mem)]
  simp only [List.filter_cons, name, algorithm, if_true, List.filter_nil]
  by_cases none : key.secret = []
  · rw [if_pos none, none]
    rfl
  · have secret : (!(Base64.encode key.secret).isEmpty) = true := by
      rw [Bool.not_eq_true', List.isEmpty_eq_false_iff]
      exact mt Base64.encode_eq_nil.mp none
    rw [if_pos secret, if_neg none]

theorem readName_textChars (key : Key) : readName key.name.textChars = .ok key.name := by
  have text : Name.ofText (String.ofList key.name.textChars) = .ok key.name := by
    rw [Name.ofText, toUTF8_of_visible key.name.visible_textChars]
    exact key.name.ofTextOctets_textChars
  simp only [readName, text, Name.concat, key.absolute, if_true]

section Words

variable {text rest secret algorithm : List Char} {c : Char}

theorem readLine_two (other : c ≠ '#') (words : Text.words text = [c :: rest, secret]) :
    readLine text = some <$> readKey (c :: rest) none secret := by
  simp [readLine, words, other]

theorem readLine_three (other : c ≠ '#')
    (words : Text.words text = [c :: rest, algorithm, secret]) :
    readLine text = some <$> readKey (c :: rest) (some algorithm) secret := by
  simp [readLine, words, other]

end Words

/-- What a reader makes of the line of a key: a comment if it begins like one, and otherwise the
key, unless the text of the algorithm is the last word and so is taken for the secret. -/
theorem readLine_fields (key : Key) : readLine (fields key)
    = if key.commented then .ok none else if key.secret = [] then .error .base64
      else .ok (some key) := by
  have name := readName_textChars key
  have words := words_fields key
  obtain ⟨c, rest, shape, sign⟩ := key.textChars_cons
  rw [shape] at name words
  by_cases commented : key.commented = true
  · rw [if_pos commented, readLine, words, sign.mpr commented]
    rfl
  · rw [if_neg commented]
    have other : c ≠ '#' := mt sign.mp commented
    -- Without a secret there are two words only, and the algorithm stands where the secret should
    -- be.
    by_cases none : key.secret = []
    · rw [if_pos none] at words ⊢
      rw [readLine_two other words]
      simp only [readKey, name, key.algorithm.decode?_text]
      rfl
    · rw [if_neg none] at words ⊢
      rw [readLine_three other words]
      have made : Key.ofParts key.name key.algorithm key.secret = .ok key :=
        dif_pos key.absolute
      have parts : readAlgorithm key.algorithm.text.toList = .ok key.algorithm := by
        rw [readAlgorithm, key.algorithm.ofText_ofList]
      simp only [readKey, parts, name, Base64.decode?_encode, bind, Except.bind, made]
      rfl

/-- Reading the lines of keys stops at the first one that cannot be read; and if there is none, then
the keys are inserted, without those whose lines are comments. -/
theorem readLines_fields (keys : List Key) (number : Nat) :
    readLines r number (keys.map fields ++ [[]]) = match keys.findIdx? Key.unreadable with
      | some i => .error ⟨number + i, .base64⟩
      | none => .ok (r.extend (keys.filter fun k => !k.commented)) := by
  induction keys generalizing r number with
  | nil => rfl
  | cons key rest ih =>
    -- The lines behind the first one are read as if they were alone, but for their numbers.
    have next : ∀ r : Keyring, readLines r (number + 1) (rest.map fields ++ [[]])
        = match (rest.findIdx? Key.unreadable).map (· + 1) with
          | some i => .error ⟨number + i, .base64⟩
          | none => .ok (r.extend (rest.filter fun k => !k.commented)) := by
      intro r
      rw [ih]
      cases rest.findIdx? Key.unreadable with
      | none => rfl
      | some i => simp only [Option.map_some, Nat.add_comm i 1, Nat.add_assoc]
    rw [List.map_cons, List.cons_append, readLines, readLine_fields, List.findIdx?_cons]
    by_cases commented : key.commented = true
    · have readable : key.unreadable = false := by rw [Key.unreadable, commented]; rfl
      have left : (key :: rest).filter (fun k => !k.commented)
          = rest.filter fun k => !k.commented :=
        List.filter_cons_of_neg (by rw [commented]; exact Bool.false_ne_true)
      rw [if_pos commented, left, readable]
      exact next r
    · have plain : key.commented = false := Bool.eq_false_iff.mpr commented
      rw [if_neg commented]
      by_cases none : key.secret = []
      · have unreadable : key.unreadable = true := by rw [Key.unreadable, plain, none]; rfl
        rw [if_pos none, unreadable]
        rfl
      · have readable : key.unreadable = false := by
          rw [Key.unreadable, List.isEmpty_eq_false_iff.mpr none, Bool.and_false]
        have kept : (key :: rest).filter (fun k => !k.commented)
            = key :: rest.filter fun k => !k.commented :=
          List.filter_cons_of_pos (by rw [plain]; rfl)
        rw [if_neg none, kept, readable]
        exact next (r.insert key).2

instance : ReflBEq Key where
  rfl := by
    intro k
    show (k.name == k.name && decide (k.algorithm = k.algorithm) && k.secret == k.secret) = true
    simp

/-- No two keys of a keyring have the same name, so that inserting some of them one after the other
keeps them all in their order. -/
theorem ofText_of_list (inserted : List Key) :
    let r := ofList inserted
    ofText r.text = match r.keys.findIdx? Key.unreadable with
      | some i => .error ⟨i + 1, .base64⟩
      | none => .ok ⟨r.keys.filter fun k => !k.commented⟩ := by
  intro r
  have distinct : Distinct r.keys := extend_distinct (r := empty) List.Pairwise.nil
  have left : Distinct (r.keys.filter fun k => !k.commented) := List.Pairwise.filter _ distinct
  rw [ofText, text, String.toList_ofList, lines_eq, readLines_fields,
    extend_of_distinct (r := empty) left]
  simp only [Nat.add_comm]
  rfl

/-- Whatever keys were inserted into a keyring: reading its text stops at the first key that has no
secret and whose line is no comment, and if there is no such key, it gives the keyring without the
keys whose lines are comments. So the keyring comes back exactly if all its keys have secrets and
names that do not begin with a number sign. -/
theorem read_back_iff (inserted : List Key) :
    let r := ofList inserted
    (ofText r.text = match r.keys.findIdx? Key.unreadable with
      | some i => .error ⟨i + 1, .base64⟩
      | none => .ok ⟨r.keys.filter fun k => !k.commented⟩) ∧
    ((∃ found, ofText r.text = .ok found ∧ (found == r) = true) ↔
      ∀ k ∈ r.keys, k.secret ≠ [] ∧ k.commented = false) := by
  intro r
  have result := ofText_of_list inserted
  refine ⟨result, fun ⟨found, ok, equal⟩ => ?_, fun whole => ⟨r, ?_, ?_⟩⟩
  · rw [result] at ok
    split at ok
    · cases ok
    · rename_i readable
      cases ok
      -- Equal keyrings have equally many keys, so that no line was a comment.
      have all := List.length_filter_eq_length_iff.mp (List.length_eq_of_beq equal)
      intro k mem
      have plain : k.commented = false := (Bool.not_eq_true' _).mp (all k mem)
      refine ⟨fun none => ?_, plain⟩
      have unreadable : k.unreadable = true := by rw [Key.unreadable, plain, none]; rfl
      rw [List.findIdx?_eq_none_iff.mp readable k mem] at unreadable
      cases unreadable
  · have readable : r.keys.findIdx? Key.unreadable = none := by
      refine List.findIdx?_eq_none_iff.mpr fun k mem => ?_
      rw [Key.unreadable, List.isEmpty_eq_false_iff.mpr (whole k mem).1, Bool.and_false]
    have kept : r.keys.filter (fun k => !k.commented) = r.keys :=
      List.filter_eq_self.mpr fun k mem => (Bool.not_eq_true' _).mpr (whole k mem).2
    rw [result, readable, kept]
  · show (r.keys == r.keys) = true
    exact BEq.rfl

/-- The text of a key whose name begins with a number sign is read as an empty keyring, and the text
of a key without a secret is not read at all. -/
theorem not_read_back :
    let marked : Key := ⟨⟨[⟨[35, 97], by decide, by decide⟩], true, by decide⟩, .sha1, [0], rfl⟩
    let secretless : Key := ⟨⟨[⟨[97], by decide, by decide⟩], true, by decide⟩, .sha1, [], rfl⟩
    ofText (ofList [marked]).text = .ok empty ∧ (empty == ofList [marked]) = false ∧
    ofText (ofList [secretless]).text = .error ⟨1, .base64⟩ := by
  intro marked secretless
  refine ⟨?_, rfl, ?_⟩
  · rw [ofText_of_list]; rfl
  · rw [ofText_of_list]; rfl

end Keyring

end Dns
