import Dns.Proofs.Keyrings
import Dns.Proofs.Parents
import Dns.Proofs.Records
import Mathlib.Data.List.TakeWhile

/-!
# What lines say of keys

The text of a keyring may have been written by hand, with any blanks between and around the words of
a line (`Text.words_eq_iff`). What a line says of a key is told here without a reader
(`Key.ToldBy`), and a text is read exactly if each of its lines tells a key or is a comment. Then
what is read are the keys of the lines, inserted one after the other (`Keyring.ofText_ok_iff`).

A carriage return at the end of a line is a blank, and the nothing behind the last line break is a
comment, so that neither needs a rule of its own.

There are three layers, and each is compared with a description of its own. Words are compared with
`Text.Spaced`, which builds a text from words and blanks. Parts of a key are compared with
`Key.HasParts`, for which a name that was told may be relative, and an algorithm may be missing.
Lines are compared with `Key.ToldBy` and `Text.IsComment`, and it is for lines that it matters which
of the two is asked first: a line that begins with a number sign is a comment whatever stands behind
it.

Each of these descriptions determines what is read. That a line cannot tell two keys, nor a text two
lists of them (`TellKeys.unique`), is a consequence of reading, which has one result.
-/

set_option autoImplicit false

namespace Dns

/-! ## Words and lines

The library knows how lists are split at elements. Here the pieces without a character are left out,
and so any number of blanks is as good as one. Words have at least one character each, and putting a
blank between them gives a text of the same words again. -/

namespace Text

variable {test : Char → Bool} {text before word rest : List Char} {found : List (List Char)}

theorem splitAt_eq_splitOnP (test : Char → Bool) (text : List Char) :
    splitAt test text = text.splitOnP test := by
  induction text with
  | nil => rfl
  | cons c rest ih =>
    rw [splitAt, List.splitOnP_cons_eq_if_modifyHead, ← ih]
    cases pieces : splitAt test rest with
    | nil => exact absurd pieces (splitAt_ne_nil rest)
    | cons piece pieces => rfl

theorem lines_eq_splitOn (text : List Char) : lines text = text.splitOn '\n' :=
  splitAt_eq_splitOnP _ text

/-- A text of words without blanks in them, with blanks around and between them. -/
inductive Spaced : (text : List Char) → (words : List (List Char)) → Prop
  | blanks {text : List Char} (blank : ∀ c ∈ text, isBlank c = true) : Spaced text []
  | word {before word rest : List Char} {words : List (List Char)}
      (blank : ∀ c ∈ before, isBlank c = true) (some : word ≠ [])
      (plain : ∀ c ∈ word, isBlank c = false) (apart : ∀ c ∈ rest.head?, isBlank c = true)
      (others : Spaced rest words) : Spaced (before ++ (word ++ rest)) (word :: words)

theorem words_append_blank {c : Char} (blank : isBlank c = true) (text rest : List Char) :
    words (text ++ c :: rest) = words text ++ words rest := by
  simp only [words, splitAt_eq_splitOnP]
  rw [List.splitOnP_append_cons text rest blank, List.filter_append]

theorem words_of_blanks (blank : ∀ c ∈ before, isBlank c = true) (text : List Char) :
    words (before ++ text) = words text := by
  induction before with
  | nil => rfl
  | cons c more ih =>
    obtain ⟨first, others⟩ := List.forall_mem_cons.mp blank
    exact (words_append_blank first [] (more ++ text)).trans (ih others)

theorem words_of_plain (some : word ≠ []) (plain : ∀ c ∈ word, isBlank c = false) :
    words word = [word] := by
  rw [words, splitAt_of_plain plain]
  exact List.filter_cons_of_pos (by rw [List.isEmpty_eq_false_iff.mpr some]; rfl)

/-- A word ends with the text or with a blank. -/
theorem words_append (some : word ≠ []) (plain : ∀ c ∈ word, isBlank c = false)
    (apart : ∀ c ∈ rest.head?, isBlank c = true) : words (word ++ rest) = word :: words rest := by
  cases rest with
  | nil => rw [List.append_nil, words_of_plain some plain]; rfl
  | cons c more =>
    have blank : isBlank c = true := apart c rfl
    rw [words_append_blank blank, words_of_plain some plain, List.singleton_append]
    exact congrArg (word :: ·) (words_append_blank blank [] more).symm

theorem Spaced.words_eq (h : Spaced text found) : words text = found := by
  induction h with
  | @blanks text blank =>
    have none := words_of_blanks blank []
    rwa [List.append_nil] at none
  | word blank some plain apart _ ih =>
    rw [words_of_blanks blank, words_append some plain apart, ih]

theorem Spaced.cons_blank {c : Char} (blank : isBlank c = true) (h : Spaced text found) :
    Spaced (c :: text) found := by
  cases h with
  | blanks others => exact .blanks (List.forall_mem_cons.mpr ⟨blank, others⟩)
  | @word before word rest _ others some plain apart more =>
    have longer : ∀ d ∈ c :: before, isBlank d = true := List.forall_mem_cons.mpr ⟨blank, others⟩
    exact .word longer some plain apart more

theorem Spaced.word_first (some : word ≠ []) (plain : ∀ c ∈ word, isBlank c = false)
    (apart : ∀ c ∈ rest.head?, isBlank c = true) (others : Spaced rest found) :
    Spaced (word ++ rest) (word :: found) := by
  have none : ∀ c ∈ ([] : List Char), isBlank c = true := List.forall_mem_nil _
  exact .word none some plain apart others

/-- A character in front of a text is the first of its first word, or a word of its own. -/
theorem Spaced.cons_plain {c : Char} (plain : isBlank c = false) (h : Spaced text found) :
    ∃ found, Spaced (c :: text) found := by
  have single : ∀ d ∈ [c], isBlank d = false := List.forall_mem_singleton.mpr plain
  have alone : (∀ d ∈ text.head?, isBlank d = true) → Spaced (c :: text) ([c] :: found) :=
    fun apart => word_first (List.cons_ne_nil c []) single apart h
  cases h with
  | blanks blank => exact ⟨_, alone fun d mem => blank d (List.mem_of_head? mem)⟩
  | @word before word rest _ blank some others apart more =>
    cases before with
    | nil =>
      have longer : ∀ d ∈ c :: word, isBlank d = false := List.forall_mem_cons.mpr ⟨plain, others⟩
      exact ⟨_, word_first (List.cons_ne_nil c word) longer apart more⟩
    | cons b before =>
      refine ⟨_, alone ?_⟩
      rintro d ⟨⟩
      exact blank b List.mem_cons_self

theorem spaced_words (text : List Char) : Spaced text (words text) := by
  have all : ∃ found, Spaced text found := by
    induction text with
    | nil => exact ⟨[], .blanks (List.forall_mem_nil _)⟩
    | cons c rest ih =>
      obtain ⟨found, spaced⟩ := ih
      cases blank : isBlank c with
      | true => exact ⟨found, spaced.cons_blank blank⟩
      | false => exact spaced.cons_plain blank
  obtain ⟨found, spaced⟩ := all
  rwa [spaced.words_eq]

theorem words_eq_iff : words text = found ↔ Spaced text found :=
  ⟨fun same => same ▸ spaced_words text, Spaced.words_eq⟩

/-- A line whose first character that is no blank is a number sign, or that has none. -/
def IsComment (line : List Char) : Prop := ∀ c ∈ (line.dropWhile isBlank).head?, c = '#'

theorem isComment_of_blanks (blank : ∀ c ∈ text, isBlank c = true) : IsComment text := by
  rw [IsComment, List.dropWhile_eq_nil_iff.mpr blank]
  exact fun _ mem => nomatch mem

theorem isComment_iff_of_word {c : Char} (blank : ∀ c ∈ before, isBlank c = true)
    (plain : isBlank c = false) (rest : List Char) :
    IsComment (before ++ c :: rest) ↔ c = '#' := by
  have start : (before ++ c :: rest).dropWhile isBlank = c :: rest := by
    rw [List.dropWhile_append_of_pos blank]
    exact List.dropWhile_cons_of_neg (by rw [plain]; exact Bool.false_ne_true)
  rw [IsComment, start]
  exact ⟨fun all => all c rfl, fun sign d mem => (Option.some.inj mem) ▸ sign⟩

end Text

/-! ## Names, algorithms and secrets

A key has an absolute name, and a line may tell a relative one. Completing it with the root keeps
its labels and the limit of 255 octets is asked once more, with the octet of the root. -/

/-- A name completed with the root is the absolute name with its labels, whichever it was before. -/
theorem Name.concat_root_ok_iff {n m : Name} :
    n.concat Name.root = .ok m ↔ m.absolute = true ∧ m.labels = n.labels := by
  cases absolute : n.absolute with
  | true =>
    rw [concat, if_pos absolute, Except.ok.injEq]
    constructor
    · rintro rfl
      exact ⟨absolute, rfl⟩
    · rintro ⟨absolute', labels⟩
      cases n
      cases m
      cases absolute
      cases absolute'
      cases labels
      rfl
  | false =>
    constructor
    · intro joined
      obtain ⟨labels, absolute'⟩ := concat_relative_ok absolute joined
      exact ⟨absolute', labels.trans (List.append_nil _)⟩
    · rintro ⟨absolute', labels⟩
      -- The labels of a name with the root behind them fit, since they are those of an absolute
      -- name.
      have whole : m.labels = n.labels ++ Name.root.labels := labels.trans (List.append_nil _).symm
      have fits : labelsLength (n.labels ++ Name.root.labels) + Name.root.absolute.toNat ≤ 255 := by
        rw [← whole, show Name.root.absolute = m.absolute from absolute'.symm]
        exact m.fits
      rw [concat_relative absolute fits]
      cases m
      cases absolute'
      cases whole
      rfl

/-- The algorithm that a text names, or the standard one if there is no text. -/
def Algorithm.ToldBy (a : Algorithm) : Option (List Char) → Prop
  | none => a = Algorithm.standard
  | some text => Algorithm.ofText (String.ofList text) = .ok a

/-- The words in the line of a key. The name is completed with the root if it is relative, and so it
has the labels that were told; the secret is told in base64. -/
structure Key.HasParts (key : Key) (name : List Char) (algorithm : Option (List Char))
    (secret : List Char) : Prop where
  name : ∃ n, Name.ofText (String.ofList name) = .ok n ∧ key.name.labels = n.labels
  algorithm : key.algorithm.ToldBy algorithm
  secret : Base64.decode? secret = some key.secret

/-- A line that tells a key. -/
def Key.ToldBy (key : Key) (line : List Char) : Prop :=
  ¬ Text.IsComment line ∧ ∃ name algorithm secret,
    Text.Spaced line (name :: (Option.toList algorithm ++ [secret])) ∧
      key.HasParts name algorithm secret

namespace Keyring

variable {key : Key} {keys : List Key} {r : Keyring} {line name secret text : List Char}

theorem readName_ok_iff {n : Name} : readName text = .ok n ↔
    ∃ m, Name.ofText (String.ofList text) = .ok m ∧ m.concat Name.root = .ok n := by
  unfold readName
  cases Name.ofText (String.ofList text) with
  | error e => exact iff_of_false nofun nofun
  | ok m =>
    simp only [Except.ok.injEq, exists_eq_left']
    cases m.concat Name.root with
    | error e => exact iff_of_false nofun nofun
    | ok n => simp only [Except.ok.injEq]

/-- The algorithm that a line tells, if it tells one. -/
def readAlgorithm? : Option (List Char) → Except KeyringFault Algorithm
  | some text => readAlgorithm text
  | none => .ok Algorithm.standard

theorem readAlgorithm?_ok_iff {a : Algorithm} {algorithm : Option (List Char)} :
    readAlgorithm? algorithm = .ok a ↔ a.ToldBy algorithm := by
  cases algorithm with
  | none => exact ⟨fun same => (Except.ok.inj same).symm, fun same => congrArg Except.ok same.symm⟩
  | some text =>
    show readAlgorithm text = .ok a ↔ Algorithm.ofText (String.ofList text) = .ok a
    unfold readAlgorithm
    cases Algorithm.ofText (String.ofList text) with
    | error e => exact iff_of_false nofun nofun
    | ok b => simp only [Except.ok.injEq]

def makeKey (name : Name) (algorithm : Algorithm) (secret : Octets) : Except KeyringFault Key :=
  match Key.ofParts name algorithm secret with
  | .ok key => .ok key
  | .error e => .error (.key e)

theorem readKey_eq (name : List Char) (algorithm : Option (List Char)) (secret : List Char) :
    readKey name algorithm secret
      = (readAlgorithm? algorithm >>= fun algorithm => readName name >>= fun name =>
        match Base64.decode? secret with
        | none => .error .base64
        | some secret => makeKey name algorithm secret) := by
  cases algorithm <;> cases decoded : Base64.decode? secret <;> simp only [readKey, decoded] <;> rfl

theorem makeKey_ok_iff {n : Name} {a : Algorithm} {octets : Octets} :
    makeKey n a octets = .ok key ↔ key.name = n ∧ key.algorithm = a ∧ key.secret = octets := by
  unfold makeKey
  constructor
  · intro made
    unfold Key.ofParts at made
    split at made
    · rename_i parts
      cases made
      split at parts
      · cases parts
        exact ⟨rfl, rfl, rfl⟩
      · cases parts
    · cases made
  · rintro ⟨rfl, rfl, rfl⟩
    rw [Key.ofParts, dif_pos key.absolute]

theorem readKey_ok_iff {algorithm : Option (List Char)} :
    readKey name algorithm secret = .ok key ↔ key.HasParts name algorithm secret := by
  rw [readKey_eq]
  constructor
  · intro h
    obtain ⟨a, told, h⟩ := bind_eq_ok h
    obtain ⟨n, named, h⟩ := bind_eq_ok h
    split at h
    · cases h
    · rename_i octets decoded
      obtain ⟨rfl, rfl, rfl⟩ := makeKey_ok_iff.mp h
      obtain ⟨m, read, joined⟩ := readName_ok_iff.mp named
      have labels := (Name.concat_root_ok_iff.mp joined).2
      exact ⟨⟨m, read, labels⟩, readAlgorithm?_ok_iff.mp told, decoded⟩
  · rintro ⟨⟨n, read, labels⟩, told, decoded⟩
    have named : readName name = .ok key.name :=
      readName_ok_iff.mpr ⟨n, read, Name.concat_root_ok_iff.mpr ⟨key.absolute, labels⟩⟩
    rw [readAlgorithm?_ok_iff.mpr told, named, decoded]
    exact makeKey_ok_iff.mpr ⟨rfl, rfl, rfl⟩

/-! ## Lines

The first word decides whether a line is a comment. A line of blanks has none. Any other line tells
a key by two words or by three, or it is refused (`readLine_cases`). -/

/-- The key that is told by the words behind a name. -/
def readParts (name : List Char) : List (List Char) → Except KeyringFault (Option Key)
  | [secret] => some <$> readKey name none secret
  | [algorithm, secret] => some <$> readKey name (some algorithm) secret
  | _ => .error .syntaxError

theorem map_some_ok_iff {result : Except KeyringFault Key} {found : Option Key} :
    some <$> result = .ok found ↔ ∃ key, found = some key ∧ result = .ok key := by
  cases result with
  | error e => exact iff_of_false nofun nofun
  | ok k =>
    constructor
    · rintro ⟨⟩
      exact ⟨k, rfl, rfl⟩
    · rintro ⟨_, rfl, ⟨⟩⟩
      rfl

theorem readParts_ok_iff {parts : List (List Char)} {found : Option Key} :
    readParts name parts = .ok found ↔ ∃ key algorithm secret, found = some key ∧
      parts = Option.toList algorithm ++ [secret] ∧ readKey name algorithm secret = .ok key := by
  unfold readParts
  constructor
  · intro h
    split at h
    · obtain ⟨key, rfl, read⟩ := map_some_ok_iff.mp h
      exact ⟨key, none, _, rfl, rfl, read⟩
    · obtain ⟨key, rfl, read⟩ := map_some_ok_iff.mp h
      exact ⟨key, some _, _, rfl, rfl, read⟩
    · cases h
  · rintro ⟨key, algorithm, secret, rfl, rfl, read⟩
    cases algorithm with
    | none => exact map_some_ok_iff.mpr ⟨key, rfl, read⟩
    | some text => exact map_some_ok_iff.mpr ⟨key, rfl, read⟩

theorem readLine_of_words {c : Char} {more : List Char} {parts : List (List Char)}
    (other : c ≠ '#') (words : Text.words line = (c :: more) :: parts) :
    readLine line = readParts (c :: more) parts := by
  -- One word behind the name is a secret, and two are an algorithm and a secret. None is too few,
  -- and three are too many.
  rcases parts with _ | ⟨a, _ | ⟨b, _ | ⟨d, parts⟩⟩⟩ <;> simp [readLine, readParts, words, other]

/-- A line is a comment, or its first word is taken for the name of a key. -/
theorem readLine_cases (line : List Char) :
    Text.IsComment line ∧ readLine line = .ok none ∨
    ¬ Text.IsComment line ∧ ∃ name parts, Text.Spaced line (name :: parts) ∧
      readLine line = readParts name parts := by
  obtain ⟨words, found⟩ : ∃ words, Text.words line = words := ⟨_, rfl⟩
  cases Text.words_eq_iff.mp found with
  | blanks blank => exact .inl ⟨Text.isComment_of_blanks blank, by rw [readLine, found]⟩
  | @word before word rest parts blank some plain apart others =>
    have spaced := Text.Spaced.word blank some plain apart others
    cases word with
    | nil => exact absurd rfl some
    | cons c more =>
      have first : Text.IsComment (before ++ (c :: more ++ rest)) ↔ c = '#' :=
        Text.isComment_iff_of_word blank (plain c List.mem_cons_self) (more ++ rest)
      by_cases sign : c = '#'
      · subst sign
        exact .inl ⟨first.mpr rfl, by rw [readLine, found]; rfl⟩
      · exact .inr ⟨mt first.mp sign, c :: more, parts, spaced, readLine_of_words sign found⟩

theorem readLine_ok_none_iff : readLine line = .ok none ↔ Text.IsComment line := by
  rcases readLine_cases line with ⟨comment, read⟩ | ⟨other, name, parts, -, read⟩
  · exact iff_of_true read comment
  · rw [read, readParts_ok_iff]
    exact iff_of_false nofun other

theorem readLine_ok_some_iff : readLine line = .ok (some key) ↔ key.ToldBy line := by
  rcases readLine_cases line with ⟨comment, read⟩ | ⟨other, name, parts, spaced, read⟩
  · rw [read]
    exact iff_of_false nofun fun told => told.1 comment
  · rw [read, readParts_ok_iff]
    constructor
    · rintro ⟨_, algorithm, secret, ⟨⟩, rfl, told⟩
      exact ⟨other, name, algorithm, secret, spaced, readKey_ok_iff.mp told⟩
    · rintro ⟨-, name', algorithm, secret, spaced', told⟩
      obtain ⟨rfl, rfl⟩ := List.cons.inj (spaced.words_eq.symm.trans spaced'.words_eq)
      exact ⟨key, algorithm, secret, rfl, rfl, readKey_ok_iff.mpr told⟩

end Keyring

/-- The keys that lines tell one after the other, if there are none but such and comments. -/
inductive TellKeys : (lines : List (List Char)) → (keys : List Key) → Prop
  | nil : TellKeys [] []
  | comment {line : List Char} {lines : List (List Char)} {keys : List Key}
      (comment : Text.IsComment line) (others : TellKeys lines keys) : TellKeys (line :: lines) keys
  | key {line : List Char} {lines : List (List Char)} {key : Key} {keys : List Key}
      (told : key.ToldBy line) (others : TellKeys lines keys) :
      TellKeys (line :: lines) (key :: keys)

/-- Lines tell no other keys than those that they tell. -/
theorem TellKeys.unique {lines : List (List Char)} {keys others : List Key}
    (told : TellKeys lines keys) (told' : TellKeys lines others) : keys = others := by
  induction told generalizing others with
  | nil =>
    cases told'
    rfl
  | comment comment _ ih =>
    cases told' with
    | comment _ rest => exact ih rest
    | key told _ => exact absurd comment told.1
  | key told _ ih =>
    cases told' with
    | comment comment _ => exact absurd comment told.1
    | key told' rest =>
      have same := (Keyring.readLine_ok_some_iff.mpr told).symm.trans
        (Keyring.readLine_ok_some_iff.mpr told')
      rw [Option.some.inj (Except.ok.inj same), ih rest]

namespace Keyring

theorem readLines_ok_iff {r found : Keyring} {number : Nat} {lines : List (List Char)} :
    readLines r number lines = .ok found ↔ ∃ keys, TellKeys lines keys ∧ found = r.extend keys := by
  induction lines generalizing r number with
  | nil =>
    constructor
    · rintro ⟨⟩
      exact ⟨[], .nil, rfl⟩
    · rintro ⟨_, ⟨⟩, rfl⟩
      rfl
  | cons line lines ih =>
    rw [readLines]
    constructor
    · intro h
      split at h
      · cases h
      · rename_i read
        obtain ⟨keys, others, rfl⟩ := ih.mp h
        exact ⟨keys, .comment (readLine_ok_none_iff.mp read) others, rfl⟩
      · rename_i key read
        obtain ⟨keys, others, rfl⟩ := ih.mp h
        exact ⟨key :: keys, .key (readLine_ok_some_iff.mp read) others, rfl⟩
    · -- A line that is a comment tells no key and the other way round, so each case decides what
      -- reading does.
      rintro ⟨keys, told, rfl⟩
      cases told with
      | comment comment others =>
        rw [readLine_ok_none_iff.mpr comment]
        exact ih.mpr ⟨keys, others, rfl⟩
      | key told others =>
        rw [readLine_ok_some_iff.mpr told]
        exact ih.mpr ⟨_, others, rfl⟩

/-- A text is read exactly if every line of it is a comment or tells a key, and what is read are the
keys of the lines, inserted one after the other. -/
theorem ofText_ok_iff {text : String} {r : Keyring} : ofText text = .ok r ↔
    ∃ keys, TellKeys (text.toList.splitOn '\n') keys ∧ r = ofList keys := by
  rw [ofText, readLines_ok_iff, Text.lines_eq_splitOn]
  rfl

end Keyring

end Dns
