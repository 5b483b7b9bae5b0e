import Dns.Proofs.KeyLines

/-!
# The latest keys

A keyring stands for all keys that were ever inserted into it. Under every name it has the latest of
them (`Keyring.latest?`), and its keys are in the order in which the first ones came
(`Keyring.place`), whatever the letter case of the names. `Keyring.Follows` says this of a keyring
and the keys that were inserted. It is kept by every insertion (`Keyring.Follows.insert`), and so it
is known of every keyring that there is (`Keyring.Made.follows`).

That no two keys have the same name follows from their order, since a name has one place.

The two halves of `Follows` need each other. A key that is inserted for the second time stands where
the first one stood, and this is its place only if what was displaced had been inserted at all. One
that is new stands behind all others, and this is in order only if every key of the keyring has a
place before the end.

Where keys come from does not matter: single insertions, lists and texts all come down to inserting
one after the other. A text is in this no more than the list of keys that its lines tell
(`TellKeys`), and a keyring that was collected or read is a new one, with a history that begins
there.
-/

set_option autoImplicit false

namespace Dns.Keyring

variable {key : Key} {keys inserted : List Key} {r : Keyring} {name : Name}

/-! ## Single keys

One insertion is one walk over the keys that are there, up to the first with the name. The three
lemmas follow this walk, and nothing else looks into it. A key that is found there is displaced at
its place, and otherwise the new key stands at the end. -/

/-- What comes of a list of keys, and which key is taken out of it, when another one is inserted. -/
inductive Displaces (key : Key) : List Key → Option Key → List Key → Prop
  | nothing {keys : List Key} (new : ∀ k ∈ keys, (k.name == key.name) = false) :
      Displaces key keys none (keys ++ [key])
  | old {before behind : List Key} {old : Key} (new : ∀ k ∈ before, (k.name == key.name) = false)
      (same : (old.name == key.name) = true) :
      Displaces key (before ++ old :: behind) (some old) (before ++ key :: behind)

theorem displaces_insertInto (key : Key) (keys : List Key) :
    Displaces key keys (insertInto key keys).1 (insertInto key keys).2 := by
  induction keys with
  | nil => exact .nothing (List.forall_mem_nil _)
  | cons k rest ih =>
    rw [insertInto]
    split
    · rename_i same
      have none : ∀ l ∈ ([] : List Key), (l.name == key.name) = false := List.forall_mem_nil _
      exact .old none same
    · rename_i differs
      have other : (k.name == key.name) = false := Bool.eq_false_iff.mpr differs
      generalize insertInto key rest = result at ih
      obtain ⟨replaced, keys⟩ := result
      cases ih with
      | nothing new => exact .nothing (List.forall_mem_cons.mpr ⟨other, new⟩)
      | @old before behind old new same =>
        have longer : ∀ l ∈ k :: before, (l.name == key.name) = false :=
          List.forall_mem_cons.mpr ⟨other, new⟩
        exact .old longer same

/-- The key that is taken out is the one that would have been found. -/
theorem fst_insertInto (key : Key) (keys : List Key) :
    (insertInto key keys).1 = keys.find? fun k => k.name == key.name := by
  induction keys with
  | nil => rfl
  | cons k rest ih =>
    rw [insertInto, List.find?_cons]
    split
    · rename_i same
      rw [same]
    · rename_i differs
      rw [Bool.eq_false_iff.mpr differs]
      exact ih

/-- What is found afterwards under the name of the new key is that key. -/
theorem find?_insertInto (key : Key) (keys : List Key) (name : Name) :
    (insertInto key keys).2.find? (fun k => k.name == name)
      = if key.name == name then some key else keys.find? fun k => k.name == name := by
  induction keys with
  | nil =>
    rw [insertInto, List.find?_cons, List.find?_nil]
    cases key.name == name <;> rfl
  | cons k rest ih =>
    rw [insertInto]
    split
    · rename_i same
      rw [List.find?_cons, List.find?_cons, BEq.congr_left same]
      cases key.name == name <;> rfl
    · rename_i differs
      simp only [List.find?_cons, ih]
      cases found : k.name == name with
      | false => rfl
      | true =>
        -- The key that stays is found, and the new one has another name.
        have other : (key.name == name) = false := by
          refine Bool.eq_false_iff.mpr fun same => differs ?_
          exact BEq.trans found (BEq.symm same)
        rw [other]
        rfl

/-! ## Histories

The latest key and the first place are functions of all keys that were inserted. Each is determined
after one more insertion by what it was before. So what is said of keyrings is an induction on the
history from its end, and no keyring need be looked at but the one before. -/

/-- The latest of the inserted keys with a name. -/
def latest? (inserted : List Key) (name : Name) : Option Key :=
  (inserted.filter fun k => k.name == name).getLast?

/-- When the first key with a name was inserted; after all others if there is none. -/
def place (inserted : List Key) (name : Name) : Nat :=
  inserted.findIdx fun k => k.name == name

theorem latest?_concat (inserted : List Key) (key : Key) (name : Name) :
    latest? (inserted ++ [key]) name
      = if key.name == name then some key else latest? inserted name := by
  rw [latest?, List.filter_append, List.getLast?_append, List.filter_singleton]
  cases key.name == name <;> rfl

theorem place_congr {a b : Name} (same : (a == b) = true) (inserted : List Key) :
    place inserted a = place inserted b := by
  refine congrArg (inserted.findIdx ·) (funext fun k => ?_)
  exact BEq.congr_right same

theorem place_le (inserted : List Key) (name : Name) : place inserted name ≤ inserted.length :=
  List.findIdx_le_length

theorem latest?_eq_none_iff :
    latest? inserted name = none ↔ place inserted name = inserted.length := by
  rw [latest?, List.getLast?_eq_none_iff, List.filter_eq_nil_iff, place, List.findIdx_eq_length]
  simp only [Bool.not_eq_true]

/-- The place of a name stays once there is one. -/
theorem place_concat_of_lt (known : place inserted name < inserted.length) (key : Key) :
    place (inserted ++ [key]) name = place inserted name := by
  rw [place, List.findIdx_append]
  exact if_pos known

theorem place_concat_self (new : place inserted key.name = inserted.length) :
    place (inserted ++ [key]) key.name = inserted.length := by
  have first : [key].findIdx (fun k => k.name == key.name) = 0 := by
    rw [List.findIdx_cons, BEq.rfl]
    rfl
  rw [place, List.findIdx_append, first, Nat.zero_add]
  exact if_neg (Nat.not_lt.mpr (Nat.le_of_eq new.symm))

/-- When one key displaces another, neither the places of the names change nor their order. -/
theorem Displaces.in_order {found : Option Key} {after : List Key}
    (h : Displaces key keys found after) (replaced : found = latest? inserted key.name)
    (known : ∀ k ∈ keys, place inserted k.name < inserted.length)
    (ordered : (keys.map fun k => place inserted k.name).Pairwise (· < ·)) :
    (after.map fun k => place (inserted ++ [key]) k.name).Pairwise (· < ·) := by
  have kept : ∀ k ∈ keys, place (inserted ++ [key]) k.name = place inserted k.name :=
    fun k mem => place_concat_of_lt (known k mem) key
  cases h with
  | nothing =>
    have last := place_concat_self (latest?_eq_none_iff.mp replaced.symm)
    rw [List.map_append, List.map_congr_left kept, List.map_singleton, last]
    refine List.pairwise_append.mpr ⟨ordered, List.pairwise_singleton _ _, ?_⟩
    intro a mem b single
    obtain ⟨k, there, rfl⟩ := List.mem_map.mp mem
    rw [List.mem_singleton.mp single]
    exact known k there
  | @old before behind old new same =>
    -- The new key stands where the old one stood, and their names have one place.
    obtain ⟨before', others⟩ := List.forall_mem_append.mp kept
    obtain ⟨middle, behind'⟩ := List.forall_mem_cons.mp others
    rw [place_congr same] at middle
    rw [List.map_append, List.map_cons] at ordered ⊢
    rwa [List.map_congr_left before', middle, List.map_congr_left behind']

/-- A keyring that has the latest keys in the order of the first ones. -/
structure Follows (inserted : List Key) (r : Keyring) : Prop where
  get_eq (name : Name) : r.get? name = latest? inserted name
  in_order : r.keys.Pairwise fun a b => place inserted a.name < place inserted b.name

namespace Follows

theorem empty : Follows [] Keyring.empty := ⟨fun _ => rfl, List.Pairwise.nil⟩

theorem place_lt (h : Follows inserted r) {k : Key} (mem : k ∈ r.keys) :
    place inserted k.name < inserted.length := by
  refine Nat.lt_of_le_of_ne (place_le _ _) fun none => ?_
  have missing := (h.get_eq k.name).trans (latest?_eq_none_iff.mpr none)
  exact absurd BEq.rfl (List.find?_eq_none.mp missing k mem)

theorem insert (h : Follows inserted r) (key : Key) :
    Follows (inserted ++ [key]) (r.insert key).2 where
  get_eq name := by
    rw [latest?_concat, ← h.get_eq]
    exact find?_insertInto key r.keys name
  in_order :=
    List.pairwise_map.mp <| (displaces_insertInto key r.keys).in_order
      ((fst_insertInto key r.keys).trans (h.get_eq key.name)) (fun _ => h.place_lt)
      (List.pairwise_map.mpr h.in_order)

theorem extend (h : Follows inserted r) (keys : List Key) :
    Follows (inserted ++ keys) (r.extend keys) := by
  induction keys generalizing inserted r with
  | nil => rwa [List.append_nil]
  | cons key rest ih =>
    rw [List.append_cons]
    exact ih (h.insert key)

theorem ofList (keys : List Key) : Follows keys (Keyring.ofList keys) := empty.extend keys

theorem distinct (h : Follows inserted r) : Distinct r.keys := by
  refine h.in_order.imp fun {a b} earlier => Bool.eq_false_iff.mpr fun same => ?_
  rw [place_congr same] at earlier
  exact Nat.lt_irrefl _ earlier

/-- The key that is found without a name is the latest one with the name that was inserted first. -/
theorem getKey_none_eq (h : Follows inserted r) :
    r.getKey? none = inserted.head?.bind fun first => latest? inserted first.name := by
  show r.keys.head? = _
  cases inserted with
  | nil =>
    rw [List.head?_nil, Option.bind_none, List.head?_eq_none_iff]
    exact List.eq_nil_iff_forall_not_mem.mpr fun k mem => Nat.not_lt_zero _ (h.place_lt mem)
  | cons first rest =>
    have zero : place (first :: rest) first.name = 0 := by
      rw [place, List.findIdx_cons, BEq.rfl]
      rfl
    rw [List.head?_cons, Option.bind_some, ← h.get_eq]
    cases found : r.get? first.name with
    | none =>
      rw [h.get_eq, latest?_eq_none_iff, zero] at found
      cases found
    | some k =>
      obtain ⟨same, before, behind, parts, -⟩ := List.find?_eq_some_iff_append.mp found
      rw [← place_congr same] at zero
      -- Nothing stands before the place of the name that was first.
      have ordered := h.in_order
      rw [parts] at ordered ⊢
      cases before with
      | nil => rfl
      | cons earlier others =>
        have less := (List.pairwise_append.mp ordered).2.2 earlier List.mem_cons_self k
          List.mem_cons_self
        rw [zero] at less
        exact absurd less (Nat.not_lt_zero _)

end Follows

/-! ## Keyrings that there are -/

/-- A keyring that was made by inserting keys in this order. They are counted from the last time
that it was new, or collected from keys, or read from a text. -/
inductive Made : (inserted : List Key) → (r : Keyring) → Prop
  | new : Made [] empty
  | insert {inserted : List Key} {r : Keyring} (before : Made inserted r) (key : Key) :
      Made (inserted ++ [key]) (r.insert key).2
  | extend {inserted : List Key} {r : Keyring} (before : Made inserted r) (keys : List Key) :
      Made (inserted ++ keys) (r.extend keys)
  | collect (keys : List Key) : Made keys (ofList keys)
  | read {text : String} {keys : List Key} {r : Keyring}
      (told : TellKeys (text.toList.splitOn '\n') keys) (read : ofText text = .ok r) : Made keys r

/-- What was inserted, in whatever calls, is in the keyring. -/
theorem Made.follows (h : Made inserted r) : Follows inserted r := by
  induction h with
  | new => exact .empty
  | insert _ key ih => exact ih.insert key
  | extend _ keys ih => exact ih.extend keys
  | collect keys => exact .ofList keys
  | read told read =>
    obtain ⟨keys, told', rfl⟩ := ofText_ok_iff.mp read
    rw [told.unique told']
    exact .ofList keys

/-- What is known of a keyring and of the keys that were inserted. -/
structure KeepsLatest (inserted : List Key) (r : Keyring) : Prop where
  distinct : Distinct r.keys
  in_order : r.keys.Pairwise fun a b => place inserted a.name < place inserted b.name
  get_eq (name : Name) : r.get? name = latest? inserted name
  getKey_none_eq : r.getKey? none = inserted.head?.bind fun first => latest? inserted first.name
  displaces (key : Key) : Displaces key r.keys (r.insert key).1 (r.insert key).2.keys
  displaced_eq (key : Key) : (r.insert key).1 = latest? inserted key.name

theorem Follows.keepsLatest (h : Follows inserted r) : KeepsLatest inserted r where
  distinct := h.distinct
  in_order := h.in_order
  get_eq := h.get_eq
  getKey_none_eq := h.getKey_none_eq
  displaces key := displaces_insertInto key r.keys
  displaced_eq key := (fst_insertInto key r.keys).trans (h.get_eq key.name)

/-- However a keyring was made, under every name that was ever inserted it has one key, the latest,
and the keys stand in the order in which their names came first. An insertion answers the key that
it displaces. What is read from a text are the keys that its lines tell, inserted in their order. -/
theorem latest_kept :
    (∀ (inserted : List Key) (r : Keyring), Made inserted r → KeepsLatest inserted r) ∧
    ∀ (text : String) (r : Keyring), ofText text = .ok r ↔
      ∃ keys, TellKeys (text.toList.splitOn '\n') keys ∧ r = ofList keys :=
  ⟨fun _ _ made => made.follows.keepsLatest, fun _ _ => ofText_ok_iff⟩

/-- A key is displaced by one with its name in capitals, which stands in its place. -/
theorem latest_kept_caseless :
    let small : Key := ⟨⟨[⟨[97], by decide, by decide⟩], true, by decide⟩, .sha1, [1], rfl⟩
    let other : Key := ⟨⟨[⟨[98], by decide, by decide⟩], true, by decide⟩, .sha1, [2], rfl⟩
    let capital : Key := ⟨⟨[⟨[65], by decide, by decide⟩], true, by decide⟩, .sha256, [3], rfl⟩
    let r := ofList [small, other]
    KeepsLatest [small, other, capital] (r.insert capital).2 ∧
      r.insert capital = (some small, ⟨[capital, other]⟩) := by
  intro small other capital r
  exact ⟨latest_kept.1 _ _ (.insert (.collect [small, other]) capital), rfl⟩

end Dns.Keyring
