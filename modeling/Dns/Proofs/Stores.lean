import Dns.Name.Basic
import Dns.Proofs.Members
import Mathlib.Data.List.Infix

/-!
# Ordered sets as they are stored

An ordered set is built so that its array and its index cannot disagree. A `Store` is the two of
them without that promise: every call changes the one and the other in an order of its own, and for
a moment between they do disagree. Nothing that it does is total by assumption either. To take an
item out of an array there must be one at the place, a range must begin before it ends and end
within the array, and a number can only be brought between bounds that are in order; what is not so
is `none`. Places are numbers of a machine, with a `largest`, and one more than that is that again.

`Store.Holds` says which items a store holds. A call that is made of a store which holds the members
of a set is never `none`; it answers what the set answers, and leaves a store that holds what the
set holds then (`perform?_holds`). That is a simulation, and runs are by induction on the calls
(`run?_holds`). It needs that no set on the way has more members than there are places, since an
end at the largest place is then an end behind all members.

What a test says of a member may depend on what it was asked before. No two members are equal, so it
is a function of the member all the same.

`SetCall.Kept` puts together what is known of a set after calls, and `SetCall.kept_after_calls` says
that this is known of every set, whatever the calls.
-/

set_option autoImplicit false

namespace Dns

/-! ## Arrays in parts

Parts of an array are told by what they are as lists. Each of the operations has a condition, and
with it there is a result. It is by these conditions that a call could be stopped, and they are
shown at each call from the bounds that the call computes. -/

section Arrays

variable {α : Type}

/-- The item at a place of an array, and the others. -/
def takeOut? (items : Array α) (place : Nat) : Option (α × Array α) :=
  if inside : place < items.size then some (items[place], items.eraseIdx place) else none

/-- The items at a range of places of an array, and the others. -/
def drain? (items : Array α) (start stop : Nat) : Option (List α × Array α) :=
  if start ≤ stop ∧ stop ≤ items.size then
    some ((items.extract start stop).toList,
      items.extract 0 start ++ items.extract stop items.size)
  else none

/-- A number brought between two bounds. -/
def clamp? (n low high : Nat) : Option Nat :=
  if low ≤ high then some (max low (min n high)) else none

theorem takeOut?_eq {items : Array α} {place : Nat} {a : α}
    (here : items.toList[place]? = some a) :
    ∃ others, takeOut? items place = some (a, others) ∧
      others.toList = items.toList.eraseIdx place := by
  obtain ⟨inside, rfl⟩ := List.getElem?_eq_some_iff.mp here
  rw [Array.length_toList] at inside
  refine ⟨items.eraseIdx place, ?_, Array.toList_eraseIdx⟩
  unfold takeOut?
  rw [dif_pos inside, Array.getElem_toList]

theorem drain?_eq {items : Array α} {start stop : Nat} (ordered : start ≤ stop)
    (inside : stop ≤ items.size) :
    ∃ others, drain? items start stop = some ((items.toList.take stop).drop start, others) ∧
      others.toList = items.toList.take start ++ items.toList.drop stop := by
  refine ⟨items.extract 0 start ++ items.extract stop items.size, ?_, ?_⟩
  · unfold drain?
    rw [if_pos ⟨ordered, inside⟩, Array.toList_extract, List.extract_eq_take_drop, List.drop_take]
  · have rest : (items.toList.drop stop).length ≤ items.size - stop := by
      rw [List.length_drop, Array.length_toList]
    rw [Array.toList_append, Array.toList_extract, Array.toList_extract,
      List.extract_eq_take_drop, List.extract_eq_take_drop, Nat.sub_zero, List.drop_zero,
      List.take_of_length_le rest]

/-- If something in an array passes a test, there is a first place where something does. -/
theorem findIdx?_of_any {items : Array α} {test : α → Bool}
    (there : items.toList.any test = true) :
    ∃ place x, items.findIdx? test = some place ∧ items.toList[place]? = some x ∧
      test x = true := by
  obtain ⟨items⟩ := items
  rw [List.findIdx?_toArray]
  rw [← List.findIdx?_isSome] at there
  obtain ⟨place, found⟩ := Option.isSome_iff_exists.mp there
  obtain ⟨inside, passes, -⟩ := List.findIdx?_eq_some_iff_getElem.mp found
  exact ⟨place, items[place], found, List.getElem?_eq_getElem inside, passes⟩

end Arrays

namespace Bound

/-- The place at which a range begins, as the machine counts. -/
def begins (largest : Nat) : Bound → Nat
  | included place => place
  | excluded place => min (place + 1) largest
  | unbounded => 0

/-- The place behind a range, as the machine counts. -/
def ends (largest size : Nat) : Bound → Nat
  | included place => min (place + 1) largest
  | excluded place => place
  | unbounded => size

theorem begins_clamped (lo : Bound) {largest size : Nat} (fits : size ≤ largest) :
    min (lo.begins largest) size = min lo.first size := by
  cases lo with
  | included place => rfl
  | excluded place =>
    show min (min (place + 1) largest) size = min (place + 1) size
    rw [Nat.min_assoc, Nat.min_eq_right fits]
  | unbounded => rfl

theorem ends_clamped (hi : Bound) {largest size : Nat} (fits : size ≤ largest) :
    min (hi.ends largest size) size = min (hi.behind size) size := by
  cases hi with
  | included place =>
    show min (min (place + 1) largest) size = min (place + 1) size
    rw [Nat.min_assoc, Nat.min_eq_right fits]
  | excluded place => rfl
  | unbounded => rfl

end Bound

/-! ## Stores

The calls are carried out as they are on the array and the index, in the order in which the two are
changed. No promise is made about the two by the type. -/

/-- An array of items and an index beside it. -/
structure Store (α : Type) [BEq α] [Hashable α] where
  items : Array α
  index : Std.HashSet α

namespace Store

variable {α : Type} [BEq α] [Hashable α]

/-- The store holds these items, and its index holds the same. -/
structure Holds (store : Store α) (items : List α) : Prop where
  items_eq : store.items.toList = items
  index_eq : ∀ a, store.index.contains a = items.any (· == a)

def empty : Store α := ⟨#[], ∅⟩

/-- Adds an item; says whether it was new. -/
def add (store : Store α) (a : α) : Bool × Store α :=
  if store.index.contains a then (false, store)
  else (true, { index := store.index.insert a, items := store.items.push a })

/-- Takes an item out of the index, and what is equal to it out of the array. -/
def discard? (store : Store α) (a : α) : Option (Bool × Store α) :=
  if store.index.contains a then
    let index := store.index.erase a
    match store.items.findIdx? (· == a) with
    | some place => do
      let (_, items) ← takeOut? store.items place
      some (true, { items, index })
    | none => some (true, { store with index })
  else some (false, store)

def pop (store : Store α) : Option α × Store α :=
  match store.items.back? with
  | some a => (some a, { items := store.items.pop, index := store.index.erase a })
  | none => (none, store)

def removeAt? (store : Store α) (place : Nat) : Option (Option α × Store α) :=
  if store.items.size ≤ place then some (none, store)
  else do
    let (a, items) ← takeOut? store.items place
    some (some a, { items, index := store.index.erase a })

def removeRange? (largest : Nat) (store : Store α) (lo hi : Bound) :
    Option (List α × Store α) := do
  let start := min (lo.begins largest) store.items.size
  let stop ← clamp? (hi.ends largest store.items.size) start store.items.size
  let (removed, items) ← drain? store.items start stop
  some (removed, { items, index := removed.foldl (fun i a => i.erase a) store.index })

/-- An item that passes a test is kept, another one goes out of the index at once. -/
def sift (test : α → Bool) (kept : Store α) (a : α) : Store α :=
  if test a then { kept with items := kept.items.push a }
  else { kept with index := kept.index.erase a }

/-- The array is made anew from the items that are kept. -/
def retain (store : Store α) (test : α → Bool) : Store α :=
  store.items.toList.foldl (sift test) { store with items := #[] }

/-- What a call answers, and the store afterwards. -/
def perform? (largest : Nat) (store : Store α) : SetCall α → Option (SetAnswer α × Store α)
  | .add a => some (.whether (store.add a).1, (store.add a).2)
  | .extend items => some (.nothing, items.foldl (fun store a => (store.add a).2) store)
  | .remove a => do
    let (there, store) ← store.discard? a
    some (.tried (if there then .ok () else .error .notFound), store)
  | .discard a => do
    let (there, store) ← store.discard? a
    some (.whether there, store)
  | .pop => some (.item store.pop.1, store.pop.2)
  | .removeAt place => do
    let (found, store) ← store.removeAt? place
    some (.item found, store)
  | .removeRange lo hi => do
    let (removed, store) ← removeRange? largest store lo hi
    some (.items removed, store)
  | .retain test => some (.nothing, store.retain test)
  | .clear => some (.nothing, empty)

/-- Calls that are made one after the other. -/
def run? (largest : Nat) : List (SetCall α) → Store α → Option (List (SetAnswer α) × Store α)
  | [], store => some ([], store)
  | c :: rest, store => do
    let (answer, store) ← store.perform? largest c
    let (answers, store) ← run? largest rest store
    some (answer :: answers, store)

/-- Whether the indexes of two stores hold the same. The arrays are not looked at. -/
def same (one other : Store α) : Bool :=
  one.index.size == other.index.size && one.index.toList.all other.index.contains

/-! ## Items and indexes -/

/-- A set is in a store that is made of its own parts. -/
theorem holds_of_set (s : OrderedSet α) : Holds ⟨s.items, s.index⟩ s.toList :=
  ⟨rfl, s.indexed⟩

theorem contains_eq {store : Store α} {s : OrderedSet α} (holds : store.Holds s.toList) (a : α) :
    store.index.contains a = s.contains a :=
  (holds.index_eq a).trans (s.contains_eq_any a).symm

theorem empty_holds : (empty : Store α).Holds [] := by
  refine ⟨rfl, ?_⟩
  intro a
  exact Std.HashSet.contains_empty

variable [EquivBEq α]

omit [Hashable α] in
theorem any_filter_equal {items : List α} {x a : α} (mem : x ∈ items) (equal : (x == a) = true)
    (b : α) : (items.filter (· == a)).any (· == b) = (a == b) := by
  rw [Bool.eq_iff_iff, List.any_eq_true]
  constructor
  · rintro ⟨y, there, same⟩
    exact BEq.trans (BEq.symm (List.mem_filter.mp there).2) same
  · intro same
    exact ⟨x, List.mem_filter.mpr ⟨mem, equal⟩, BEq.trans equal same⟩

omit [Hashable α] in
/-- Of distinct items, all are left but those that are equal to the one at the place. -/
theorem eraseIdx_eq_filter {items : List α}
    (distinct : items.Pairwise fun a b => (a == b) = false) {place : Nat} {x a : α}
    (here : items[place]? = some x) (equal : (x == a) = true) :
    items.eraseIdx place = items.filter fun y => !(y == a) := by
  have all := OrderedSet.take_drop_perm items place (place + 1) (Nat.le_succ place)
  rw [drop_take_succ here, ← List.eraseIdx_eq_take_drop_succ] at all
  have same : (fun y => !([x].any (· == y))) = fun y => !(y == a) := by
    funext y
    rw [List.any_cons, List.any_nil, Bool.or_false, BEq.congr_left equal, BEq.comm]
  rw [eq_filter_of_perm distinct all (List.eraseIdx_sublist _ _), same]

/-! ## What a call does to a store

All calls that take items away go through `holds_of_cuts`: the array is the list that is left, and
out of the index went what was lost. How they were found is a matter of each call. Items that are
put in go to the end of the array and into the index, and only if they were in neither. -/

omit [EquivBEq α] in
theorem discard?_of_absent {store : Store α} {s : OrderedSet α} (holds : store.Holds s.toList)
    {a : α} (absent : s.contains a = false) : store.discard? a = some (false, store) := by
  unfold discard?
  rw [contains_eq holds, absent]
  rfl

variable [LawfulHashable α]

/-- If what is lost goes out of the index, the index holds the others. -/
theorem holds_of_cuts {c : SetCall α} {s : OrderedSet α} (cuts : c.Cuts s) {store next : Store α}
    (holds : store.Holds s.toList) (items : next.items.toList = (c.perform s).2.toList)
    (index : ∀ a, next.index.contains a
      = (store.index.contains a && !(c.lost s).any (· == a))) :
    next.Holds (c.perform s).2.toList := by
  refine ⟨items, ?_⟩
  intro a
  have members := (c.perform_toList s).2
  rw [cuts.1, List.append_nil] at members
  rw [index a, holds.index_eq a, members, any_filter_not_any]

theorem contains_erase_one (index : Std.HashSet α) (x a : α) :
    (index.erase x).contains a = (index.contains a && !([x].any (· == a))) := by
  rw [Std.HashSet.contains_erase, List.any_cons, List.any_nil, Bool.or_false, Bool.and_comm]

theorem add_holds {store : Store α} {s : OrderedSet α} (holds : store.Holds s.toList) (a : α) :
    (store.add a).1 = !s.contains a ∧ (store.add a).2.Holds (s.add a).toList := by
  unfold add
  rw [contains_eq holds]
  by_cases there : s.contains a = true
  · rw [if_pos there, OrderedSet.add_of_contains there, there]
    exact ⟨rfl, holds⟩
  · rw [if_neg there, OrderedSet.toList_add, if_neg there]
    rw [Bool.not_eq_true] at there
    rw [there]
    refine ⟨rfl, ?_, ?_⟩
    · show (store.items.push a).toList = s.toList ++ [a]
      rw [Array.toList_push, holds.items_eq]
    · intro b
      show (store.index.insert a).contains b = (s.toList ++ [a]).any (· == b)
      rw [Std.HashSet.contains_insert, holds.index_eq, List.any_append, List.any_cons, List.any_nil,
        Bool.or_false, Bool.or_comm]

theorem extend_holds (items : List α) {store : Store α} {s : OrderedSet α}
    (holds : store.Holds s.toList) :
    (items.foldl (fun store a => (store.add a).2) store).Holds (s.extend items).toList := by
  induction items generalizing store s with
  | nil => exact holds
  | cons a rest ih => exact ih (add_holds holds a).2

/-- The index is changed first. What it held is what shows that there is something in the array. -/
theorem discard?_of_present {store : Store α} {s : OrderedSet α} (holds : store.Holds s.toList)
    {a : α} (present : s.contains a = true) :
    ∃ next, store.discard? a = some (true, next) ∧
      next.Holds ((SetCall.discard a).perform s).2.toList := by
  have there : store.items.toList.any (· == a) = true := by
    rw [holds.items_eq, ← s.contains_eq_any, present]
  -- What is found first in the array need not be the item itself, but it is equal to it, and there
  -- is no other.
  obtain ⟨place, x, first, here, equal⟩ := findIdx?_of_any there
  obtain ⟨others, taken, rest⟩ := takeOut?_eq here
  rw [holds.items_eq] at here rest
  refine ⟨{ items := others, index := store.index.erase a }, ?_, ?_⟩
  · unfold discard?
    rw [contains_eq holds, if_pos present, first]
    simp only [taken]
    rfl
  · apply holds_of_cuts (SetCall.discard_cuts a s) holds
    · show others.toList = (s.discard a).2.toList
      rw [rest, OrderedSet.toList_discard]
      exact eraseIdx_eq_filter s.distinct here equal
    · intro b
      show (store.index.erase a).contains b
        = (store.index.contains b && !(s.toList.filter (· == a)).any (· == b))
      rw [Std.HashSet.contains_erase, any_filter_equal (List.mem_of_getElem? here) equal,
        Bool.and_comm]

theorem pop_holds {store : Store α} {s : OrderedSet α} (holds : store.Holds s.toList) :
    SetAnswer.item store.pop.1 = (SetCall.pop.perform s).1 ∧
      store.pop.2.Holds (SetCall.pop.perform s).2.toList := by
  obtain ⟨answer, members⟩ := SetCall.pop_agrees s
  have last : store.items.back? = s.toList.getLast? := by
    rw [← Array.getLast?_toList, holds.items_eq]
  unfold pop
  rw [answer, SetCall.onList, last]
  cases found : s.toList.getLast? with
  | none =>
    have nothing := List.getLast?_eq_none_iff.mp found
    rw [members, SetCall.onList, nothing]
    rw [nothing] at holds
    exact ⟨rfl, holds⟩
  | some a =>
    refine ⟨rfl, holds_of_cuts (SetCall.pop_cuts s) holds ?_ ?_⟩
    · rw [members]
      show store.items.pop.toList = s.toList.dropLast
      rw [Array.toList_pop, holds.items_eq]
    · have lost : SetCall.pop.lost s = [a] := by
        rw [SetCall.lost, answer, SetCall.onList, found]
        rfl
      intro b
      rw [lost]
      exact contains_erase_one store.index a b

theorem removeAt?_holds {store : Store α} {s : OrderedSet α} (holds : store.Holds s.toList)
    (place : Nat) : ∃ next, store.removeAt? place = some ((s.removeAt place).1, next) ∧
      next.Holds ((SetCall.removeAt place).perform s).2.toList := by
  have size : store.items.size = s.toList.length := by
    rw [← holds.items_eq, Array.length_toList]
  unfold removeAt?
  rw [size]
  -- A place behind the last member is not one of the store either, as they have the same length.
  cases here : s.toList[place]? with
  | none =>
    rw [if_pos (List.getElem?_eq_none_iff.mp here), OrderedSet.removeAt_of_none here]
    rw [SetCall.perform, OrderedSet.removeAt_of_none here]
    exact ⟨store, rfl, holds⟩
  | some a =>
    have before := (List.getElem?_eq_some_iff.mp here).1
    rw [if_neg (Nat.not_le.mpr before), OrderedSet.removeAt_of_get here]
    have here' : store.items.toList[place]? = some a := by
      rw [holds.items_eq]
      exact here
    obtain ⟨others, taken, rest⟩ := takeOut?_eq here'
    refine ⟨{ items := others, index := store.index.erase a }, ?_, ?_⟩
    · rw [taken]
      rfl
    · apply holds_of_cuts (SetCall.removeAt_cuts place s) holds
      · rw [(SetCall.removeAt_agrees place s).2]
        show others.toList = s.toList.eraseIdx place
        rw [rest, holds.items_eq]
      · intro b
        rw [SetCall.lost, SetCall.perform, OrderedSet.removeAt_of_get here]
        exact contains_erase_one store.index a b

theorem removeRange?_holds {largest : Nat} {store : Store α} {s : OrderedSet α}
    (holds : store.Holds s.toList) (fits : s.size ≤ largest) (lo hi : Bound) :
    ∃ next, store.removeRange? largest lo hi = some ((s.removeRange lo hi).1, next) ∧
      next.Holds ((SetCall.removeRange lo hi).perform s).2.toList := by
  have size : store.items.size = s.size := by
    rw [← Array.length_toList, holds.items_eq, OrderedSet.length_toList]
  have start := Bound.begins_clamped lo fits
  have stop := Bound.ends_clamped hi fits
  -- The bounds for the end are in order, since the start was brought below the size.
  have clamped : clamp? (hi.ends largest s.size) (min lo.first s.size) s.size
      = some (max (min lo.first s.size) (min (hi.behind s.size) s.size)) := by
    unfold clamp?
    rw [if_pos (Nat.min_le_right _ _), stop]
  have inside : max (min lo.first s.size) (min (hi.behind s.size) s.size) ≤ store.items.size := by
    rw [size]
    exact Nat.max_le.mpr ⟨Nat.min_le_right _ _, Nat.min_le_right _ _⟩
  obtain ⟨others, drained, rest⟩ := drain?_eq (Nat.le_max_left _ _) inside
  rw [holds.items_eq] at drained rest
  refine ⟨{ items := others,
            index := (s.removeRange lo hi).1.foldl (fun i a => i.erase a) store.index }, ?_, ?_⟩
  · unfold removeRange?
    simp only [size, start, clamped, drained, Option.bind_eq_bind, Option.bind_some]
    rfl
  · apply holds_of_cuts (SetCall.removeRange_cuts lo hi s) holds
    · exact rest
    · intro a
      exact OrderedSet.contains_foldl_erase _ _ a

theorem foldl_sift (test : α → Bool) (items : List α) (kept : Store α) :
    (items.foldl (sift test) kept).items.toList = kept.items.toList ++ items.filter test ∧
      ∀ a, (items.foldl (sift test) kept).index.contains a
        = (kept.index.contains a && !(items.filter fun a => !test a).any (· == a)) := by
  induction items generalizing kept with
  | nil => simp
  | cons x rest ih =>
    obtain ⟨array, index⟩ := ih (sift test kept x)
    rw [List.foldl_cons]
    -- An item is put into the new array or taken out of the index, and each of the two is left
    -- alone in the other case.
    by_cases passes : test x = true
    · have kept_on : sift test kept x = { kept with items := kept.items.push x } := if_pos passes
      rw [kept_on] at array index ⊢
      refine ⟨?_, ?_⟩
      · rw [array, Array.toList_push, List.filter_cons_of_pos passes, List.append_assoc,
          List.singleton_append]
      · intro a
        rw [index, List.filter_cons_of_neg (by simp [passes])]
    · have erased : sift test kept x = { kept with index := kept.index.erase x } := if_neg passes
      rw [erased] at array index ⊢
      refine ⟨?_, ?_⟩
      · rw [array, List.filter_cons_of_neg passes]
      · intro a
        rw [index, List.filter_cons_of_pos (by simp [passes])]
        show ((kept.index.erase x).contains a && _) = _
        rw [contains_erase_one, List.any_cons, List.any_cons, List.any_nil, Bool.or_false,
          Bool.not_or, Bool.and_assoc]

theorem retain_holds {store : Store α} {s : OrderedSet α} (holds : store.Holds s.toList)
    (test : α → Bool) : (store.retain test).Holds (s.retain test).toList := by
  obtain ⟨array, index⟩ := foldl_sift test store.items.toList { store with items := #[] }
  rw [holds.items_eq] at array index
  apply holds_of_cuts (c := .retain test) (SetCall.retain_cuts test s) holds
  · unfold retain
    rw [holds.items_eq, array]
    rfl
  · intro a
    unfold retain
    rw [holds.items_eq]
    exact index a

/-- A call that is made of a store which holds the members of a set comes to the answer of the set,
and to a store that holds what the set holds then. -/
theorem perform?_holds (c : SetCall α) {largest : Nat} {store : Store α} {s : OrderedSet α}
    (holds : store.Holds s.toList) (fits : s.size ≤ largest) :
    ∃ next, store.perform? largest c = some ((c.perform s).1, next) ∧
      next.Holds (c.perform s).2.toList := by
  cases c with
  | add a =>
    obtain ⟨answer, members⟩ := add_holds holds a
    refine ⟨(store.add a).2, ?_, members⟩
    rw [perform?, answer]
    rfl
  | extend items => exact ⟨_, rfl, extend_holds items holds⟩
  -- The cases in which a call could be stopped have lemmas of their own above. Whether a member is
  -- there decides what is left of both sides, so that it is asked first.
  | remove a =>
    by_cases present : s.contains a = true
    · obtain ⟨next, found, members⟩ := discard?_of_present holds present
      rw [perform?, found, SetCall.perform_remove_of_present present]
      rw [SetCall.perform_discard_of_present present] at members
      exact ⟨next, rfl, members⟩
    · rw [Bool.not_eq_true] at present
      rw [perform?, discard?_of_absent holds present, SetCall.perform_remove_of_absent present]
      exact ⟨store, rfl, holds⟩
  | discard a =>
    by_cases present : s.contains a = true
    · obtain ⟨next, found, members⟩ := discard?_of_present holds present
      rw [perform?, found, SetCall.perform_discard_of_present present]
      rw [SetCall.perform_discard_of_present present] at members
      exact ⟨next, rfl, members⟩
    · rw [Bool.not_eq_true] at present
      rw [perform?, discard?_of_absent holds present, SetCall.perform_discard_of_absent present]
      exact ⟨store, rfl, holds⟩
  | pop =>
    obtain ⟨answer, members⟩ := pop_holds holds
    refine ⟨store.pop.2, ?_, members⟩
    rw [perform?, answer]
  | removeAt place =>
    obtain ⟨next, found, members⟩ := removeAt?_holds holds place
    refine ⟨next, ?_, members⟩
    rw [perform?, found]
    rfl
  | removeRange lo hi =>
    obtain ⟨next, found, members⟩ := removeRange?_holds holds fits lo hi
    refine ⟨next, ?_, members⟩
    rw [perform?, found]
    rfl
  | retain test => exact ⟨_, rfl, retain_holds holds test⟩
  | clear => exact ⟨_, rfl, empty_holds⟩

/-- A run over a store is not stopped, answers what it answers over the set, and leaves a store that
holds what the set holds in the end. The induction is on the calls. -/
theorem run?_holds (calls : List (SetCall α)) {largest : Nat} {store : Store α} {s : OrderedSet α}
    (holds : store.Holds s.toList)
    (fits : ∀ part, part <+: calls → (SetCall.run part s).2.size ≤ largest) :
    ∃ last, run? largest calls store = some ((SetCall.run calls s).1, last) ∧
      last.Holds (SetCall.run calls s).2.toList := by
  induction calls generalizing store s with
  | nil => exact ⟨store, rfl, holds⟩
  | cons c rest ih =>
    obtain ⟨next, performed, holds_next⟩ := perform?_holds c holds (fits [] List.nil_prefix)
    have fits_rest : ∀ part, part <+: rest → (SetCall.run part (c.perform s).2).2.size ≤ largest :=
      fun part before => fits (c :: part) (List.cons_prefix_cons.mpr ⟨rfl, before⟩)
    obtain ⟨last, ran, holds_last⟩ := ih holds_next fits_rest
    refine ⟨last, ?_, holds_last⟩
    rw [run?, performed, Option.bind_eq_bind, Option.bind_some]
    simp only [ran]
    rfl

/-! ## Comparing by the indexes

An index has no order and may list its items in another one. It is compared as a list without equal
items that has the same items up to `==`. -/

theorem any_toList {store : Store α} {s : OrderedSet α} (holds : store.Holds s.toList) (a : α) :
    store.index.toList.any (· == a) = s.toList.any (· == a) := by
  rw [← holds.index_eq, ← Std.HashSet.contains_toList, List.contains_eq_any_beq]
  congr
  funext x
  exact BEq.comm

theorem size_index {store : Store α} {s : OrderedSet α} (holds : store.Holds s.toList) :
    store.index.size = s.size := by
  rw [← Std.HashSet.length_toList, ← OrderedSet.length_toList]
  apply Nat.le_antisymm
  · apply length_le_of_forall Std.HashSet.distinct_toList
    intro a mem
    rw [← any_toList holds]
    exact List.any_eq_true.mpr ⟨a, mem, BEq.rfl⟩
  · apply length_le_of_forall s.distinct
    intro a mem
    rw [any_toList holds]
    exact List.any_eq_true.mpr ⟨a, mem, BEq.rfl⟩

omit [Hashable α] [LawfulHashable α] in
/-- What is known of all items is known of all that are equal to one of them. -/
theorem all_of_any {items others : List α} (same : ∀ a, items.any (· == a) = others.any (· == a))
    {test : α → Bool} (respects : ∀ a b, (a == b) = true → test a = test b)
    (all : ∀ a ∈ items, test a = true) : ∀ a ∈ others, test a = true := by
  intro a mem
  have there : items.any (· == a) = true := by
    rw [same]
    exact List.any_eq_true.mpr ⟨a, mem, BEq.rfl⟩
  obtain ⟨x, mem, equal⟩ := List.any_eq_true.mp there
  rw [← respects x a equal]
  exact all x mem

/-- Comparing the indexes compares the sets. -/
theorem same_eq {one other : Store α} {s t : OrderedSet α} (ones : one.Holds s.toList)
    (others : other.Holds t.toList) : one.same other = (s == t) := by
  have respects : ∀ a b, (a == b) = true → t.contains a = t.contains b :=
    fun _ _ equal => t.contains_congr equal
  have index : other.index.contains = t.contains := funext (contains_eq others)
  have sub : one.index.toList.all t.contains = s.isSubset t := by
    rw [Bool.eq_iff_iff, List.all_eq_true, OrderedSet.isSubset_iff]
    constructor
    · exact all_of_any (any_toList ones) respects
    · exact all_of_any (fun a => (any_toList ones a).symm) respects
  unfold same
  rw [size_index ones, size_index others, index, sub]
  rfl

end Store

/-! ## What is known of a set after calls -/

/-- What is known of `t` when it is what calls have made of `s`. -/
structure SetCall.Kept {α : Type} [BEq α] [Hashable α] [EquivBEq α] [LawfulHashable α]
    (s : OrderedSet α) (calls : List (SetCall α)) (t : OrderedSet α) : Prop where
  /-- No two members are equal. -/
  distinct : t.toList.Pairwise fun a b => (a == b) = false
  /-- The set contains what is equal to a member. -/
  contains_iff : ∀ a, t.contains a = true ↔ ∃ x ∈ t.toList, (x == a) = true
  /-- The members stand in the order in which they came, those of the beginning first. -/
  in_order : t.toList = standing (s.toList.map .came ++ SetCall.history calls s)
  /-- The next call does what it does to a list. -/
  on_list : ∀ c : SetCall α, (c.perform t).1 = (c.onList t.toList).1 ∧
    (c.perform t).2.toList = (c.onList t.toList).2
  /-- The members that the next call loses are cut out, those that it gains come at the end. -/
  goes_and_comes : ∀ c : SetCall α, (c.lost t).Sublist t.toList ∧ (c.perform t).2.toList
    = (t.toList.filter fun a => !(c.lost t).any (· == a)) ++ c.gained t
  /-- What is there can be removed. -/
  removes : ∀ a, t.contains a = true → ((SetCall.remove a).perform t).1 = .tried (.ok ())
  /-- What is not there cannot, and nothing happens. -/
  refuses : ∀ a, t.contains a = false →
    (SetCall.remove a).perform t = (.tried (.error .notFound), t)
  /-- Sets are equal exactly if they have the same members. -/
  beq_iff : ∀ u : OrderedSet α, (t == u) = true ↔ ∀ a, t.contains a = u.contains a
  /-- In a store, nothing stops the calls. They answer the same, array and index agree in the end,
  and to compare the indexes is to compare the sets. -/
  stored : ∀ {largest : Nat} {store : Store α}, store.Holds s.toList →
    (∀ part, part <+: calls → (SetCall.run part s).2.size ≤ largest) →
    ∃ last, Store.run? largest calls store = some ((SetCall.run calls s).1, last) ∧
      last.Holds t.toList ∧
      ∀ {u : OrderedSet α} {other : Store α}, other.Holds u.toList → last.same other = (t == u)

namespace SetCall

/-- Array and index stay in step, and the order of the members is kept, whatever is called. -/
theorem kept_after_calls {α : Type} [BEq α] [Hashable α] [EquivBEq α] [LawfulHashable α]
    (s : OrderedSet α) (calls : List (SetCall α)) : Kept s calls (run calls s).2 where
  distinct := (run calls s).2.distinct
  contains_iff := (run calls s).2.contains_iff
  in_order := by
    apply run_toList
    have all := standing_came [] s.toList
    rw [List.nil_append] at all
    exact all.symm
  on_list c := c.agrees (run calls s).2
  goes_and_comes c := c.perform_toList (run calls s).2
  removes a present := by rw [perform_remove_of_present present]
  refuses a absent := perform_remove_of_absent absent
  beq_iff := (run calls s).2.beq_iff
  stored holds fits := by
    obtain ⟨last, ran, holds_last⟩ := Store.run?_holds calls holds fits
    exact ⟨last, ran, holds_last, fun others => Store.same_eq holds_last others⟩

/-- Names that are equal but for letters are one member, and one that went and came again has come
as it was then. The range begins behind the largest place that there is, and nothing is in it. -/
theorem kept_after_calls_names :
    let a : Name := ⟨[⟨[97], by decide, by decide⟩], true, by decide⟩
    let upper : Name := ⟨[⟨[65], by decide, by decide⟩], true, by decide⟩
    let b : Name := ⟨[⟨[98], by decide, by decide⟩], true, by decide⟩
    let calls : List (SetCall Name) :=
      [.extend [a, upper, b], .removeRange (.excluded 7) (.included 7), .discard upper, .add upper]
    Kept OrderedSet.empty calls (run calls OrderedSet.empty).2 ∧
      (run calls OrderedSet.empty).2.toList = [b, upper] ∧
      ∃ last, Store.run? 7 calls Store.empty = some ((run calls OrderedSet.empty).1, last) := by
  intro a upper b calls
  have kept := kept_after_calls OrderedSet.empty calls
  have few : ∀ part, part <+: calls → (run part OrderedSet.empty).2.size ≤ 7 := by
    intro part before
    have all : ∀ part ∈ calls.inits,
        (part.foldl (fun items c => (c.onList items).2) ([] : List Name)).length ≤ 7 := by decide
    rw [← OrderedSet.length_toList, run_onList]
    exact all part ((List.mem_inits part calls).mpr before)
  obtain ⟨last, ran, -⟩ := kept.stored Store.empty_holds few
  exact ⟨kept, (run_onList calls OrderedSet.empty).trans (by decide), last, ran⟩

end SetCall

end Dns
