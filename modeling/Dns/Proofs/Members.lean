import Dns.Set.Ordered
import Mathlib.Data.List.Basic
import Mathlib.Order.MinMax

/-!
# Members of ordered sets and their order

What can be done to an ordered set is a `SetCall`, and a run is a list of them. What a call answers
and which members it leaves is told in two ways.

`SetCall.onList` tells it of the members as a list: what is added goes to the end, what is taken
away is cut out. A range of places is told by the places that it covers, so that there is no bound
to be clamped and no order of bounds to be assumed.

`standing` tells it of the history. Every call is a list of changes, each of them a member that came
or one that went, and of these the history is made. The members stand in the order in which they
came, of those that went since none is left, and one that came again stands where it came last
(`run_toList`). That a member which is added again does not come is what keeps its place and its
value.

Two lists without equal items that have the same items up to `==` have the same length. This is what
lets sets be compared by size and inclusion (`OrderedSet.beq_iff`).

Both are about all calls together. `SetCall.agrees` and `SetCall.cuts_or_gains` have one case for
each call, and whatever is proved of runs uses these two and looks into no call. A call that is
added needs a case in both of them, and nothing else.
-/

set_option autoImplicit false

namespace Dns

/-! ## Calls -/

/-- Something that is done to an ordered set. -/
inductive SetCall (α : Type) where
  | add (a : α)
  | extend (items : List α)
  | remove (a : α)
  | discard (a : α)
  | pop
  | removeAt (place : Nat)
  | removeRange (lo hi : Bound)
  | retain (test : α → Bool)
  | clear

/-- What is answered to it. -/
inductive SetAnswer (α : Type) where
  | nothing
  | whether (b : Bool)
  | tried (result : Except SetError Unit)
  | item (found : Option α)
  | items (found : List α)

/-- The members that an answer hands out. -/
def SetAnswer.reported {α : Type} : SetAnswer α → List α
  | item found => found.toList
  | items found => found
  | _ => []

/-- A member that comes to a set or goes from it. -/
inductive Change (α : Type) where
  | came (a : α)
  | went (a : α)

namespace Bound

/-- Whether a range that begins like this has begun at a place. -/
def hasBegun (lo : Bound) (place : Nat) : Bool :=
  match lo with
  | included first => decide (first ≤ place)
  | excluded before => decide (before < place)
  | unbounded => true

/-- Whether a range that ends like this goes on to a place. -/
def goesOn (hi : Bound) (place : Nat) : Bool :=
  match hi with
  | included last => decide (place ≤ last)
  | excluded behind => decide (place < behind)
  | unbounded => true

/-- Whether a place is between two bounds. -/
def covers (lo hi : Bound) (place : Nat) : Bool := lo.hasBegun place && hi.goesOn place

theorem hasBegun_iff (lo : Bound) (place : Nat) :
    lo.hasBegun place = true ↔ lo.first ≤ place := by
  cases lo with
  | included first => exact decide_eq_true_iff
  | excluded before => exact decide_eq_true_iff
  | unbounded => exact iff_of_true rfl (Nat.zero_le place)

theorem goesOn_iff (hi : Bound) {size place : Nat} (inside : place < size) :
    hi.goesOn place = true ↔ place < hi.behind size := by
  cases hi with
  | included last => exact decide_eq_true_iff.trans Nat.lt_succ_iff.symm
  | excluded behind => exact decide_eq_true_iff
  | unbounded => exact iff_of_true rfl inside

theorem covers_iff {lo hi : Bound} {size place : Nat} (inside : place < size) :
    lo.covers hi place = true ↔ lo.first ≤ place ∧ place < hi.behind size := by
  rw [covers, Bool.and_eq_true, hasBegun_iff, goesOn_iff hi inside]

end Bound

/-- The items at places that pass a test. -/
def atPlaces {α : Type} (test : Nat → Bool) : List α → List α
  | [] => []
  | a :: rest =>
    if test 0 then a :: atPlaces (fun place => test (place + 1)) rest
    else atPlaces (fun place => test (place + 1)) rest

section Lists

variable {α : Type}

/-! ## Places

A test of places is shifted by one at each item. Places between two bounds are those of a piece of
the list, and places outside of them what is left when the piece is taken out. -/

theorem atPlaces_congr {f g : Nat → Bool} (items : List α)
    (same : ∀ place < items.length, f place = g place) : atPlaces f items = atPlaces g items := by
  induction items generalizing f g with
  | nil => rfl
  | cons a rest ih =>
    have later := ih fun place before => same (place + 1) (Nat.succ_lt_succ before)
    unfold atPlaces
    rw [same 0 (Nat.succ_pos _), later]

theorem atPlaces_between (items : List α) (start stop : Nat) :
    atPlaces (fun place => decide (start ≤ place ∧ place < stop)) items
      = (items.take stop).drop start := by
  induction items generalizing start stop with
  | nil => simp [atPlaces]
  | cons a rest ih =>
    unfold atPlaces
    -- With one item less in front, both bounds are lowered by one as far as they can be.
    cases stop with
    | zero =>
      have later := ih start 0
      simp only [Nat.not_lt_zero, and_false, decide_false, List.take_zero, List.drop_nil] at later ⊢
      exact later
    | succ stop =>
      cases start with
      | zero =>
        have later := ih 0 stop
        simp only [Nat.zero_le, true_and, Nat.succ_lt_succ_iff, List.drop_zero] at later ⊢
        simp [later]
      | succ start =>
        have later := ih start stop
        simp only [Nat.succ_le_succ_iff, Nat.succ_lt_succ_iff] at later ⊢
        simpa using later

theorem atPlaces_outside (items : List α) {start stop : Nat} (ordered : start ≤ stop) :
    atPlaces (fun place => !decide (start ≤ place ∧ place < stop)) items
      = items.take start ++ items.drop stop := by
  induction items generalizing start stop with
  | nil => simp [atPlaces]
  | cons a rest ih =>
    unfold atPlaces
    cases start with
    | zero =>
      cases stop with
      | zero =>
        have later := ih (Nat.le_refl 0)
        simp only [Nat.not_lt_zero, and_false, decide_false] at later ⊢
        simpa using later
      | succ stop =>
        have later := ih (Nat.zero_le stop)
        simp only [Nat.zero_le, true_and, Nat.succ_lt_succ_iff] at later ⊢
        simpa using later
    | succ start =>
      cases stop with
      | zero => exact absurd ordered (Nat.not_succ_le_zero start)
      | succ stop =>
        have later := ih (Nat.le_of_succ_le_succ ordered)
        simp only [Nat.succ_le_succ_iff, Nat.succ_lt_succ_iff] at later ⊢
        simpa using later

theorem drop_take_succ {items : List α} {place : Nat} {a : α} (here : items[place]? = some a) :
    (items.take (place + 1)).drop place = [a] := by
  obtain ⟨inside, rfl⟩ := List.getElem?_eq_some_iff.mp here
  rw [List.take_succ_eq_append_getElem inside]
  have length : (items.take place).length = place := List.length_take_of_le (Nat.le_of_lt inside)
  exact List.drop_left' length

/-! ## Distinct items

Items are compared with `==`, and equal ones need not be identical. So membership is always asked as
`any`, and a test is used only where it does not tell equal items apart. -/

variable [BEq α] [EquivBEq α]

theorem any_beq_congr {a b : α} (equal : (a == b) = true) (items : List α) :
    items.any (· == a) = items.any (· == b) := by
  have same : (fun x : α => x == a) = fun x => x == b := by
    funext x
    exact BEq.congr_right equal
  rw [same]

omit [EquivBEq α] in
/-- If a test does not tell equal items apart, one that passes it is equal to something if it is
equal to one and that passes, too. -/
theorem any_filter {test : α → Bool} (respects : ∀ x y, (x == y) = true → test x = test y)
    (items : List α) (a : α) :
    (items.filter test).any (· == a) = (items.any (· == a) && test a) := by
  rw [Bool.eq_iff_iff, Bool.and_eq_true, List.any_eq_true, List.any_eq_true]
  constructor
  · rintro ⟨x, mem, equal⟩
    obtain ⟨there, passes⟩ := List.mem_filter.mp mem
    exact ⟨⟨x, there, equal⟩, respects x a equal ▸ passes⟩
  · rintro ⟨⟨x, there, equal⟩, passes⟩
    exact ⟨x, List.mem_filter.mpr ⟨there, (respects x a equal).trans passes⟩, equal⟩

theorem any_filter_any (items others : List α) (a : α) :
    (items.filter fun x => others.any (· == x)).any (· == a)
      = (items.any (· == a) && others.any (· == a)) :=
  any_filter (fun _ _ equal => any_beq_congr equal others) items a

theorem any_filter_not_any (items others : List α) (a : α) :
    (items.filter fun x => !others.any (· == x)).any (· == a)
      = (items.any (· == a) && !others.any (· == a)) :=
  any_filter (fun _ _ equal => congrArg not (any_beq_congr equal others)) items a

/-- What is kept of distinct items are those that are not equal to one that was removed. -/
theorem eq_filter_of_perm {items kept removed : List α}
    (distinct : items.Pairwise fun a b => (a == b) = false)
    (all : (kept ++ removed).Perm items) (sub : kept.Sublist items) :
    kept = items.filter fun a => !removed.any (· == a) := by
  have apart : (kept ++ removed).Pairwise fun a b => (a == b) = false := by
    refine (all.pairwise_iff ?_).mpr distinct
    intro a b h
    rw [BEq.comm]
    exact h
  have own : kept.filter (fun a => !removed.any (· == a)) = kept := by
    apply List.filter_eq_self.mpr
    intro a mem
    rw [Bool.not_eq_true', List.any_eq_false]
    intro b gone equal
    -- What is kept is not equal to anything that was removed, since both were among the items.
    have unequal := (List.pairwise_append.mp apart).2.2 a mem b gone
    rw [BEq.comm, equal] at unequal
    cases unequal
  have others : removed.filter (fun a => !removed.any (· == a)) = [] := by
    apply List.filter_eq_nil_iff.mpr
    intro a gone
    simp only [Bool.not_eq_true', List.any_eq_false, not_forall, not_not]
    exact ⟨a, gone, BEq.rfl⟩
  have sub' := sub.filter fun a => !removed.any (· == a)
  have length := (all.filter fun a => !removed.any (· == a)).length_eq
  rw [List.filter_append, own, others, List.append_nil] at length
  rw [own] at sub'
  exact sub'.eq_of_length length

/-- Distinct items that are all equal to some of others are not more than these. -/
theorem length_le_of_forall {items others : List α}
    (distinct : items.Pairwise fun a b => (a == b) = false)
    (sub : ∀ a ∈ items, others.any (· == a) = true) : items.length ≤ others.length := by
  induction items generalizing others with
  | nil => exact Nat.zero_le _
  | cons a rest ih =>
    obtain ⟨apart, rest_distinct⟩ := List.pairwise_cons.mp distinct
    obtain ⟨x, there, equal⟩ := List.any_eq_true.mp (sub a List.mem_cons_self)
    -- One that is equal to the first is taken away, and it was not equal to any of the rest.
    have fewer := List.length_eraseP_of_mem (p := (· == a)) there equal
    have some := List.length_pos_of_mem there
    have few : rest.length ≤ (others.eraseP (· == a)).length := by
      apply ih rest_distinct
      intro b mem
      obtain ⟨y, there, equal⟩ := List.any_eq_true.mp (sub b (List.mem_cons_of_mem a mem))
      refine List.any_eq_true.mpr ⟨y, (List.mem_eraseP_of_neg ?_).mpr there, equal⟩
      intro same
      have unequal := apart b mem
      rw [BEq.trans (BEq.symm same) equal] at unequal
      cases unequal
    rw [List.length_cons]
    omega

/-- If they are as many, the others are all equal to some of them. -/
theorem any_of_length_le {items others : List α}
    (distinct : items.Pairwise fun a b => (a == b) = false)
    (sub : ∀ a ∈ items, others.any (· == a) = true) (many : others.length ≤ items.length) {b : α}
    (mem : b ∈ others) : items.any (· == b) = true := by
  by_contra new
  -- One that is equal to none of the items could be put to them, and then they would be too many.
  have more : (b :: items).length ≤ others.length := by
    apply length_le_of_forall
    · refine List.pairwise_cons.mpr ⟨?_, distinct⟩
      intro a there
      rw [Bool.eq_false_iff]
      intro equal
      exact new (List.any_eq_true.mpr ⟨a, there, BEq.symm equal⟩)
    · intro a there
      rcases List.mem_cons.mp there with rfl | there
      · exact List.any_eq_true.mpr ⟨a, mem, BEq.rfl⟩
      · exact sub a there
  rw [List.length_cons] at more
  omega

end Lists

/-! ## What the operations do to the members

One lemma for each operation, about the list of members alone. That the index goes along is built
into the type. -/

namespace OrderedSet

variable {α : Type} [BEq α] [Hashable α]

theorem length_toList (s : OrderedSet α) : s.toList.length = s.size := Array.length_toList

theorem contains_iff (s : OrderedSet α) (a : α) :
    s.contains a = true ↔ ∃ x ∈ s.toList, (x == a) = true := by
  rw [contains_eq_any]
  exact List.any_eq_true

theorem isSubset_iff (s t : OrderedSet α) :
    s.isSubset t = true ↔ ∀ a ∈ s.toList, t.contains a = true := by
  unfold isSubset
  rw [← Array.all_toList]
  exact List.all_eq_true

variable [EquivBEq α] [LawfulHashable α]

omit [LawfulHashable α] in
theorem contains_congr (s : OrderedSet α) {a b : α} (equal : (a == b) = true) :
    s.contains a = s.contains b := by
  rw [contains_eq_any, contains_eq_any]
  exact any_beq_congr equal s.toList

omit [LawfulHashable α] in
/-- Sets are equal exactly if they have the same members. -/
theorem beq_iff (s t : OrderedSet α) : (s == t) = true ↔ ∀ a, s.contains a = t.contains a := by
  have compared : (s == t) = (s.size == t.size && s.isSubset t) := rfl
  rw [compared, Bool.and_eq_true, beq_iff_eq, isSubset_iff, ← length_toList, ← length_toList]
  simp only [contains_eq_any]
  constructor
  · rintro ⟨length, sub⟩ a
    rw [Bool.eq_iff_iff, List.any_eq_true, List.any_eq_true]
    constructor
    · rintro ⟨x, there, equal⟩
      obtain ⟨y, other, same⟩ := List.any_eq_true.mp (sub x there)
      exact ⟨y, other, BEq.trans same equal⟩
    · -- As many members as the other set has, of which no two are equal: then all of the other ones
      -- are among them.
      rintro ⟨y, there, equal⟩
      obtain ⟨x, other, same⟩ := List.any_eq_true.mp
        (any_of_length_le s.distinct sub (Nat.le_of_eq length.symm) there)
      exact ⟨x, other, BEq.trans same equal⟩
  · intro same
    have own : ∀ (u : OrderedSet α), ∀ a ∈ u.toList, u.toList.any (· == a) = true := by
      intro u a mem
      exact List.any_eq_true.mpr ⟨a, mem, BEq.rfl⟩
    have sub : ∀ a ∈ s.toList, t.toList.any (· == a) = true := by
      intro a mem
      rw [← same]
      exact own s a mem
    have sub' : ∀ a ∈ t.toList, s.toList.any (· == a) = true := by
      intro a mem
      rw [same]
      exact own t a mem
    exact ⟨Nat.le_antisymm (length_le_of_forall s.distinct sub)
      (length_le_of_forall t.distinct sub'), sub⟩

/-! ### Coming -/

/-- Those of some items that are new when they are added one after the other. -/
def arrivals (s : OrderedSet α) : List α → List α
  | [] => []
  | a :: rest => if s.contains a then arrivals s rest else a :: arrivals (s.add a) rest

theorem add_of_contains {s : OrderedSet α} {a : α} (there : s.contains a = true) :
    s.add a = s := dif_pos there

theorem toList_extend (s : OrderedSet α) (items : List α) :
    (s.extend items).toList = s.toList ++ s.arrivals items := by
  induction items generalizing s with
  | nil => exact (List.append_nil _).symm
  | cons a rest ih =>
    have first : s.extend (a :: rest) = (s.add a).extend rest := rfl
    rw [first, ih, arrivals]
    by_cases there : s.contains a = true
    · rw [if_pos there, add_of_contains there]
    · rw [if_neg there, toList_add, if_neg there, List.append_assoc, List.singleton_append]

/-! ### Going -/

theorem toList_retain (s : OrderedSet α) (test : α → Bool) :
    (s.retain test).toList = s.toList.filter test := rfl

theorem toList_removeBetween (s : OrderedSet α) {start stop : Nat} (ordered : start ≤ stop) :
    (s.removeBetween start stop ordered).toList = s.toList.take start ++ s.toList.drop stop := rfl

theorem discard_of_present {s : OrderedSet α} {a : α} (present : s.contains a = true) :
    s.discard a = (true, s.retain fun x => !(x == a)) := if_pos present

theorem discard_of_absent {s : OrderedSet α} {a : α} (absent : s.contains a = false) :
    s.discard a = (false, s) := by
  unfold discard
  rw [absent]
  rfl

theorem toList_discard (s : OrderedSet α) (a : α) :
    (s.discard a).2.toList = s.toList.filter fun x => !(x == a) := by
  by_cases present : s.contains a = true
  · rw [discard_of_present present]
    rfl
  · rw [Bool.not_eq_true] at present
    rw [discard_of_absent present]
    symm
    apply List.filter_eq_self.mpr
    intro x mem
    rw [contains_eq_any, List.any_eq_false] at present
    rw [Bool.not_eq_true']
    exact Bool.eq_false_iff.mpr (present x mem)

theorem removeAt_of_get {s : OrderedSet α} {place : Nat} {a : α}
    (here : s.toList[place]? = some a) :
    s.removeAt place = (some a, s.removeBetween place (place + 1) (Nat.le_succ place)) := by
  have found : s.get? place = some a := Array.getElem?_toList.symm.trans here
  unfold removeAt
  rw [found]

theorem removeAt_of_none {s : OrderedSet α} {place : Nat} (nothing : s.toList[place]? = none) :
    s.removeAt place = (none, s) := by
  have missing : s.get? place = none := Array.getElem?_toList.symm.trans nothing
  unfold removeAt
  rw [missing]

theorem pop_eq (s : OrderedSet α) : s.pop = s.removeAt (s.toList.length - 1) := by
  unfold pop
  rw [length_toList]
  by_cases none : s.isEmpty = true
  · have size : s.toList = [] := by
      unfold isEmpty at none
      rw [Array.isEmpty_iff] at none
      rw [toList, none]
    rw [if_pos none, removeAt_of_none]
    rw [size]
    rfl
  · rw [if_neg none]

theorem removeRange_eq (s : OrderedSet α) (lo hi : Bound) :
    (s.removeRange lo hi).1 = atPlaces (lo.covers hi) s.toList ∧
      (s.removeRange lo hi).2.toList = atPlaces (fun place => !lo.covers hi place) s.toList := by
  -- Clamping to the size changes nothing at the places that there are.
  have same : ∀ place < s.toList.length, lo.covers hi place
      = decide (min lo.first s.size ≤ place ∧
        place < max (min lo.first s.size) (min (hi.behind s.size) s.size)) := by
    intro place inside
    rw [length_toList] at inside
    rw [Bool.eq_iff_iff, decide_eq_true_iff, Bound.covers_iff inside, lt_max_iff, lt_min_iff,
      lt_min_iff]
    omega
  unfold removeRange
  constructor
  · rw [atPlaces_congr s.toList same, atPlaces_between]
  · rw [toList_removeBetween, atPlaces_congr s.toList fun place inside => congrArg (!·)
      (same place inside), atPlaces_outside _ (Nat.le_max_left _ _)]

end OrderedSet

/-! ## Calls and lists -/

/-- The items and one more, unless it is equal to one of them. -/
def appendNew {α : Type} [BEq α] (items : List α) (a : α) : List α :=
  if items.any (· == a) then items else items ++ [a]

namespace SetCall

variable {α : Type} [BEq α]

/-- What a call answers and leaves, told of the members as a list. -/
def onList : SetCall α → List α → SetAnswer α × List α
  | add a, items => (.whether (!items.any (· == a)), appendNew items a)
  | extend new, items => (.nothing, new.foldl appendNew items)
  | remove a, items =>
    if items.any (· == a) then (.tried (.ok ()), items.filter fun x => !(x == a))
    else (.tried (.error .notFound), items)
  | discard a, items =>
    if items.any (· == a) then (.whether true, items.filter fun x => !(x == a))
    else (.whether false, items)
  | pop, items => (.item items.getLast?, items.dropLast)
  | removeAt place, items => (.item items[place]?, items.eraseIdx place)
  | removeRange lo hi, items =>
    (.items (atPlaces (lo.covers hi) items), atPlaces (fun place => !lo.covers hi place) items)
  | retain test, items => (.nothing, items.filter test)
  | clear, _ => (.nothing, [])

variable [Hashable α] [EquivBEq α] [LawfulHashable α]

/-- What a call answers, and the set afterwards. -/
def perform : SetCall α → OrderedSet α → SetAnswer α × OrderedSet α
  | add a, s => (.whether (!s.contains a), s.add a)
  | extend items, s => (.nothing, s.extend items)
  | remove a, s =>
    match s.remove a with
    | .ok t => (.tried (.ok ()), t)
    | .error e => (.tried (.error e), s)
  | discard a, s => (.whether (s.discard a).1, (s.discard a).2)
  | pop, s => (.item s.pop.1, s.pop.2)
  | removeAt place, s => (.item (s.removeAt place).1, (s.removeAt place).2)
  | removeRange lo hi, s => (.items (s.removeRange lo hi).1, (s.removeRange lo hi).2)
  | retain test, s => (.nothing, s.retain test)
  | clear, _ => (.nothing, OrderedSet.empty)

/-- A call answers what it answers of the list of members, and leaves what it leaves of it. -/
def Agrees (c : SetCall α) (s : OrderedSet α) : Prop :=
  (c.perform s).1 = (c.onList s.toList).1 ∧ (c.perform s).2.toList = (c.onList s.toList).2

theorem add_agrees (a : α) (s : OrderedSet α) : (add a).Agrees s := by
  rw [Agrees, perform, onList, OrderedSet.toList_add, OrderedSet.contains_eq_any]
  exact ⟨rfl, rfl⟩

theorem extend_agrees (items : List α) (s : OrderedSet α) : (extend items).Agrees s := by
  refine ⟨rfl, ?_⟩
  show (s.extend items).toList = items.foldl appendNew s.toList
  induction items generalizing s with
  | nil => rfl
  | cons a rest ih =>
    have first : s.extend (a :: rest) = (s.add a).extend rest := rfl
    rw [first, ih, List.foldl_cons, OrderedSet.toList_add, OrderedSet.contains_eq_any]
    rfl

theorem perform_discard_of_present {a : α} {s : OrderedSet α} (present : s.contains a = true) :
    (discard a).perform s = (.whether true, s.retain fun x => !(x == a)) := by
  rw [perform, OrderedSet.discard_of_present present]

theorem perform_discard_of_absent {a : α} {s : OrderedSet α} (absent : s.contains a = false) :
    (discard a).perform s = (.whether false, s) := by
  rw [perform, OrderedSet.discard_of_absent absent]

theorem perform_remove_of_present {a : α} {s : OrderedSet α} (present : s.contains a = true) :
    (remove a).perform s = (.tried (.ok ()), s.retain fun x => !(x == a)) := by
  rw [perform, OrderedSet.remove, OrderedSet.discard_of_present present]

theorem perform_remove_of_absent {a : α} {s : OrderedSet α} (absent : s.contains a = false) :
    (remove a).perform s = (.tried (.error .notFound), s) := by
  rw [perform, OrderedSet.remove, OrderedSet.discard_of_absent absent]

theorem discard_agrees (a : α) (s : OrderedSet α) : (discard a).Agrees s := by
  rw [Agrees, onList, ← s.contains_eq_any]
  cases present : s.contains a with
  | true =>
    rw [perform_discard_of_present present]
    exact ⟨rfl, rfl⟩
  | false =>
    rw [perform_discard_of_absent present]
    exact ⟨rfl, rfl⟩

theorem remove_agrees (a : α) (s : OrderedSet α) : (remove a).Agrees s := by
  rw [Agrees, onList, ← s.contains_eq_any]
  cases present : s.contains a with
  | true =>
    rw [perform_remove_of_present present]
    exact ⟨rfl, rfl⟩
  | false =>
    rw [perform_remove_of_absent present]
    exact ⟨rfl, rfl⟩

theorem removeAt_agrees (place : Nat) (s : OrderedSet α) : (removeAt place).Agrees s := by
  rw [Agrees, perform, onList]
  cases here : s.toList[place]? with
  | some a =>
    rw [OrderedSet.removeAt_of_get here, List.eraseIdx_eq_take_drop_succ]
    exact ⟨rfl, rfl⟩
  | none =>
    rw [OrderedSet.removeAt_of_none here,
      List.eraseIdx_of_length_le (List.getElem?_eq_none_iff.mp here)]
    exact ⟨rfl, rfl⟩

theorem perform_pop (s : OrderedSet α) :
    pop.perform s = (removeAt (s.toList.length - 1)).perform s := by
  rw [perform, perform, OrderedSet.pop_eq]

theorem pop_agrees (s : OrderedSet α) : pop.Agrees s := by
  have agrees := removeAt_agrees (s.toList.length - 1) s
  have last : pop.onList s.toList = (removeAt (s.toList.length - 1)).onList s.toList := by
    rw [onList, onList, List.getLast?_eq_getElem?, List.eraseIdx_length_sub_one]
  unfold Agrees
  rw [perform_pop, last]
  exact agrees

theorem agrees (c : SetCall α) (s : OrderedSet α) : c.Agrees s := by
  cases c with
  | add a => exact add_agrees a s
  | extend items => exact extend_agrees items s
  | remove a => exact remove_agrees a s
  | discard a => exact discard_agrees a s
  | pop => exact pop_agrees s
  | removeAt place => exact removeAt_agrees place s
  | removeRange lo hi =>
    obtain ⟨removed, kept⟩ := s.removeRange_eq lo hi
    exact ⟨congrArg SetAnswer.items removed, kept⟩
  | retain test => exact ⟨rfl, rfl⟩
  | clear => exact ⟨rfl, rfl⟩

/-! ## Calls and changes

A call takes members out, or it puts members in, but none does both. So it is enough to know of the
first kind that what is lost and what is left are all that there was. A history of the members is
the list of these changes, and the order in which they stand is that of the calls. -/

/-- The members that go with a call. Where they are handed out, the answer says which. -/
def lost (s : OrderedSet α) : SetCall α → List α
  | add _ | extend _ => []
  | remove a | discard a => s.toList.filter (· == a)
  | pop => (pop.perform s).1.reported
  | removeAt place => ((removeAt place).perform s).1.reported
  | removeRange lo hi => ((removeRange lo hi).perform s).1.reported
  | retain test => s.toList.filter fun a => !test a
  | clear => s.toList

/-- The members that come with a call, in their order. -/
def gained (s : OrderedSet α) : SetCall α → List α
  | add a => s.arrivals [a]
  | extend items => s.arrivals items
  | _ => []

/-- What is cut out of the members goes, and nothing comes. -/
def Cuts (c : SetCall α) (s : OrderedSet α) : Prop :=
  c.gained s = [] ∧ ((c.perform s).2.toList ++ c.lost s).Perm s.toList ∧
    (c.perform s).2.toList.Sublist s.toList ∧ (c.lost s).Sublist s.toList

theorem discard_cuts (a : α) (s : OrderedSet α) : (discard a).Cuts s := by
  have kept := OrderedSet.toList_discard s a
  refine ⟨rfl, ?_, ?_, List.filter_sublist⟩
  · show ((s.discard a).2.toList ++ s.toList.filter (· == a)).Perm s.toList
    have all := OrderedSet.filter_append_filter_not_perm (fun x => !(x == a)) s.toList
    simp only [Bool.not_not] at all
    rw [kept]
    exact all
  · show (s.discard a).2.toList.Sublist s.toList
    rw [kept]
    exact List.filter_sublist

theorem remove_cuts (a : α) (s : OrderedSet α) : (remove a).Cuts s := by
  have same : ((remove a).perform s).2.toList = ((discard a).perform s).2.toList := by
    rw [(remove_agrees a s).2, (discard_agrees a s).2, onList, onList]
    split <;> rfl
  unfold Cuts
  rw [same]
  exact discard_cuts a s

theorem removeAt_cuts (place : Nat) (s : OrderedSet α) : (removeAt place).Cuts s := by
  unfold Cuts
  cases here : s.toList[place]? with
  | some a =>
    have all := OrderedSet.take_drop_perm s.toList place (place + 1) (Nat.le_succ place)
    rw [drop_take_succ here] at all
    rw [lost, perform, OrderedSet.removeAt_of_get here, OrderedSet.toList_removeBetween]
    refine ⟨rfl, all, ?_, ?_⟩
    · rw [← List.eraseIdx_eq_take_drop_succ]
      exact List.eraseIdx_sublist _ _
    · exact List.singleton_sublist.mpr (List.mem_of_getElem? here)
  | none =>
    rw [lost, perform, OrderedSet.removeAt_of_none here]
    exact ⟨rfl, .of_eq (List.append_nil _), .refl _, List.nil_sublist _⟩

theorem pop_cuts (s : OrderedSet α) : pop.Cuts s := by
  have all := removeAt_cuts (s.toList.length - 1) s
  have same : pop.lost s = (removeAt (s.toList.length - 1)).lost s := by
    rw [lost, lost, perform_pop]
  unfold Cuts
  rw [perform_pop, same]
  exact all

theorem removeRange_cuts (lo hi : Bound) (s : OrderedSet α) : (removeRange lo hi).Cuts s := by
  refine ⟨rfl, OrderedSet.take_drop_perm s.toList _ _ (Nat.le_max_left _ _), ?_, ?_⟩
  · have behind := (List.drop_sublist_drop_left s.toList (Nat.le_max_left (min lo.first s.size)
      (min (hi.behind s.size) s.size))).append_left (s.toList.take (min lo.first s.size))
    rw [List.take_append_drop] at behind
    exact behind
  · exact (List.drop_sublist _ _).trans (List.take_sublist _ _)

theorem retain_cuts (test : α → Bool) (s : OrderedSet α) : (retain test).Cuts s :=
  ⟨rfl, OrderedSet.filter_append_filter_not_perm test s.toList, List.filter_sublist,
    List.filter_sublist⟩

theorem cuts_or_gains (c : SetCall α) (s : OrderedSet α) : c.Cuts s ∨
    c.lost s = [] ∧ (c.perform s).2.toList = s.toList ++ c.gained s := by
  cases c with
  | add a => exact .inr ⟨rfl, s.toList_extend [a]⟩
  | extend items => exact .inr ⟨rfl, s.toList_extend items⟩
  | remove a => exact .inl (remove_cuts a s)
  | discard a => exact .inl (discard_cuts a s)
  | pop => exact .inl (pop_cuts s)
  | removeAt place => exact .inl (removeAt_cuts place s)
  | removeRange lo hi => exact .inl (removeRange_cuts lo hi s)
  | retain test => exact .inl (retain_cuts test s)
  | clear => exact .inl ⟨rfl, .refl _, List.nil_sublist _, .refl _⟩

/-- A call takes away the members that go, and nothing else, and adds those that come at the end. -/
theorem perform_toList (c : SetCall α) (s : OrderedSet α) : (c.lost s).Sublist s.toList ∧
    (c.perform s).2.toList
      = (s.toList.filter fun a => !(c.lost s).any (· == a)) ++ c.gained s := by
  rcases c.cuts_or_gains s with ⟨nothing, all, kept, gone⟩ | ⟨nothing, members⟩
  · refine ⟨gone, ?_⟩
    rw [nothing, List.append_nil]
    exact eq_filter_of_perm s.distinct all kept
  · rw [nothing]
    refine ⟨List.nil_sublist _, members.trans ?_⟩
    simp

/-- The changes that a call makes. -/
def changes (c : SetCall α) (s : OrderedSet α) : List (Change α) :=
  (c.lost s).map .went ++ (c.gained s).map .came

/-! ## Runs -/

/-- The answers to calls that are made one after the other, and the set in the end. -/
def run : List (SetCall α) → OrderedSet α → List (SetAnswer α) × OrderedSet α
  | [], s => ([], s)
  | c :: rest, s =>
    ((c.perform s).1 :: (run rest (c.perform s).2).1, (run rest (c.perform s).2).2)

/-- All changes of a run. -/
def history : List (SetCall α) → OrderedSet α → List (Change α)
  | [], _ => []
  | c :: rest, s => c.changes s ++ history rest (c.perform s).2

end SetCall

/-! ## Histories of members

The definition goes through the history from its beginning, and asks of every member that came
whether it goes later. Histories grow at the end; the two lemmas say what this does to what stands.
-/

section Standing

variable {α : Type} [BEq α]

/-- Whether a member that is equal to `a` goes. -/
def Change.takes (a : α) : Change α → Bool
  | came _ => false
  | went b => b == a

/-- The members that came and did not go since, in the order in which they came. -/
def standing : List (Change α) → List α
  | [] => []
  | .came a :: later => if later.any (Change.takes a) then standing later else a :: standing later
  | .went _ :: later => standing later

theorem standing_came (past : List (Change α)) (new : List α) :
    standing (past ++ new.map .came) = standing past ++ new := by
  have stays : ∀ a : α, (new.map Change.came).any (Change.takes a) = false := by
    intro a
    rw [List.any_map, List.any_eq_false]
    intro b _
    exact Bool.false_ne_true
  have all : standing (new.map .came) = new := by
    induction new with
    | nil => rfl
    | cons a rest ih =>
      have later : ∀ b : α, (rest.map Change.came).any (Change.takes b) = false := by
        intro b
        have whole := stays b
        rw [List.map_cons, List.any_cons, Bool.or_eq_false_iff] at whole
        exact whole.2
      rw [List.map_cons, standing, later a, ih later]
      rfl
  -- What comes takes nothing away, and so it makes no difference to what came before.
  induction past with
  | nil => exact all
  | cons change past ih =>
    cases change with
    | came a =>
      rw [List.cons_append, standing, standing, List.any_append, stays a, Bool.or_false, ih]
      split <;> rfl
    | went a => exact ih

theorem standing_went (past : List (Change α)) (gone : List α) :
    standing (past ++ gone.map .went)
      = (standing past).filter fun a => !gone.any (· == a) := by
  have takes : ∀ a : α, (gone.map Change.went).any (Change.takes a) = gone.any (· == a) := by
    intro a
    rw [List.any_map]
    rfl
  -- Of the past, a member goes if it went then or goes now, and the two tests are put together.
  induction past with
  | nil =>
    show standing (gone.map .went) = []
    induction gone with
    | nil => rfl
    | cons a rest ih => exact ih fun b => by rw [List.any_map]; rfl
  | cons change past ih =>
    cases change with
    | came a =>
      rw [List.cons_append, standing, standing, List.any_append, takes a, ih]
      by_cases later : past.any (Change.takes a) = true
      · simp [later]
      · by_cases now : gone.any (· == a) = true
        · simp [later, now]
        · simp [later, now]
    | went a => exact ih

end Standing

namespace SetCall

variable {α : Type} [BEq α] [Hashable α] [EquivBEq α] [LawfulHashable α]

/-- What a run leaves, told of the members as a list. -/
theorem run_onList (calls : List (SetCall α)) (s : OrderedSet α) :
    (run calls s).2.toList = calls.foldl (fun items c => (c.onList items).2) s.toList := by
  induction calls generalizing s with
  | nil => rfl
  | cons c rest ih => rw [run, ih, List.foldl_cons, (c.agrees s).2]

/-- After a run, the members stand in the order in which they came last. The induction is on the
calls, with the history up to now in front of that of the run. -/
theorem run_toList (calls : List (SetCall α)) {s : OrderedSet α} {past : List (Change α)}
    (now : s.toList = standing past) :
    (run calls s).2.toList = standing (past ++ history calls s) := by
  induction calls generalizing s past with
  | nil => rw [history, List.append_nil]; exact now
  | cons c rest ih =>
    have next : (c.perform s).2.toList = standing (past ++ c.changes s) := by
      rw [(c.perform_toList s).2, changes, ← List.append_assoc, standing_came, standing_went, now]
    rw [run, history, ← List.append_assoc]
    exact ih next

end SetCall

end Dns
