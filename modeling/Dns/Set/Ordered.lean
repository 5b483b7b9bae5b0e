import Std.Data.HashSet

/-!
# Ordered sets

A set that remembers in which order its members came. The members stand in an array, and a hash
index beside it answers whether something is a member. That the two agree is part of the type:
no two members are equal, and the index holds exactly the members.

"Equal" is the `==` of the members throughout. A member that is added again changes nothing, so the
value that was added first stays, with its place.

Members are taken away in two ways only: those that fail a test (`retain`), and those in a range of
places (`removeRange`). Both split the members into a part that is kept and a part that is removed,
and `split` shows once why array and index still agree.
-/

set_option autoImplicit false

namespace Dns

/-- A removal asked for something that is not there. -/
inductive SetError where
  | notFound
  deriving DecidableEq, Repr

def SetError.message : SetError → String
  | .notFound => "item not in set"

instance : ToString SetError := ⟨SetError.message⟩

/-- One end of a range of places. -/
inductive Bound where
  | included (place : Nat)
  | excluded (place : Nat)
  | unbounded
  deriving DecidableEq, Repr

namespace Bound

/-- The first place of a range that begins with this bound. -/
def first : Bound → Nat
  | included place => place
  | excluded place => place + 1
  | unbounded => 0

/-- The place behind a range that ends with this bound, in a sequence of `length` places. -/
def behind (length : Nat) : Bound → Nat
  | included place => place + 1
  | excluded place => place
  | unbounded => length

end Bound

/-- A set of members in the order in which they were added. -/
structure OrderedSet (α : Type) [BEq α] [Hashable α] where
  items : Array α
  index : Std.HashSet α
  distinct : items.toList.Pairwise fun a b => (a == b) = false
  indexed : ∀ a, index.contains a = items.toList.any (· == a)

namespace OrderedSet

variable {α : Type} [BEq α] [Hashable α]

/-! ## Reading -/

def empty : OrderedSet α := ⟨#[], ∅, by simp, by simp⟩

instance : Inhabited (OrderedSet α) := ⟨empty⟩

def toList (s : OrderedSet α) : List α := s.items.toList

/-- The members in braces, each in a form of its own. -/
def textWith (form : α → String) (s : OrderedSet α) : String :=
  "\x7b" ++ String.intercalate ", " (s.toList.map form) ++ "\x7d"

def size (s : OrderedSet α) : Nat := s.items.size

def isEmpty (s : OrderedSet α) : Bool := s.items.isEmpty

def contains (s : OrderedSet α) (a : α) : Bool := s.index.contains a

def get? (s : OrderedSet α) (place : Nat) : Option α := s.items[place]?

/-- The members in a range that lies within the set. -/
def slice? (s : OrderedSet α) (lo hi : Bound) : Option (List α) :=
  if lo.first ≤ hi.behind s.size ∧ hi.behind s.size ≤ s.size then
    some (s.items.extract lo.first (hi.behind s.size)).toList
  else none

theorem contains_eq_any (s : OrderedSet α) (a : α) : s.contains a = s.toList.any (· == a) :=
  s.indexed a

/-! ## Adding

The hash index answers first. Only if it knows no equal member is the new one put behind the others
and into the index, and the proofs of both conditions are about this single case. -/

variable [EquivBEq α] [LawfulHashable α]

/-- Adds a member behind all others, unless it is there already. -/
def add (s : OrderedSet α) (a : α) : OrderedSet α :=
  if h : s.contains a then s
  else
    { items := s.items.push a
      index := s.index.insert a
      distinct := by
        rw [Array.toList_push, List.pairwise_append]
        refine ⟨s.distinct, List.pairwise_singleton _ _, fun x hx y hy => ?_⟩
        rw [List.mem_singleton] at hy
        subst hy
        rw [contains_eq_any, List.any_eq_true] at h
        exact Bool.eq_false_iff.mpr fun hxy => h ⟨x, hx, hxy⟩
      indexed := by
        intro b
        rw [Std.HashSet.contains_insert, s.indexed b, Array.toList_push, List.any_append,
          List.any_cons, List.any_nil, Bool.or_false, Bool.or_comm] }

theorem toList_add (s : OrderedSet α) (a : α) :
    (s.add a).toList = if s.contains a then s.toList else s.toList ++ [a] := by
  by_cases there : s.contains a = true
  · rw [add, dif_pos there, if_pos there]
  · rw [add, dif_neg there, if_neg there]
    exact Array.toList_push

def extend (s : OrderedSet α) (items : List α) : OrderedSet α := items.foldl add s

def ofList (items : List α) : OrderedSet α := extend empty items

/-! ## Taking away

Members are removed from the index one by one, and the array is replaced by what is kept. `split`
asks only that both parts together are the members in some order, which is shown for tests and for
ranges of places. -/

/-- What an index holds after some members were taken out of it. -/
theorem contains_foldl_erase (removed : List α) (index : Std.HashSet α) (a : α) :
    (removed.foldl (fun i x => i.erase x) index).contains a
      = (index.contains a && !(removed.any (· == a))) := by
  induction removed generalizing index with
  | nil => simp
  | cons x rest ih =>
    rw [List.foldl_cons, ih, Std.HashSet.contains_erase, List.any_cons]
    cases x == a <;> cases index.contains a <;> simp

/-- Keeps some members and takes the others away. -/
def split (s : OrderedSet α) (kept removed : List α)
    (all : (kept ++ removed).Perm s.items.toList) : OrderedSet α :=
  have apart : (kept ++ removed).Pairwise fun a b => (a == b) = false :=
    (all.pairwise_iff fun {x y} h => by
      rw [Bool.eq_false_iff] at h ⊢
      exact fun hyx => h (BEq.symm hyx)).mpr s.distinct
  { items := kept.toArray
    index := removed.foldl (fun i x => i.erase x) s.index
    distinct := (List.pairwise_append.mp apart).1
    indexed := by
      intro a
      have cross := (List.pairwise_append.mp apart).2.2
      have same : s.items.toList.any (· == a) = (kept ++ removed).any (· == a) := by
        rw [Bool.eq_iff_iff, List.any_eq_true, List.any_eq_true]
        exact ⟨fun ⟨x, hx, h⟩ => ⟨x, all.mem_iff.mpr hx, h⟩,
          fun ⟨x, hx, h⟩ => ⟨x, all.mem_iff.mp hx, h⟩⟩
      rw [contains_foldl_erase, s.indexed a, same, List.any_append]
      show _ = kept.any (· == a)
      -- Something equal to both a kept and a removed member would make these two equal, and no two
      -- members are.
      cases hk : kept.any (· == a) <;> cases hr : removed.any (· == a) <;> simp
      obtain ⟨x, hx, hxa⟩ := List.any_eq_true.mp hk
      obtain ⟨y, hy, hya⟩ := List.any_eq_true.mp hr
      have := cross x hx y hy
      rw [Bool.eq_false_iff] at this
      exact this (BEq.trans hxa (BEq.symm hya)) }

omit [BEq α] [Hashable α] [EquivBEq α] [LawfulHashable α] in
/-- The items that pass a test and those that do not are all items. -/
theorem filter_append_filter_not_perm (test : α → Bool) (items : List α) :
    (items.filter test ++ items.filter fun a => !test a).Perm items := by
  induction items with
  | nil => simp
  | cons a rest ih =>
    by_cases h : test a = true
    · simpa [h] using ih
    · simp only [Bool.not_eq_true] at h
      simpa [h] using List.perm_middle.trans (List.Perm.cons a ih)

def retain (s : OrderedSet α) (test : α → Bool) : OrderedSet α :=
  s.split (s.toList.filter test) (s.toList.filter fun a => !test a)
    (filter_append_filter_not_perm test s.toList)

omit [BEq α] [Hashable α] [EquivBEq α] [LawfulHashable α] in
/-- The places before and behind a range, and those in it, are all places. -/
theorem take_drop_perm (items : List α) (start stop : Nat) (h : start ≤ stop) :
    ((items.take start ++ items.drop stop) ++ (items.take stop).drop start).Perm items := by
  have before : (items.take stop).take start = items.take start := by
    rw [List.take_take, Nat.min_eq_left h]
  have whole : items.take start ++ ((items.take stop).drop start ++ items.drop stop) = items := by
    rw [← before, ← List.append_assoc, List.take_append_drop, List.take_append_drop]
  refine List.Perm.trans ?_ (List.Perm.of_eq whole)
  rw [List.append_assoc]
  exact List.Perm.append_left _ List.perm_append_comm

/-- Takes away the members at places from `start` on and before `stop`. -/
def removeBetween (s : OrderedSet α) (start stop : Nat) (h : start ≤ stop) : OrderedSet α :=
  s.split (s.toList.take start ++ s.toList.drop stop) ((s.toList.take stop).drop start)
    (take_drop_perm s.toList start stop h)

/-- Takes away the members in a range, of which as much counts as lies within the set; gives these
members, too. -/
def removeRange (s : OrderedSet α) (lo hi : Bound) : List α × OrderedSet α :=
  let start := min lo.first s.size
  -- A range that ends before it begins takes nothing away.
  let stop := max start (min (hi.behind s.size) s.size)
  ((s.toList.take stop).drop start, s.removeBetween start stop (Nat.le_max_left _ _))

/-- Takes away the member that is equal to `a`; says whether there was one. -/
def discard (s : OrderedSet α) (a : α) : Bool × OrderedSet α :=
  if s.contains a then (true, s.retain fun x => !(x == a)) else (false, s)

def remove (s : OrderedSet α) (a : α) : Except SetError (OrderedSet α) :=
  match s.discard a with
  | (true, s) => .ok s
  | (false, _) => .error .notFound

/-- Takes away the member at a place; gives it, too. -/
def removeAt (s : OrderedSet α) (place : Nat) : Option α × OrderedSet α :=
  match s.get? place with
  | some a => (some a, s.removeBetween place (place + 1) (Nat.le_succ place))
  | none => (none, s)

/-- Takes away the last member; gives it, too. -/
def pop (s : OrderedSet α) : Option α × OrderedSet α :=
  if s.isEmpty then (none, s) else s.removeAt (s.size - 1)

/-! ## Comparing

All three questions go over the members of one set and ask the index of the other. Equality needs
the sizes besides, for then one inclusion is enough. -/

def isSubset (a b : OrderedSet α) : Bool := a.items.all b.contains

def isSuperset (a b : OrderedSet α) : Bool := b.isSubset a

def isDisjoint (a b : OrderedSet α) : Bool := a.items.all fun x => !b.contains x

/-- Sets are equal if they have the same members, in whatever order. -/
instance : BEq (OrderedSet α) := ⟨fun a b => a.size == b.size && a.isSubset b⟩

end OrderedSet

end Dns
