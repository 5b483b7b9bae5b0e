import Dns.Proofs.Algebra

/-!
# Combining ordered sets

Four operations combine two ordered sets. What they come to is told of the members as lists
(`SetOperation.onLists`), and from it whether something is a member of the result
(`OrderedSet.contains_combine`), which is all that the laws of sets are about. Of members that are
equal that of the first set stays, whatever the operation (`SetOperation.onLists_keeps`).

So there are two descriptions, and each is used where it is enough. The lists tell the order and
which of two equal members stays, and with these the operations are not commutative: a union has the
members of the first set in front, and an overlap has them alone. Up to `==`, which asks for the
same members and not for their order, the laws hold as one expects, and each is a table of two or
three truth values (`SetOperation.holds`).

The symmetric difference is not a function of the lists in one step. It is a union from which the
overlap is taken out again, and that this comes to the two differences one behind the other is
`OrderedSet.toList_symmetricDifference`.

Sizes are compared by counting: of two lists of distinct items as many are equal to one of the other
on both sides (`length_filter_any`), though the two lists of them may be different.
-/

set_option autoImplicit false

namespace Dns

/-- What can be made of two sets. -/
inductive SetOperation where
  | union
  | intersection
  | difference
  | symmetricDifference

/-- What it is written with. -/
inductive SetOperator where
  | bar
  | plus
  | ampersand
  | minus
  | caret

namespace SetOperator

def operation : SetOperator → SetOperation
  | bar => .union
  | plus => .union
  | ampersand => .intersection
  | minus => .difference
  | caret => .symmetricDifference

end SetOperator

section Members

variable {α : Type} [BEq α]

/-- The members of the result: first those of one set in their order, then those of the other. -/
def SetOperation.onLists (ones others : List α) : SetOperation → List α
  | .union => ones ++ others.filter fun x => !ones.any (· == x)
  | .intersection => ones.filter fun x => others.any (· == x)
  | .difference => ones.filter fun x => !others.any (· == x)
  | .symmetricDifference => (ones.filter fun x => !others.any (· == x))
      ++ others.filter fun x => !ones.any (· == x)

/-- Whether something is a member of the result, by whether it is one of either set. -/
def SetOperation.holds (one other : Bool) : SetOperation → Bool
  | .union => one || other
  | .intersection => one && other
  | .difference => one && !other
  | .symmetricDifference => one ^^ other

variable [EquivBEq α]

theorem SetOperation.any_onLists (op : SetOperation) (ones others : List α) (a : α) :
    (op.onLists ones others).any (· == a)
      = op.holds (ones.any (· == a)) (others.any (· == a)) := by
  cases op with
  | union =>
    rw [onLists, List.any_append, any_filter_not_any, holds]
    cases ones.any (· == a) <;> cases others.any (· == a) <;> rfl
  | intersection => exact any_filter_any ones others a
  | difference => exact any_filter_not_any ones others a
  | symmetricDifference =>
    rw [onLists, List.any_append, any_filter_not_any, any_filter_not_any, holds]
    cases ones.any (· == a) <;> cases others.any (· == a) <;> rfl

/-- Of distinct items, equal ones are the same. -/
theorem eq_of_distinct {items : List α} (distinct : items.Pairwise fun a b => (a == b) = false)
    {x y : α} (first : x ∈ items) (second : y ∈ items) (equal : (y == x) = true) : y = x := by
  induction distinct with
  | nil => cases first
  | cons apart _ ih =>
    rcases List.mem_cons.mp first with rfl | later <;>
      rcases List.mem_cons.mp second with rfl | later'
    · rfl
    · have unequal := apart y later'
      rw [BEq.symm equal] at unequal
      cases unequal
    · have unequal := apart x later
      rw [equal] at unequal
      cases unequal
    · exact ih later later'

/-- What is equal to one of the first items is that item. -/
theorem SetOperation.onLists_keeps (op : SetOperation) {ones others : List α}
    (distinct : ones.Pairwise fun a b => (a == b) = false) {x y : α} (first : x ∈ ones)
    (mem : y ∈ op.onLists ones others) (equal : (y == x) = true) : y = x := by
  -- What is in the result comes from the first list, or from the second one if it is new there.
  have own : ∀ {test : α → Bool}, y ∈ ones.filter test → y = x :=
    fun mem => eq_of_distinct distinct first (List.mem_filter.mp mem).1 equal
  have new : y ∈ others.filter (fun x => !ones.any (· == x)) → y = x := by
    intro mem
    have there : ones.any (· == y) = true := List.any_eq_true.mpr ⟨x, first, BEq.symm equal⟩
    have passes := (List.mem_filter.mp mem).2
    rw [there] at passes
    cases passes
  cases op with
  | union =>
    rcases List.mem_append.mp mem with one | other
    · exact eq_of_distinct distinct first one equal
    · exact new other
  | intersection => exact own mem
  | difference => exact own mem
  | symmetricDifference =>
    rcases List.mem_append.mp mem with one | other
    · exact own one
    · exact new other

/-- Of two lists of distinct items as many are equal to one of the other. -/
theorem length_filter_any {ones others : List α}
    (distinct : ones.Pairwise fun a b => (a == b) = false)
    (distinct' : others.Pairwise fun a b => (a == b) = false) :
    (ones.filter fun x => others.any (· == x)).length
      = (others.filter fun x => ones.any (· == x)).length := by
  have fewer : ∀ {ones others : List α}, (ones.Pairwise fun a b => (a == b) = false) →
      (ones.filter fun x => others.any (· == x)).length
        ≤ (others.filter fun x => ones.any (· == x)).length := by
    intro ones others distinct
    apply length_le_of_forall (distinct.filter _)
    intro x mem
    obtain ⟨there, other⟩ := List.mem_filter.mp mem
    rw [any_filter_any, other, Bool.true_and]
    exact List.any_eq_true.mpr ⟨x, there, BEq.rfl⟩
  exact Nat.le_antisymm (fewer distinct) (fewer distinct')

/-- What two lists have together and what they have in common is as much as what each of them
has. -/
theorem SetOperation.length_onLists {ones others : List α}
    (distinct : ones.Pairwise fun a b => (a == b) = false)
    (distinct' : others.Pairwise fun a b => (a == b) = false) :
    (onLists ones others .union).length + (onLists ones others .intersection).length
      = ones.length + others.length := by
  have parts := List.length_eq_length_filter_add (l := others) fun x => ones.any (· == x)
  have common := length_filter_any distinct distinct'
  rw [onLists, onLists, List.length_append]
  omega

end Members

namespace OrderedSet

variable {α : Type} [BEq α] [Hashable α] [EquivBEq α] [LawfulHashable α]

/-- The value of an operation. -/
def combine (a b : OrderedSet α) : SetOperation → OrderedSet α
  | .union => a.union b
  | .intersection => a.intersection b
  | .difference => a.difference b
  | .symmetricDifference => a.symmetricDifference b

/-- The value of what is written with an operator. -/
def operate (a b : OrderedSet α) : SetOperator → OrderedSet α
  | .bar => a ||| b
  | .plus => a + b
  | .ampersand => a &&& b
  | .minus => a - b
  | .caret => a ^^^ b

theorem contains_add_of_ne {s : OrderedSet α} {a x : α} (unequal : (a == x) = false) :
    (s.add a).contains x = s.contains x := by
  rw [contains_eq_any, contains_eq_any, toList_add]
  split
  · rfl
  · rw [List.any_append, List.any_cons, List.any_nil, unequal, Bool.or_false, Bool.or_false]

/-- If no two of some items are equal, those arrive that were not there before. -/
theorem arrivals_of_distinct {items : List α}
    (distinct : items.Pairwise fun a b => (a == b) = false) (s : OrderedSet α) :
    s.arrivals items = items.filter fun x => !s.contains x := by
  induction distinct generalizing s with
  | nil => rfl
  | cons apart distinct ih =>
    rename_i a rest
    rw [arrivals, List.filter_cons]
    by_cases there : s.contains a = true
    · rw [if_pos there, there, ih]
      rfl
    · rw [if_neg there, Bool.eq_false_iff.mpr there, ih]
      have same : (rest.filter fun x => !(s.add a).contains x)
          = rest.filter fun x => !s.contains x :=
        List.filter_congr fun x mem => congrArg not (contains_add_of_ne (apart x mem))
      rw [same]
      rfl

/-- Everything may be a member, so that a union is never refused. -/
theorem union_ok (a b : OrderedSet α) : SetLike.union a b = .ok (a.extend b.toList) := by
  have fine : SetLike.checkAll a b.toList = .ok () := SetLike.checkAll_ok fun _ _ => rfl
  show SetLike.update a b.toList = _
  unfold SetLike.update
  rw [fine]
  rfl

theorem union_eq (a b : OrderedSet α) : a.union b = a.extend b.toList := by
  rw [union, union_ok]
  rfl

theorem symmetricDifference_eq (a b : OrderedSet α) :
    a.symmetricDifference b = (a.union b).difference (a.intersection b) := by
  rw [union_eq, symmetricDifference, SetLike.symmetricDifference, union_ok]
  rfl

theorem toList_union (a b : OrderedSet α) :
    (a.union b).toList = SetOperation.onLists a.toList b.toList .union := by
  have distinct : b.toList.Pairwise fun x y => (x == y) = false := b.distinct
  rw [union_eq, toList_extend, arrivals_of_distinct distinct]
  simp only [contains_eq_any]
  rfl

theorem toList_intersection (a b : OrderedSet α) :
    (a.intersection b).toList = SetOperation.onLists a.toList b.toList .intersection := by
  show a.toList.filter b.contains = _
  rw [funext b.contains_eq_any]
  rfl

theorem toList_difference (a b : OrderedSet α) :
    (a.difference b).toList = SetOperation.onLists a.toList b.toList .difference := by
  show (a.toList.filter fun x => !b.contains x) = _
  simp only [contains_eq_any]
  rfl

/-- Of the union those are left that are not in the overlap, which has of each set what the other
one has, too. -/
theorem toList_symmetricDifference (a b : OrderedSet α) :
    (a.symmetricDifference b).toList
      = SetOperation.onLists a.toList b.toList .symmetricDifference := by
  have overlap : ∀ x, (SetOperation.onLists a.toList b.toList .intersection).any (· == x)
      = (a.toList.any (· == x) && b.toList.any (· == x)) := by
    intro x
    exact SetOperation.any_onLists .intersection _ _ x
  have ones : (a.toList.filter fun x => !(a.toList.any (· == x) && b.toList.any (· == x)))
      = a.toList.filter fun x => !b.toList.any (· == x) := by
    apply List.filter_congr
    intro x mem
    have there : a.toList.any (· == x) = true := List.any_eq_true.mpr ⟨x, mem, BEq.rfl⟩
    rw [there, Bool.true_and]
  have others : ((b.toList.filter fun x => !a.toList.any (· == x)).filter
      fun x => !(a.toList.any (· == x) && b.toList.any (· == x)))
        = b.toList.filter fun x => !a.toList.any (· == x) := by
    apply List.filter_eq_self.mpr
    intro x mem
    have new := (List.mem_filter.mp mem).2
    rw [Bool.not_eq_true'] at new
    rw [new]
    rfl
  -- The overlap is taken out of both halves of the union. In the first half it leaves what the
  -- other set does not have, and in the second one there was nothing of it.
  calc (a.symmetricDifference b).toList
      = (SetOperation.onLists a.toList b.toList .union).filter fun x =>
          !(SetOperation.onLists a.toList b.toList .intersection).any (· == x) := by
        rw [symmetricDifference_eq, toList_difference, toList_union, toList_intersection]
        rfl
    _ = (SetOperation.onLists a.toList b.toList .union).filter fun x =>
          !(a.toList.any (· == x) && b.toList.any (· == x)) := by simp only [overlap]
    _ = _ := by
        rw [SetOperation.onLists, List.filter_append, ones, others]
        rfl

theorem toList_combine (op : SetOperation) (a b : OrderedSet α) :
    (a.combine b op).toList = op.onLists a.toList b.toList := by
  cases op with
  | union => exact a.toList_union b
  | intersection => exact a.toList_intersection b
  | difference => exact a.toList_difference b
  | symmetricDifference => exact a.toList_symmetricDifference b

theorem contains_combine (op : SetOperation) (a b : OrderedSet α) (x : α) :
    (a.combine b op).contains x = op.holds (a.contains x) (b.contains x) := by
  rw [contains_eq_any, toList_combine, op.any_onLists, contains_eq_any, contains_eq_any]

/-! ## Relations

Relations are asked of the members, and stated for everything that is contained, which may be only
equal to a member. The test has to be the same for both. From here on a set is known by what it
contains, and two sets that contain the same are equal. -/

omit [LawfulHashable α] in
/-- If a test does not tell equal items apart, all members pass it exactly if all that is contained
does. -/
theorem forall_mem_iff (s : OrderedSet α) {test : α → Bool}
    (respects : ∀ a b, (a == b) = true → test a = test b) :
    (∀ x ∈ s.toList, test x = true) ↔ ∀ x, s.contains x = true → test x = true := by
  constructor
  · intro all x there
    obtain ⟨y, mem, equal⟩ := (s.contains_iff x).mp there
    rw [← respects y x equal]
    exact all y mem
  · intro all x mem
    exact all x ((s.contains_iff x).mpr ⟨x, mem, BEq.rfl⟩)

omit [LawfulHashable α] in
theorem isSubset_iff_contains (a b : OrderedSet α) :
    a.isSubset b = true ↔ ∀ x, a.contains x = true → b.contains x = true := by
  rw [isSubset_iff, a.forall_mem_iff fun _ _ equal => b.contains_congr equal]

omit [LawfulHashable α] in
theorem isDisjoint_iff (a b : OrderedSet α) :
    a.isDisjoint b = true ↔ ∀ x, a.contains x = true → b.contains x = false := by
  unfold isDisjoint
  rw [← Array.all_toList, List.all_eq_true]
  simp only [← Bool.not_eq_true']
  exact a.forall_mem_iff fun _ _ equal => congrArg not (b.contains_congr equal)

/-! ## Laws -/

/-- What is known of three sets and of what is made of them. -/
structure Laws (a b c : OrderedSet α) : Prop where
  /-- The members of a result are those of the lists, in their order. -/
  in_order : ∀ op : SetOperation, (a.combine b op).toList = op.onLists a.toList b.toList
  /-- What is equal to a member of the first set is this member. -/
  keeps : ∀ op : SetOperation, ∀ x ∈ a.toList, ∀ y ∈ (a.combine b op).toList,
    (y == x) = true → y = x
  /-- What is written with an operator is what the operation makes. -/
  operators : ∀ o : SetOperator, a.operate b o = a.combine b o.operation
  subset_iff : a.isSubset b = true ↔ ∀ x, a.contains x = true → b.contains x = true
  superset_iff : a.isSuperset b = true ↔ ∀ x, b.contains x = true → a.contains x = true
  disjoint_iff : a.isDisjoint b = true ↔ ∀ x, a.contains x = true → b.contains x = false
  xor_parts : ((a ^^^ b) == ((a - b) ||| (b - a))) = true
  or_comm : ((a ||| b) == (b ||| a)) = true
  or_assoc : (((a ||| b) ||| c) == (a ||| (b ||| c))) = true
  xor_comm : ((a ^^^ b) == (b ^^^ a)) = true
  xor_assoc : (((a ^^^ b) ^^^ c) == (a ^^^ (b ^^^ c))) = true
  /-- The union and the overlap are as large as the two sets. -/
  sizes : (a ||| b).size + (a &&& b).size = a.size + b.size

theorem operate_eq (a b : OrderedSet α) (o : SetOperator) :
    a.operate b o = a.combine b o.operation := by
  cases o <;> rfl

theorem contains_or (a b : OrderedSet α) (x : α) :
    (a ||| b).contains x = (a.contains x || b.contains x) :=
  contains_combine .union a b x

theorem contains_sub (a b : OrderedSet α) (x : α) :
    (a - b).contains x = (a.contains x && !b.contains x) :=
  contains_combine .difference a b x

theorem contains_xor (a b : OrderedSet α) (x : α) :
    (a ^^^ b).contains x = (a.contains x ^^ b.contains x) :=
  contains_combine .symmetricDifference a b x

/-- The laws hold of all sets: what is made of them is known member by member. -/
theorem laws (a b c : OrderedSet α) : Laws a b c where
  in_order op := toList_combine op a b
  keeps op x first y mem equal := by
    rw [toList_combine] at mem
    exact op.onLists_keeps a.distinct first mem equal
  operators := operate_eq a b
  subset_iff := a.isSubset_iff_contains b
  superset_iff := b.isSubset_iff_contains a
  disjoint_iff := a.isDisjoint_iff b
  -- Laws that are equations of sets are compared member by member, where they are laws of `Bool`.
  xor_parts := by
    refine (beq_iff _ _).mpr fun x => ?_
    rw [contains_xor, contains_or, contains_sub, contains_sub]
    cases a.contains x <;> cases b.contains x <;> rfl
  or_comm := by
    refine (beq_iff _ _).mpr fun x => ?_
    rw [contains_or, contains_or, Bool.or_comm]
  or_assoc := by
    refine (beq_iff _ _).mpr fun x => ?_
    rw [contains_or, contains_or, contains_or, contains_or, Bool.or_assoc]
  xor_comm := by
    refine (beq_iff _ _).mpr fun x => ?_
    rw [contains_xor, contains_xor, Bool.xor_comm]
  xor_assoc := by
    refine (beq_iff _ _).mpr fun x => ?_
    rw [contains_xor, contains_xor, contains_xor, contains_xor, Bool.xor_assoc]
  sizes := by
    have lengths := SetOperation.length_onLists a.distinct b.distinct
    rw [← length_toList, ← length_toList, ← length_toList, ← length_toList]
    show (a.union b).toList.length + (a.intersection b).toList.length = _
    rw [toList_union, toList_intersection]
    exact lengths

/-- If no two of some items are equal, they are the members of their set. -/
theorem toList_ofList {items : List α} (distinct : items.Pairwise fun a b => (a == b) = false) :
    (ofList items).toList = items := by
  have new : ∀ x : α, (empty : OrderedSet α).contains x = false := by
    intro x
    rw [contains_eq_any]
    rfl
  rw [ofList, toList_extend, arrivals_of_distinct distinct]
  simp only [new, Bool.not_false]
  exact List.filter_true items

end OrderedSet

end Dns
