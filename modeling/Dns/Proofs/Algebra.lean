import Dns.Set.Algebra
import Dns.Proofs.Members

/-!
# The algebra of set-like values, step by step

The operations on set-like values are functions that make a new value. Here they stand as programs
that change a value in place, which is how a failure could leave something behind: `updateInPlace`
asks about every item that is offered and adds one after the other, `differenceInPlace` discards one
member of the other operand after the other, and `symmetricDifferenceInPlace` puts the two together
with an overlap that is taken first.

The programs agree with the functions. Where they add, they come to the very value or leave
everything as it was (`allOrNothing`). Where members are discarded one by one the value has the same
members in the same order, but the index beside them may have become another one on the way, so this
is said of the list of members.

For that, a value has to be one whose members are really put in by `withMembers`, and beside which
nothing else is changed by that: `LawfulSetLike`. Whether something may be a member is not for the
members to say either.

Each of the lemmas `…InPlace_eq` says what one program comes to, and nothing that is built upon them
looks into a program again. What an error leaves behind is part of it, since `allOrNothing` names
the value that is left.
-/

set_option autoImplicit false

namespace Dns

/-- A value of which the members are one part, and the check looks at the others. -/
class LawfulSetLike (σ : Type) (ε : outParam Type) (α : outParam Type) [BEq α] [Hashable α]
    [SetLike σ ε α] : Prop where
  members_withMembers : ∀ (s : σ) (m : OrderedSet α),
    SetLike.members (SetLike.withMembers s m) = m
  withMembers_withMembers : ∀ (s : σ) (m m' : OrderedSet α),
    SetLike.withMembers (SetLike.withMembers s m) m' = SetLike.withMembers s m'
  withMembers_members : ∀ s : σ, SetLike.withMembers s (SetLike.members s) = s
  check_withMembers : ∀ (s : σ) (m : OrderedSet α) (a : α),
    SetLike.check (SetLike.withMembers s m) a = SetLike.check s a

instance {α : Type} [BEq α] [Hashable α] : LawfulSetLike (OrderedSet α) Empty α where
  members_withMembers _ _ := rfl
  withMembers_withMembers _ _ _ := rfl
  withMembers_members _ := rfl
  check_withMembers _ _ _ := rfl

/-- What a program comes to that does all of something or nothing. -/
def allOrNothing {ε σ : Type} (before : σ) : Except ε σ → EStateM.Result ε σ Unit
  | .ok after => .ok () after
  | .error e => .error e before

namespace SetLike

variable {σ τ ε ε' α : Type} [BEq α] [Hashable α]

/-- Two values that differ in the index beside their members at most. -/
def Alike [SetLike σ ε α] (a b : σ) : Prop :=
  (∃ m, a = withMembers b m) ∧ (members a).toList = (members b).toList

/-! ## Programs

Two instructions are enough: to ask whether something may be a member, and to change the members. A
program that asks first can fail only before it has changed anything. Each of the in-place
operations is such a program, and what it comes to is shown to be what the operation that makes a
new set comes to. -/

section Programs

variable [SetLike σ ε α] [SetLike τ ε' α]

/-- Fails if something may not be a member. -/
def ask (a : α) : EStateM ε σ Unit := do
  match check (← get) a with
  | .ok _ => return ()
  | .error e => throw e

/-- Changes the members and nothing else. -/
def change (f : OrderedSet α → OrderedSet α) : EStateM ε σ Unit :=
  modify fun s => withMembers s (f (members s))

variable [EquivBEq α] [LawfulHashable α]

/-- Asks about all items, and then adds them. -/
def updateInPlace (items : List α) : EStateM ε σ Unit := do
  items.forM ask
  items.forM fun a => change fun m => m.add a

def unionInPlace (t : τ) : EStateM ε σ Unit := updateInPlace (members t).toList

def intersectionInPlace (t : τ) : EStateM ε σ Unit := change fun m => m.retain (members t).contains

/-- Discards the members of another value. -/
def differenceInPlace (t : τ) : EStateM ε σ Unit :=
  (members t).toList.forM fun a => change fun m => (m.discard a).2

/-- The overlap is a value of its own, made before the union adds to the members. -/
def symmetricDifferenceInPlace (t : τ) : EStateM ε σ Unit := do
  let overlap := intersection (← get) t
  unionInPlace t
  differenceInPlace overlap

end Programs

/-! ## Asking -/

section Asking

variable [SetLike σ ε α]

theorem ask_eq (a : α) (s : σ) :
    (ask a : EStateM ε σ Unit) s = allOrNothing s ((check s a).map fun _ => s) := by
  unfold ask
  show (match check s a with
    | .ok _ => (return () : EStateM ε σ Unit)
    | .error e => throw e) s = _
  cases check s a <;> rfl

theorem forM_ask (items : List α) (s : σ) :
    (items.forM ask : EStateM ε σ Unit) s = allOrNothing s ((checkAll s items).map fun _ => s) := by
  induction items with
  | nil => rfl
  | cons a rest ih =>
    show EStateM.bind (ask a) (fun _ => rest.forM ask) s = _
    unfold EStateM.bind
    rw [ask_eq, checkAll]
    cases check s a with
    | ok _ => exact ih
    | error e => rfl

theorem checkAll_ok {s : σ} {items : List α} (all : ∀ a ∈ items, check s a = .ok ()) :
    checkAll s items = .ok () := by
  induction items with
  | nil => rfl
  | cons a rest ih =>
    rw [checkAll, all a List.mem_cons_self]
    exact ih fun b mem => all b (List.mem_cons_of_mem a mem)

/-- If there is one objection only, it is made as soon as there is an item for it. -/
theorem checkAll_error {s : σ} {items : List α} {e : ε} {a : α} (mem : a ∈ items)
    (refused : check s a = .error e) (only : ∀ b, check s b = .ok () ∨ check s b = .error e) :
    checkAll s items = .error e := by
  induction items with
  | nil => cases mem
  | cons b rest ih =>
    rw [checkAll]
    rcases only b with fine | objected
    · rw [fine]
      rcases List.mem_cons.mp mem with rfl | later
      · rw [refused] at fine
        cases fine
      · exact ih later
    · rw [objected]

end Asking

/-! ## Changing

Changes of members compose. A loop of them is one change by a fold, and what is said of folds over
ordered sets is all that is needed. -/

section Changing

variable [SetLike σ ε α] [LawfulSetLike σ ε α]

open LawfulSetLike

/-- Changes that are made one after the other are one change. -/
theorem forM_change (f : α → OrderedSet α → OrderedSet α) (items : List α) (s : σ) :
    (items.forM fun a => (change (f a) : EStateM ε σ Unit)) s
      = .ok () (withMembers s (items.foldl (fun m a => f a m) (members s))) := by
  induction items generalizing s with
  | nil =>
    rw [List.foldl_nil, withMembers_members]
    rfl
  | cons a rest ih =>
    -- The first change is what the others find, and is overwritten by theirs.
    have later := ih (withMembers s (f a (members s)))
    rw [members_withMembers, withMembers_withMembers] at later
    exact later

variable [SetLike τ ε' α] [EquivBEq α] [LawfulHashable α]

theorem updateInPlace_eq (items : List α) (s : σ) :
    (updateInPlace items : EStateM ε σ Unit) s = allOrNothing s (update s items) := by
  unfold updateInPlace update
  show EStateM.bind (items.forM ask) (fun _ => items.forM fun a => change fun m => m.add a) s = _
  unfold EStateM.bind
  rw [forM_ask]
  cases checkAll s items with
  | ok _ => exact forM_change (fun a m => m.add a) items s
  | error e => rfl

theorem unionInPlace_eq (t : τ) (s : σ) :
    (unionInPlace t : EStateM ε σ Unit) s = allOrNothing s (union s t) :=
  updateInPlace_eq (members t).toList s

omit [LawfulSetLike σ ε α] in
theorem intersectionInPlace_eq (t : τ) (s : σ) :
    (intersectionInPlace t : EStateM ε σ Unit) s = .ok () (intersection s t) := rfl

omit [SetLike σ ε α] [LawfulSetLike σ ε α] [SetLike τ ε' α] in
theorem toList_foldl_discard (gone : List α) (m : OrderedSet α) :
    (gone.foldl (fun m a => (m.discard a).2) m).toList
      = m.toList.filter fun a => !gone.any (· == a) := by
  induction gone generalizing m with
  | nil => simp
  | cons a rest ih =>
    rw [List.foldl_cons, ih, OrderedSet.toList_discard, List.filter_filter]
    congr 1
    funext x
    rw [List.any_cons, Bool.not_or, Bool.and_comm, BEq.comm]

/-- Members that are discarded one by one are those that are not kept. -/
theorem differenceInPlace_eq (t : τ) (s : σ) : ∃ after,
    (differenceInPlace t : EStateM ε σ Unit) s = .ok () after ∧ Alike after (difference s t) := by
  refine ⟨_, forM_change (fun a m => (m.discard a).2) _ s, ?_, ?_⟩
  · unfold difference
    exact ⟨_, (withMembers_withMembers s _ _).symm⟩
  · unfold difference
    rw [members_withMembers, members_withMembers, toList_foldl_discard, OrderedSet.toList_retain]
    congr 1
    funext x
    rw [OrderedSet.contains_eq_any]

/-- The overlap is one of the members before, and only these are looked at for it. -/
theorem symmetricDifference_of_union {t : τ} {s : σ} {m : OrderedSet α}
    (united : union s t = .ok (withMembers s m)) :
    symmetricDifference s t = .ok (withMembers s (m.retain fun a =>
      !((members s).retain (members t).contains).contains a)) := by
  unfold symmetricDifference
  rw [united]
  show Except.ok (difference (withMembers s m) (intersection s t)) = _
  unfold difference intersection
  rw [withMembers_withMembers, members_withMembers, members_withMembers]

theorem symmetricDifferenceInPlace_eq (t : τ) (s : σ) :
    match symmetricDifference s t with
    | .ok result => ∃ after, (symmetricDifferenceInPlace t : EStateM ε σ Unit) s = .ok () after ∧
        Alike after result
    | .error e => (symmetricDifferenceInPlace t : EStateM ε σ Unit) s = .error e s := by
  have run : (symmetricDifferenceInPlace t : EStateM ε σ Unit) s
      = EStateM.bind (unionInPlace t) (fun _ => differenceInPlace (intersection s t)) s := rfl
  rw [run]
  unfold EStateM.bind symmetricDifference
  rw [unionInPlace_eq]
  cases union s t with
  | error e => rfl
  -- The overlap is that of the value before, on both sides.
  | ok both => exact differenceInPlace_eq (intersection s t) both

end Changing

end SetLike

end Dns
