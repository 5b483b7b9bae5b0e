import Dns.Set.Ordered

/-!
# The algebra of set-like values

An ordered set, and a value that wraps one together with other things, support the same operations.
`SetLike` says what they need: the members, a way to put other members in their place, and a check
whether something may become a member at all.

Whatever operands are mixed, the result is a value of the receiver's kind, its members come in the
receiver's order before those of the other operand, and of equal members the receiver's stays.
Operations that add check everything that is offered before they add anything, so they either do
all of it or nothing; operations that only take away cannot fail.
-/

set_option autoImplicit false

namespace Dns

/-- A value with members of type `α`; `ε` says why something may not be a member. -/
class SetLike (σ : Type) (ε : outParam Type) (α : outParam Type) [BEq α] [Hashable α] where
  members : σ → OrderedSet α
  withMembers : σ → OrderedSet α → σ
  /-- Whether something may be a member. -/
  check : σ → α → Except ε Unit

namespace SetLike

variable {σ τ ε ε' α : Type} [BEq α] [Hashable α]

/-- The first objection to any of some items. -/
def checkAll [SetLike σ ε α] (s : σ) : List α → Except ε Unit
  | [] => .ok ()
  | a :: rest =>
    match check s a with
    | .ok _ => checkAll s rest
    | .error e => .error e

variable [EquivBEq α] [LawfulHashable α]

/-- Adds items if all of them may be members. -/
def update [SetLike σ ε α] (s : σ) (items : List α) : Except ε σ :=
  match checkAll s items with
  | .ok _ => .ok (withMembers s ((members s).extend items))
  | .error e => .error e

def union [SetLike σ ε α] [SetLike τ ε' α] (s : σ) (t : τ) : Except ε σ :=
  update s (members t).toList

def intersection [SetLike σ ε α] [SetLike τ ε' α] (s : σ) (t : τ) : σ :=
  withMembers s ((members s).retain (members t).contains)

def difference [SetLike σ ε α] [SetLike τ ε' α] (s : σ) (t : τ) : σ :=
  withMembers s ((members s).retain fun a => !(members t).contains a)

/-- What is a member of one of two values only: their union without what they have in common. -/
def symmetricDifference [SetLike σ ε α] [SetLike τ ε' α] (s : σ) (t : τ) : Except ε σ :=
  let overlap := intersection s t
  match union s t with
  | .ok both => .ok (difference both overlap)
  | .error e => .error e

def isSubset [SetLike σ ε α] [SetLike τ ε' α] (s : σ) (t : τ) : Bool :=
  (members s).isSubset (members t)

def isSuperset [SetLike σ ε α] [SetLike τ ε' α] (s : σ) (t : τ) : Bool :=
  (members s).isSuperset (members t)

def isDisjoint [SetLike σ ε α] [SetLike τ ε' α] (s : σ) (t : τ) : Bool :=
  (members s).isDisjoint (members t)

end SetLike

namespace OrderedSet

variable {α : Type} [BEq α] [Hashable α]

/-- Everything may be a member of an ordered set. -/
instance : SetLike (OrderedSet α) Empty α where
  members s := s
  withMembers _ t := t
  check _ _ := .ok ()

/-- The value of a computation that cannot fail. -/
def always {β : Type} : Except Empty β → β
  | .ok b => b

variable [EquivBEq α] [LawfulHashable α]

def union (a b : OrderedSet α) : OrderedSet α := always (SetLike.union a b)

/-- The members of two sets that they have in common. -/
def intersection (a b : OrderedSet α) : OrderedSet α := SetLike.intersection a b

/-- The members of one set that another one has not. -/
def difference (a b : OrderedSet α) : OrderedSet α := SetLike.difference a b

/-- The members that two sets do not have in common. -/
def symmetricDifference (a b : OrderedSet α) : OrderedSet α :=
  always (SetLike.symmetricDifference a b)

/-! ## Operators -/

instance : OrOp (OrderedSet α) := ⟨union⟩

instance : Add (OrderedSet α) := ⟨union⟩

instance : AndOp (OrderedSet α) := ⟨intersection⟩

instance : Sub (OrderedSet α) := ⟨difference⟩

instance : XorOp (OrderedSet α) := ⟨symmetricDifference⟩

end OrderedSet

end Dns
