import Dns.Proofs.SetOperations
import Dns.Proofs.Stores

/-!
# Combining ordered sets in stores

As the operations on two sets are carried out nothing is combined. A store is cloned, items are
added to it and taken out of it one after the other, and for the symmetric difference there is one
more store, with the overlap, which has to be made before anything is added. Here this is written as
programs over all the stores that there are, and each could change any of them (`Program`).

None does. A program that changes a store in place leaves all the others as they are, and what it
leaves behind stands after them (`Program.Updates`); one that makes a new store changes none
(`Program.Forms`). That the second is the first on a clone is said once for all operations, and the
two that go over the items of the other store, adding or discarding them, have one simulation
(`Program.forM_change_holds`).

The stores of a program are numbered, and a store is never given up. So all that has to be said of
the others is that their list is the beginning of the list afterwards. Operands of a program that
makes a new store may be one and the same; for the ones that change a store the other one has to be
another, because they read it while they write.
-/

set_option autoImplicit false

namespace Dns

/-- A program over stores, each of which has a place. It is stopped where there is no store at a
place, or where a store stops it. -/
abbrev Program (α β : Type) [BEq α] [Hashable α] := StateT (List (Store α)) Option β

namespace Program

variable {α β γ : Type} [BEq α] [Hashable α]

def load (place : Nat) : Program α (Store α) := fun stores => do
  let store ← stores[place]?
  some (store, stores)

/-- Makes a store of its own that holds the same; tells its place. -/
def clone (place : Nat) : Program α Nat := fun stores => do
  let store ← stores[place]?
  some (stores.length, stores ++ [store])

def change (place : Nat) (f : Store α → Option (Store α)) : Program α Unit := fun stores => do
  let store ← stores[place]?
  let next ← f store
  some ((), stores.set place next)

/-- What changes a store in place, done to a clone of it. -/
def copying (update : (place other : Nat) → Program α Unit) (place other : Nat) :
    Program α Nat := do
  let result ← clone place
  update result other
  return result

/-- Everything may be a member, so that nothing is asked about the items before they are added. -/
def unionUpdate (place other : Nat) : Program α Unit := do
  let items := (← load other).items.toList
  items.forM fun a => change place fun store => some (store.add a).2

def intersectionUpdate (place other : Nat) : Program α Unit := do
  let index := (← load other).index
  change place fun store => some (store.retain index.contains)

def differenceUpdate (place other : Nat) : Program α Unit := do
  let items := (← load other).items.toList
  items.forM fun a => change place fun store => do return (← store.discard? a).2

/-- The overlap is taken before the union changes anything. -/
def symmetricDifferenceUpdate (place other : Nat) : Program α Unit := do
  let overlap ← copying intersectionUpdate place other
  unionUpdate place other
  differenceUpdate place overlap

/-- Changes the first store to what the operation makes of both. -/
def update : SetOperation → (place other : Nat) → Program α Unit
  | .union => unionUpdate
  | .intersection => intersectionUpdate
  | .difference => differenceUpdate
  | .symmetricDifference => symmetricDifferenceUpdate

/-- Makes a store of what the operation makes of both; tells its place. -/
def form (op : SetOperation) : (place other : Nat) → Program α Nat := copying (update op)

/-- What is done for an operator that assigns its value to what stands on the left. -/
def assign (o : SetOperator) : (place other : Nat) → Program α Unit := update o.operation

/-- What is done for an operator that has a value of its own. -/
def operate (o : SetOperator) : (place other : Nat) → Program α Nat := form o.operation

/-! ### Runs -/

theorem run_bind {p : Program α β} {f : β → Program α γ} {stores after : List (Store α)} {b : β}
    (ran : p stores = some (b, after)) : (p >>= f) stores = f b after := by
  show (p stores).bind (fun r => f r.1 r.2) = _
  rw [ran]
  rfl

theorem load_eq {place : Nat} {stores : List (Store α)} {store : Store α}
    (here : stores[place]? = some store) : load place stores = some (store, stores) := by
  rw [load, here]
  rfl

theorem clone_eq {place : Nat} {stores : List (Store α)} {store : Store α}
    (here : stores[place]? = some store) :
    clone place stores = some (stores.length, stores ++ [store]) := by
  rw [clone, here]
  rfl

theorem change_eq {place : Nat} {f : Store α → Option (Store α)} {stores : List (Store α)}
    {store next : Store α} (here : stores[place]? = some store) (changed : f store = some next) :
    change place f stores = some ((), stores.set place next) := by
  rw [change, here, Option.bind_eq_bind, Option.bind_some, changed]
  rfl

/-! ### What programs do

A clone stands behind all others, so that whatever is done to it leaves the others alone. This is
the reason why one lemma makes a `Forms` out of every `Updates`. -/

/-- The store at a place holds the members of a set. -/
def HoldsAt (stores : List (Store α)) (place : Nat) (s : OrderedSet α) : Prop :=
  ∃ store, stores[place]? = some store ∧ store.Holds s.toList

/-- A program that changes the first store to what is made of both, and nothing else. -/
def UpdatesAlone (program : (place other : Nat) → Program α Unit)
    (combine : OrderedSet α → OrderedSet α → OrderedSet α) : Prop :=
  ∀ ⦃stores : List (Store α)⦄ ⦃place other : Nat⦄ ⦃a b : OrderedSet α⦄,
    HoldsAt stores place a → HoldsAt stores other b →
    ∃ next, program place other stores = some ((), stores.set place next) ∧
      next.Holds (combine a b).toList

/-- A program that changes the first of two stores to what is made of both, and none of the others
that there are. What it needed besides may stand after them. -/
def Updates (program : (place other : Nat) → Program α Unit)
    (combine : OrderedSet α → OrderedSet α → OrderedSet α) : Prop :=
  ∀ ⦃stores : List (Store α)⦄ ⦃place other : Nat⦄ ⦃a b : OrderedSet α⦄,
    place ≠ other → HoldsAt stores place a → HoldsAt stores other b →
    ∃ next after, program place other stores = some ((), after) ∧
      stores.set place next <+: after ∧ next.Holds (combine a b).toList

/-- A program that makes a new store of what is made of two, and changes none that there is. -/
def Forms (program : (place other : Nat) → Program α Nat)
    (combine : OrderedSet α → OrderedSet α → OrderedSet α) : Prop :=
  ∀ ⦃stores : List (Store α)⦄ ⦃place other : Nat⦄ ⦃a b : OrderedSet α⦄,
    HoldsAt stores place a → HoldsAt stores other b →
    ∃ result after, program place other stores = some (result, after) ∧
      stores <+: after ∧ stores.length ≤ result ∧ HoldsAt after result (combine a b)

section HoldsAt

variable {stores after : List (Store α)} {place other : Nat} {s : OrderedSet α} {next : Store α}

theorem HoldsAt.inside (h : HoldsAt stores place s) : place < stores.length := by
  obtain ⟨_, here, -⟩ := h
  exact (List.getElem?_eq_some_iff.mp here).1

theorem HoldsAt.extended (h : HoldsAt stores place s) (kept : stores <+: after) :
    HoldsAt after place s := by
  obtain ⟨store, here, holds⟩ := h
  obtain ⟨more, rfl⟩ := kept
  refine ⟨store, ?_, holds⟩
  rw [List.getElem?_append_left (List.getElem?_eq_some_iff.mp here).1, here]

theorem HoldsAt.set_self (inside : place < stores.length) (holds : next.Holds s.toList) :
    HoldsAt (stores.set place next) place s :=
  ⟨next, List.getElem?_set_self inside, holds⟩

theorem HoldsAt.set_ne (apart : place ≠ other) (h : HoldsAt stores other s) :
    HoldsAt (stores.set place next) other s := by
  obtain ⟨store, there, holds⟩ := h
  exact ⟨store, (List.getElem?_set_ne apart).trans there, holds⟩

theorem HoldsAt.last (stores : List (Store α)) (holds : next.Holds s.toList) :
    HoldsAt (stores ++ [next]) stores.length s :=
  ⟨next, List.getElem?_concat_length, holds⟩

theorem set_extended (inside : place < stores.length) (kept : stores <+: after) :
    stores.set place next <+: after.set place next := by
  obtain ⟨more, rfl⟩ := kept
  rw [List.set_append_left _ _ inside]
  exact List.prefix_append _ more

end HoldsAt

theorem UpdatesAlone.updates {program : (place other : Nat) → Program α Unit}
    {combine : OrderedSet α → OrderedSet α → OrderedSet α} (h : UpdatesAlone program combine) :
    Updates program combine := by
  intro stores place other a b _ one two
  obtain ⟨next, ran, holds⟩ := h one two
  exact ⟨next, _, ran, List.prefix_rfl, holds⟩

/-- What changes a store in place makes a new store when it is done to a clone. The clone is behind
all others, so that none of these is the one that is changed. -/
theorem Updates.copying {program : (place other : Nat) → Program α Unit}
    {combine : OrderedSet α → OrderedSet α → OrderedSet α} (updates : Updates program combine) :
    Forms (copying program) combine := by
  intro stores place other a b one two
  obtain ⟨store, here, ones⟩ := one
  obtain ⟨next, after, ran, kept, holds⟩ := updates (Nat.ne_of_gt two.inside)
    (HoldsAt.last stores ones) (two.extended (List.prefix_append stores [store]))
  have changed : (stores ++ [store]).set stores.length next = stores ++ [next] := by
    rw [List.set_append_right _ _ (Nat.le_refl _), Nat.sub_self, List.set_cons_zero]
  rw [changed] at kept
  refine ⟨stores.length, after, ?_, (List.prefix_append stores [next]).trans kept,
    Nat.le_refl _, ?_⟩
  · rw [Program.copying, run_bind (clone_eq here), run_bind ran]
    rfl
  · exact (HoldsAt.last stores holds).extended kept

/-! ### Updating -/

/-- If a change of a store for one item does what is done to a set, the changes for items one after
the other do it, too. The induction is on the items. -/
theorem forM_change_holds {f : α → Store α → Option (Store α)}
    {g : OrderedSet α → α → OrderedSet α}
    (step : ∀ a {store : Store α} {s : OrderedSet α}, store.Holds s.toList →
      ∃ next, f a store = some next ∧ next.Holds (g s a).toList)
    (items : List α) {place : Nat} {stores : List (Store α)} {s : OrderedSet α}
    (one : HoldsAt stores place s) :
    ∃ next, (items.forM fun a => change place (f a) : Program α Unit) stores
        = some ((), stores.set place next) ∧ next.Holds (items.foldl g s).toList := by
  obtain ⟨store, here, holds⟩ := one
  induction items generalizing stores store s with
  | nil =>
    obtain ⟨inside, rfl⟩ := List.getElem?_eq_some_iff.mp here
    -- With no items left the store stays what it is.
    refine ⟨stores[place], ?_, holds⟩
    rw [List.set_getElem_self]
    rfl
  | cons a rest ih =>
    obtain ⟨next, changed, holds⟩ := step a holds
    have inside := (List.getElem?_eq_some_iff.mp here).1
    obtain ⟨last, ran, holds⟩ := ih next (List.getElem?_set_self inside) holds
    refine ⟨last, ?_, holds⟩
    rw [List.set_set] at ran
    exact (run_bind (change_eq here changed)).trans ran

variable [EquivBEq α] [LawfulHashable α]

theorem unionUpdate_updates : UpdatesAlone (α := α) unionUpdate OrderedSet.union := by
  intro stores place other a b one two
  obtain ⟨store, there, others⟩ := two
  have step : ∀ x {store : Store α} {s : OrderedSet α}, store.Holds s.toList →
      ∃ next, some (store.add x).2 = some next ∧ next.Holds (s.add x).toList :=
    fun x _ _ holds => ⟨_, rfl, (Store.add_holds holds x).2⟩
  obtain ⟨next, ran, holds⟩ := forM_change_holds step b.toList one
  refine ⟨next, ?_, ?_⟩
  · rw [unionUpdate, run_bind (load_eq there), others.items_eq, ran]
  · rw [OrderedSet.union_eq]
    exact holds

theorem intersectionUpdate_updates :
    UpdatesAlone (α := α) intersectionUpdate OrderedSet.intersection := by
  intro stores place other a b one two
  obtain ⟨store, here, ones⟩ := one
  obtain ⟨_, there, others⟩ := two
  refine ⟨store.retain b.contains, ?_, Store.retain_holds ones b.contains⟩
  rw [intersectionUpdate, run_bind (load_eq there), funext (Store.contains_eq others)]
  exact change_eq here rfl

theorem differenceUpdate_updates :
    UpdatesAlone (α := α) differenceUpdate OrderedSet.difference := by
  intro stores place other a b one two
  obtain ⟨store, there, others⟩ := two
  -- One item is discarded from a store as it is from a set, whether it is there or not.
  have step : ∀ x {store : Store α} {s : OrderedSet α}, store.Holds s.toList →
      ∃ next, (do return (← store.discard? x).2) = some next ∧
        next.Holds (s.discard x).2.toList := by
    intro x store s holds
    cases present : s.contains x with
    | false =>
      rw [Store.discard?_of_absent holds present, OrderedSet.discard_of_absent present]
      exact ⟨store, rfl, holds⟩
    | true =>
      obtain ⟨next, found, holds⟩ := Store.discard?_of_present holds present
      rw [found]
      exact ⟨next, rfl, holds⟩
  obtain ⟨next, ran, holds⟩ := forM_change_holds step b.toList one
  refine ⟨next, ?_, ?_⟩
  · rw [differenceUpdate, run_bind (load_eq there), others.items_eq, ran]
  · rw [OrderedSet.toList_difference]
    rw [SetLike.toList_foldl_discard] at holds
    exact holds

/-- The overlap stands behind the stores that there were, where the union does not reach it. -/
theorem symmetricDifferenceUpdate_updates :
    Updates (α := α) symmetricDifferenceUpdate OrderedSet.symmetricDifference := by
  intro stores place other a b apart one two
  -- First the overlap comes to the end of the stores, then the union and the difference change the
  -- first one.
  obtain ⟨overlap, with_overlap, copied, kept, behind, common⟩ :=
    intersectionUpdate_updates.updates.copying one two
  have apart' : place ≠ overlap := Nat.ne_of_lt (Nat.lt_of_lt_of_le one.inside behind)
  have one' := one.extended kept
  obtain ⟨both, united, holds⟩ := unionUpdate_updates one' (two.extended kept)
  obtain ⟨next, differed, holds⟩ :=
    differenceUpdate_updates (HoldsAt.set_self one'.inside holds) (common.set_ne apart')
  refine ⟨next, with_overlap.set place next, ?_, set_extended one.inside kept, ?_⟩
  · rw [symmetricDifferenceUpdate, run_bind copied, run_bind united, differed, List.set_set]
  · rw [OrderedSet.symmetricDifference_eq]
    exact holds

/-- Every operation changes one store in place, and no other. -/
theorem update_updates (op : SetOperation) :
    Updates (α := α) (update op) fun a b => a.combine b op := by
  cases op with
  | union => exact unionUpdate_updates.updates
  | intersection => exact intersectionUpdate_updates.updates
  | difference => exact differenceUpdate_updates.updates
  | symmetricDifference => exact symmetricDifferenceUpdate_updates

end Program

/-! ## Asking stores

Two of the questions go over the items of the second store and one over those of the first. Sets are
asked in one direction only, and for disjointness it makes no difference. None of them changes a
store, and so what they answer is all there is to say about them. -/

namespace Store

variable {α : Type} [BEq α] [Hashable α]

def isSubset (one two : Store α) : Bool := one.items.all two.index.contains

def isSuperset (one two : Store α) : Bool := two.isSubset one

/-- The items of the second store are looked for in the first one. -/
def isDisjoint (one two : Store α) : Bool := !two.items.any one.index.contains

variable [EquivBEq α] {one two : Store α} {a b : OrderedSet α}

omit [EquivBEq α] in
theorem isSubset_eq (ones : one.Holds a.toList) (twos : two.Holds b.toList) :
    one.isSubset two = a.isSubset b := by
  unfold isSubset OrderedSet.isSubset
  rw [funext (contains_eq twos), ← Array.all_toList, ← Array.all_toList, ones.items_eq]
  rfl

theorem isDisjoint_eq (ones : one.Holds a.toList) (twos : two.Holds b.toList) :
    one.isDisjoint two = a.isDisjoint b := by
  have backward : one.isDisjoint two = b.isDisjoint a := by
    unfold isDisjoint OrderedSet.isDisjoint
    rw [funext (contains_eq ones), ← Array.any_toList, ← Array.all_toList, twos.items_eq,
      List.not_any_eq_all_not]
    rfl
  rw [backward, Bool.eq_iff_iff, OrderedSet.isDisjoint_iff, OrderedSet.isDisjoint_iff]
  constructor
  · intro apart x there
    rw [Bool.eq_false_iff]
    intro other
    rw [apart x other] at there
    cases there
  · intro apart x there
    rw [Bool.eq_false_iff]
    intro other
    rw [apart x other] at there
    cases there

end Store

/-- The programs for the operations, and for the operators that they are written with, change one
store to what the operations make of the sets that are held, or make a new one of it, and change
nothing else; to ask two stores is to ask the two sets; and the laws hold of all sets. -/
theorem Program.operations_agree {α : Type} [BEq α] [Hashable α] [EquivBEq α] [LawfulHashable α] :
    (∀ op : SetOperation,
      Updates (α := α) (update op) (fun a b => a.combine b op) ∧
      Forms (α := α) (form op) fun a b => a.combine b op) ∧
    (∀ o : SetOperator,
      Updates (α := α) (assign o) (fun a b => a.operate b o) ∧
      Forms (α := α) (operate o) fun a b => a.operate b o) ∧
    (∀ {one two : Store α} {a b : OrderedSet α}, one.Holds a.toList → two.Holds b.toList →
      one.isSubset two = a.isSubset b ∧ one.isSuperset two = a.isSuperset b ∧
      one.isDisjoint two = a.isDisjoint b ∧ one.same two = (a == b)) ∧
    ∀ a b c : OrderedSet α, a.Laws b c := by
  refine ⟨?_, ?_, ?_, OrderedSet.laws⟩
  · intro op
    exact ⟨update_updates op, (update_updates op).copying⟩
  · intro o
    have same : (fun a b : OrderedSet α => a.operate b o) = fun a b => a.combine b o.operation := by
      funext a b
      exact a.operate_eq b o
    rw [same]
    exact ⟨update_updates o.operation, (update_updates o.operation).copying⟩
  · intro one two a b ones twos
    exact ⟨Store.isSubset_eq ones twos, Store.isSubset_eq twos ones, Store.isDisjoint_eq ones twos,
      Store.same_eq ones twos⟩

/-- Names that are equal but for letters: of both the one in the first set is kept. -/
theorem Program.operations_agree_names :
    let x : Name := ⟨[⟨[97], by decide, by decide⟩], true, by decide⟩
    let upper : Name := ⟨[⟨[65], by decide, by decide⟩], true, by decide⟩
    let y : Name := ⟨[⟨[98], by decide, by decide⟩], true, by decide⟩
    let a := OrderedSet.ofList [x]
    let b := OrderedSet.ofList [upper, y]
    (a ||| b).toList = [x, y] ∧ (a &&& b).toList = [x] ∧ (b &&& a).toList = [upper] ∧
      (a - b).toList = [] ∧ (b ^^^ a).toList = [y] ∧
      ∃ result after, operate .caret 0 1 [⟨b.items, b.index⟩, ⟨a.items, a.index⟩]
        = some (result, after) ∧ HoldsAt after result (b ^^^ a) := by
  intro x upper y a b
  obtain ⟨-, operators, -, laws⟩ := operations_agree (α := Name)
  have ones : a.toList = [x] := OrderedSet.toList_ofList (by decide)
  have others : b.toList = [upper, y] := OrderedSet.toList_ofList (by decide)
  have members : ∀ op : SetOperation, (a.combine b op).toList = op.onLists [x] [upper, y] :=
    fun op => ((laws a b a).in_order op).trans (by rw [ones, others])
  have members' : ∀ op : SetOperation, (b.combine a op).toList = op.onLists [upper, y] [x] :=
    fun op => ((laws b a b).in_order op).trans (by rw [ones, others])
  have first : HoldsAt [⟨b.items, b.index⟩, ⟨a.items, a.index⟩] 0 b :=
    ⟨_, rfl, Store.holds_of_set b⟩
  have second : HoldsAt [⟨b.items, b.index⟩, ⟨a.items, a.index⟩] 1 a :=
    ⟨_, rfl, Store.holds_of_set a⟩
  obtain ⟨result, after, ran, -, -, holds⟩ := (operators .caret).2 first second
  exact ⟨(members .union).trans (by decide), (members .intersection).trans (by decide),
    (members' .intersection).trans (by decide), (members .difference).trans (by decide),
    (members' .symmetricDifference).trans (by decide), result, after, ran, holds⟩

end Dns
