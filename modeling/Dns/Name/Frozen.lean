import Dns.Name.Fingerprint

/-!
# Frozen names

A name that is frozen no longer changes, and so it can be shared: whoever asks for it once more gets
the one that is there and no copy. It stands at a place of its own, where nothing else is put while
it is in use, and its fingerprint is computed when it is frozen and kept.

Both make comparing cheap. What stands at one place is equal without a look at it, and what has
different fingerprints is different without a look at it; only names that are left after that are
compared.

Changing a frozen name is freezing another one. Places are handed out in order and never again, so
that a `Pool` tells of every frozen name in use which of the others it was shared with.
-/

set_option autoImplicit false

namespace Dns

/-- A name that no longer changes, with the place where it was frozen and its fingerprint. -/
structure FrozenName where
  place : Nat
  name : Name
  fingerprint : UInt64

namespace FrozenName

/-- Whether both are one frozen name, which was shared. -/
def same (f g : FrozenName) : Bool := f.place == g.place

/-- One frozen name is equal to itself without being looked at. Others are looked at if their
fingerprints are the same. -/
instance : BEq FrozenName :=
  ⟨fun f g => f.same g || (f.fingerprint == g.fingerprint && f.name == g.name)⟩

/-- The frozen names in use, and the next place that was never used. -/
structure Pool where
  held : List FrozenName
  next : Nat

/-- What is done with frozen names. -/
inductive Step where
  | freeze (n : Name)
  /-- One that is in use is handed out once more. -/
  | share (index : Nat)
  /-- A name made of one that is in use is frozen. -/
  | replace (index : Nat) (change : Name → Name)
  | release (index : Nat)

namespace Pool

def empty : Pool := ⟨[], 0⟩

def freeze (pool : Pool) (n : Name) : Pool :=
  ⟨⟨pool.next, n, n.fingerprint⟩ :: pool.held, pool.next + 1⟩

def after (pool : Pool) : Step → Pool
  | .freeze n => pool.freeze n
  | .share index =>
    match pool.held[index]? with
    | some f => { pool with held := f :: pool.held }
    | none => pool
  | .replace index change =>
    match pool.held[index]? with
    -- The one that is changed stays in use until it is released.
    | some f => pool.freeze (change f.name)
    | none => pool
  | .release index => { pool with held := pool.held.eraseIdx index }

def run (steps : List Step) : Pool := steps.foldl after empty

end Pool

end FrozenName

end Dns
