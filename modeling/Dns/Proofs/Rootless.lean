import Dns.Proofs.Rollback
import Dns.Proofs.Room

/-!
# The root is never noted

Whatever is done to a renderer, its table does not have the root (`Operation.run_rootless`). The
root is looked up like any other name, so this is nothing that a look at `Name.compose` alone would
tell: it holds because only suffixes with a label are ever noted, and because a table that is cut
back has no names that it did not have before.

So the root is always written as the single octet that it is, and no name takes more room than it
takes in full. Without this a message could become *longer* by compression. A pointer takes two
octets and the root one, and every other name takes three at least, so the root is the only name for
which a pointer would not pay.

The room that is set aside for a signature or for an OPT record is computed from names in full
(`Dns.Proofs.Room`), and it suffices exactly because of what is shown here.

The proof follows the pattern of all invariants of renderers: what composers do, by the constructors
of `Composer.Built`; what calls do, by the four kinds of `Call.Effect`; what runs do, by
`Operation.run_keeps`.
-/

set_option autoImplicit false

namespace Dns

/-! ## Composing -/

namespace Composer

variable {α β : Type}

/-- The table does not get the root if it does not have it. -/
def KeepsRootless (c : Composer α) : Prop :=
  ∀ (d : Draft) (a : α) (d' : Draft), d.Rootless → c d = .ok a d' → d'.Rootless

namespace KeepsRootless

variable {c : Composer α}

theorem pure (a : α) : KeepsRootless (Pure.pure a) := by
  intro d a d' rootless run
  cases run
  exact rootless

theorem bind {k : α → Composer β} (h : c.KeepsRootless) (g : ∀ a, (k a).KeepsRootless) :
    (c >>= k).KeepsRootless := by
  intro d b d' rootless run
  obtain ⟨a, d₁, first, run⟩ := bind_ok run
  exact g a d₁ b d' (h d a d₁ rootless first) run

theorem put (o : Octets) : (Composer.put o).KeepsRootless := by
  intro d a d' rootless run
  cases run
  exact rootless

theorem putOrFail (o : Except ComposeError Octets) : (Composer.putOrFail o).KeepsRootless := by
  cases o with
  | ok o => exact put o
  | error e =>
    intro d a d' rootless run
    cases run

theorem lengthPrefixed {c : Composer Unit} (h : c.KeepsRootless) :
    (Composer.lengthPrefixed c).KeepsRootless := by
  intro d a d' rootless run
  simp only [Composer.lengthPrefixed] at run
  split at run
  · cases run
  · rename_i d₁ inner
    have rootless₁ : d₁.Rootless := h (d.put [0, 0]) _ d₁ rootless inner
    split at run
    · cases run
    · split at run
      · cases run
        exact rootless₁
      · cases run
        exact rootless₁

theorem name (n : Name) (compressed : Bool) (origin : Option Name)
    (canonical : Bool) : (n.compose compressed origin canonical).KeepsRootless := by
  intro d a d' rootless run
  rw [Name.compose] at run
  split at run
  · cases run
  · cases run
    exact Name.composeLabels_rootless compressed canonical _ _ rootless

end KeepsRootless

/-- Nothing that is composed notes the root. -/
theorem Built.keepsRootless {c : Composer α} (h : c.Built) : c.KeepsRootless := by
  induction h with
  | pure a => exact .pure a
  | bind _ _ first next => exact first.bind next
  | put octets => exact .put octets
  | putOrFail octets => exact .putOrFail octets
  | name n compressed origin canonical => exact .name n compressed origin canonical
  | lengthPrefixed _ data => exact data.lengthPrefixed

end Composer

open Composer

/-! ## Operations -/

theorem Draft.Rootless.overwrite {d : Draft} (h : d.Rootless) (place : Nat) (o : Octets) :
    (d.overwrite place o).Rootless := h

namespace Renderer

variable {r r' : Renderer} {part : Section} {compose : Option Name → Composer Nat}

theorem add_rootless (rootless : r.draft.Rootless) (built : Built (compose r.origin))
    (run : r.add part compose = (.ok (), r')) : r'.draft.Rootless := by
  obtain ⟨-, n, draft, composed, -, -, rfl⟩ := add_ok run
  exact built.keepsRootless r.draft n draft rootless composed

theorem Restored.rootless {asked : Option Section} (same : Restored asked r r')
    (rootless : r.draft.Rootless) : r'.draft.Rootless := by
  show r'.table.positions[Name.root]? = none
  -- A call that failed leaves a table with the same entries, which may be another table.
  rw [Std.HashMap.Equiv.getElem?_eq same.table]
  exact rootless

theorem addTsigRecord_rootless {owner : Name} {t : Tsig} (rootless : r.draft.Rootless)
    (run : r.addTsigRecord owner t = (.ok (), r')) : r'.draft.Rootless := by
  obtain ⟨r₁, added, rfl⟩ := addTsigRecord_ok run
  have rootless₁ : r₁.draft.Rootless :=
    add_rootless rootless (composeTsig_built owner t _ r.origin) added
  exact rootless₁.overwrite _ _

end Renderer

open Renderer

variable {r r' : Renderer}

theorem Call.perform_rootless {c : Call} (rootless : r.draft.Rootless)
    (run : c.perform r = (.ok (), r')) : r'.draft.Rootless := by
  cases Call.effect_of_ok run with
  | question q _ added =>
    exact add_rootless rootless (q.entry_built r.origin) added
  | records part owner set form r₁ wasPadded _ added same =>
    subst same
    have rootless₁ : r₁.draft.Rootless :=
      add_rootless rootless (set.compose_built owner true r.origin form) added
    exact rootless₁
  | header _ same =>
    subst same
    exact rootless.overwrite _ _
  | nothing _ draft =>
    rw [draft]
    exact rootless

namespace Operation

theorem perform_rootless {o : Operation} (rootless : r.draft.Rootless)
    (run : o.perform r = (.ok (), r')) : r'.draft.Rootless := by
  cases o with
  | call c => exact c.perform_rootless rootless run
  | sign | signNext =>
    obtain ⟨owner, t, added⟩ := signature_of_ok run fun _ is => by cases is
    exact addTsigRecord_rootless rootless added

/-- The table never gets the root, whatever succeeds in a run and whatever fails. -/
theorem run_rootless (operations : List Operation) (bounded : r.draft.Bounded)
    (rootless : r.draft.Rootless) : (run operations r).draft.Rootless :=
  run_keeps (P := fun r => r.draft.Rootless) operations
    (fun _ _ _ _ _ rootless result => perform_rootless rootless result)
    (fun same rootless => same.rootless rootless) bounded rootless

end Operation

end Dns
