import Dns.Proofs.Drafts
import Dns.Render.Signed

/-!
# How composers are put together

Everything that is composed, from a single name to a signature, is put together in the same few
ways: octets that are known beforehand, names, data with their length in front, and one of these
after the other. `Composer.Built` has a constructor for each way. It says nothing about drafts; it
is the list of the cases that a statement about *every* composer of the library has to treat.

That list is gone through here once, type of data by type of data. What holds of whatever is built
is then proved by induction on `Built`, and none of these proofs looks at a type of data again:

* composing only adds to the end of a draft (`Built.confined`, below);
* the root never gets into the table (`Built.keepsRootless`, in `Dns.Proofs.Rootless`);
* the table goes on telling the truth about the octets (`Built.keepsSound`, in
  `Dns.Proofs.Soundness`).

A new type of data needs a case in `RecordData.compose_built` and nothing else of all this.

What octets *mean* is another matter, since a reader has to agree with the composer: that is
`Composer.Writes`, and there each type of data has a case of its own.
-/

set_option autoImplicit false

namespace Dns

namespace Composer

/-- A composer that is put together of octets, names and lengths in front of data. -/
inductive Built : {α : Type} → Composer α → Prop
  | pure {α : Type} (a : α) : Built (Pure.pure a : Composer α)
  | bind {α β : Type} {c : Composer α} {k : α → Composer β} (first : Built c)
      (next : ∀ a, Built (k a)) : Built (c >>= k)
  | put (octets : Octets) : Built (Composer.put octets)
  | putOrFail (octets : Except ComposeError Octets) : Built (Composer.putOrFail octets)
  | name (n : Name) (compressed : Bool) (origin : Option Name) (canonical : Bool) :
      Built (n.compose compressed origin canonical)
  | lengthPrefixed {c : Composer Unit} (data : Built c) : Built (Composer.lengthPrefixed c)

namespace Built

variable {α : Type} {c : Composer α}

theorem forM {f : α → Composer PUnit} (items : List α) (h : ∀ a, Built (f a)) :
    Built (items.forM f) := by
  induction items with
  | nil => exact .pure _
  | cons a rest ih => exact (h a).bind fun _ => ih

/-- Whatever is built only adds to the end of a draft. -/
theorem confined (h : Built c) : c.Confined := by
  induction h with
  | pure a => exact .pure a
  | bind _ _ first next => exact first.bind next
  | put octets => exact .put octets
  | putOrFail octets => exact .putOrFail octets
  | name n compressed origin canonical => exact n.compose_confined compressed origin canonical
  | lengthPrefixed _ data => exact data.lengthPrefixed

end Built

end Composer

/-! ## Everything that is composed

The shape of each proof is that of the code: a `bind` for every step but the last one, and the case
distinction of `RecordData.compose` for data. Three properties of composers are by induction on
`Built` and know nothing of records. A new form of data is a new case here and in none of them. -/

open Composer (Built)

theorem Tsig.compose_built (t : Tsig) (origin : Option Name) : Built (t.compose origin) :=
  (Built.name t.algorithm _ _ _).bind fun _ => .put _

theorem RecordData.composeSoa_built (s : Soa) (compressed : Bool) (origin : Option Name)
    (canonical : Bool) : Built (composeSoa s compressed origin canonical) :=
  (Built.name s.mname _ _ _).bind fun _ => (Built.name s.rname _ _ _).bind fun _ =>
    (Built.putOrFail _).bind fun _ =>
      (Built.put _).bind fun _ => (Built.put _).bind fun _ => (Built.put _).bind fun _ => .put _

theorem RecordData.compose_built (d : RecordData) (compressed : Bool) (origin : Option Name)
    (canonical : Bool) : Built (d.compose compressed origin canonical) := by
  cases d with
  | a | txt | x25 | aaaa | opt | unknown => exact .put _
  | ns name | cname name | ptr name => exact .name name _ _ _
  | soa s => exact composeSoa_built s _ _ _
  | hinfo | nid | l32 | l64 => exact (Built.put _).bind fun _ => .put _
  | mx _ name | lp _ name => exact (Built.put _).bind fun _ => .name name _ _ _
  | tsig t => exact t.compose_built _

theorem Question.compose_built (q : Question) (compressed : Bool) (origin : Option Name) :
    Built (q.compose compressed origin) :=
  (Built.name q.qname _ _ _).bind fun _ => (Built.put _).bind fun _ => .put _

theorem Record.compose_built (r : Record) (compressed : Bool) (origin : Option Name)
    (form : RecordForm) : Built (r.compose compressed origin form) :=
  (Built.name r.owner _ _ _).bind fun _ => (Built.put _).bind fun _ => (Built.put _).bind fun _ =>
    (Built.put _).bind fun _ => .lengthPrefixed (r.data.compose_built _ _ _)

theorem Rdataset.compose_built (s : Rdataset) (owner : Name) (compressed : Bool)
    (origin : Option Name) (form : RecordForm) :
    Built (s.compose owner compressed origin form) :=
  (Built.forM _ fun r => r.compose_built _ _ _).bind fun _ => .pure _

/-- What `Renderer.addQuestion` adds: a question, which counts as one entry. -/
theorem Question.entry_built (q : Question) (origin : Option Name) :
    Built (do q.compose true origin; return 1 : Composer Nat) :=
  (q.compose_built _ _).bind fun _ => .pure _

theorem Renderer.composeTsig_built (owner : Name) (t : Tsig) (compressed : Bool)
    (origin : Option Name) : Built (composeTsig owner t compressed origin) :=
  (Built.name owner _ _ _).bind fun _ => (Built.put _).bind fun _ => (Built.put _).bind fun _ =>
    (Built.put _).bind fun _ => (Built.lengthPrefixed (t.compose_built _)).bind fun _ => .pure _

end Dns
