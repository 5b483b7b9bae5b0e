import Dns.Render.Signed

/-!
# Calls to a renderer

What happens to a renderer is a sequence of calls, each of which may fail. `Call` has a constructor
for every call that does not sign; `Operation` adds the two that do, with keys of any kind. Both are
data, so that a run is a list of them and statements about every run are statements about every
list. They are proved by an induction on that list, in which a step is a case distinction over the
constructors.

A caller that gets an error may go on with something else, and so a run does not stop at the first
call that fails. `Call.run` and `Operation.run` pass on the renderer of every call, with whatever a
failed call has left in it.

A call that succeeds brings entries into the message, and `Call.added` lists those of a whole run.
It is what the message that results is compared with. The list is computed from the arguments of the
calls and from which of them succeeded, never from the message or from the numbers that the renderer
keeps; this makes the comparison worth something. The one entry that depends on more than its
arguments is an OPT record with padding, whose length follows from the size of the message at that
moment (`Call.optOf`).

The two kinds are separate because their statements are. What a message says is a matter of `Call`:
a signature is not one of the entries but stands behind all of them. What holds of every renderer,
limits, sizes and what a failure leaves behind, is a matter of `Operation`.
-/

set_option autoImplicit false

namespace Dns

/-! ## Calls that do not sign -/

/-- A call that does not sign. -/
inductive Call where
  | enter (part : Section)
  | addQuestion (q : Question)
  | addRdataset (part : Section) (owner : Name) (set : Rdataset) (form : RecordForm)
  | addRrset (part : Section) (set : Rrset) (form : RecordForm)
  | addOpt (o : OptRecord) (pad optSize tsigSize : Nat)
  | addEdns (version : UInt8) (flags : UInt32) (payloadSize : UInt16) (options : List EdnsOption)
  | reserve (room : Nat)
  | releaseReserved
  | setFlags (flags : UInt16)
  | setTime (time : Time48)
  | writeHeader

/-- Something that stands in a section of a message. -/
inductive Entry where
  | question (q : Question)
  | record (r : Record) (form : RecordForm)

/-- An entry and the section that it is added to. -/
abbrev Addition : Type := Section × Entry

namespace Call

/-- What a call does. -/
def perform (c : Call) (r : Renderer) : Renderer.Result Unit :=
  match c with
  | enter part => r.enter part
  | addQuestion q => r.addQuestion q
  | addRdataset part owner set form => r.addRdataset part owner set form
  | addRrset part set form => r.addRrset part set form
  | addOpt o pad optSize tsigSize => r.addOpt o pad optSize tsigSize
  | addEdns version flags payloadSize options => r.addEdns version flags payloadSize options
  | reserve room => r.reserve room
  | releaseReserved => (.ok (), r.releaseReserved)
  | setFlags flags => (.ok (), r.setFlags flags)
  | setTime time => (.ok (), r.setTime time)
  | writeHeader => (.ok (), r.writeHeader)

/-- The section that a call asks for. -/
def part? : Call → Option Section
  | enter part => some part
  | addQuestion _ => some .question
  | addRdataset part .. => some part
  | addRrset part .. => some part
  | addOpt .. => some .additional
  | addEdns .. => some .additional
  | _ => none

/-- The entries of a section that are the records of a set. -/
def recordsOf (part : Section) (owner : Name) (set : Rdataset) (form : RecordForm) :
    List Addition :=
  (set.records owner).map fun r => (part, .record r form)

/-- The OPT record that is added: padding depends on how large the message is already. -/
def optOf (o : OptRecord) (pad optSize tsigSize : Nat) (r : Renderer) : OptRecord :=
  if pad = 0 then o
  else o.withOption (.padding (.ofNat (Renderer.paddingLength pad (r.size + optSize + tsigSize))))

/-- The entries that a call adds if it succeeds. -/
def entries (c : Call) (r : Renderer) : List Addition :=
  match c with
  | addQuestion q => [(.question, .question q)]
  | addRdataset part owner set form => recordsOf part owner set form
  | addRrset part set form => recordsOf part set.name set.rdataset form
  | addOpt o pad optSize tsigSize =>
    let set := (optOf o pad optSize tsigSize r).toRrset
    recordsOf .additional set.name set.rdataset {}
  | addEdns version flags payloadSize options =>
    let set := (OptRecord.forVersion version flags payloadSize options).toRrset
    recordsOf .additional set.name set.rdataset {}
  | _ => []

/-- The renderer after some calls. -/
def run (calls : List Call) (r : Renderer) : Renderer :=
  calls.foldl (fun r c => (c.perform r).2) r

/-- The entries that some calls add, which are those of the calls that succeed. -/
def added : (calls : List Call) → Renderer → List Addition
  | [], _ => []
  | c :: rest, r =>
    match c.perform r with
    | (.ok _, r') => c.entries r ++ added rest r'
    | (.error _, r') => added rest r'

end Call

/-! ## All calls -/

/-- A call of any kind. Every one that signs may do so with another kind of key. -/
inductive Operation : Type 1 where
  | call (c : Call)
  | sign {Context : Type} (s : Signer Context) (algorithm : Name)
  | signNext {Context : Type} (c : Option Context) (s : Signer Context)

namespace Operation

/-- What an operation does; a context that it gives is for the caller only. -/
def perform (o : Operation) (r : Renderer) : Renderer.Result Unit :=
  match o with
  | call c => c.perform r
  | sign s algorithm => r.addTsig s algorithm
  | signNext c s =>
    match r.addNextTsig c s with
    | (.ok _, r) => (.ok (), r)
    | (.error e, r) => (.error e, r)

/-- The section that an operation asks for. -/
def part? : Operation → Option Section
  | call c => c.part?
  | sign .. => some .additional
  | signNext .. => some .additional

/-- The renderer after some operations. -/
def run (operations : List Operation) (r : Renderer) : Renderer :=
  operations.foldl (fun r o => (o.perform r).2) r

end Operation

end Dns
