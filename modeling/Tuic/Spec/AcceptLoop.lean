import Tuic.Spec.StreamLimit

/-! The accept loop of a client: `Connection::init` with `accept_uni_stream` and
`accept_bi_stream` of `connection/handle_stream.rs`. Here it is the loop that checks the
limit, before it waits for the next stream, and not the handler of the last one. -/

namespace Tuic.Client

open Lib
open Server (StreamKind)

def defaultConcurrentStreams : UInt32 := 32

/-- Where the branch of `select!` for one kind is. -/
inductive AcceptBranch
  /-- It has not been polled since the loop went round. -/
  | idle
  /-- It has loaded the limit. -/
  | loaded (max : UInt32)
  /-- It has found as many streams registered, and has yet to store the double. -/
  | doubling (max : UInt32)
  | waiting
  /-- The task has panicked. -/
  | stopped
  deriving DecidableEq, Repr

/-- The streams of one kind; `count` is how many are registered. -/
structure AcceptLimit where
  max : UInt32
  count : ℕ
  branch : AcceptBranch
  deriving DecidableEq, Repr

inductive AcceptStep
  | poll (kind : StreamKind)
  | compare (kind : StreamKind)
  | store (kind : StreamKind)
  | accept (kind : StreamKind)
  /-- The branch of the datagrams is ready. -/
  | acceptDatagram
  /-- A handler returns and its register is dropped. -/
  | finish (kind : StreamKind)
  deriving DecidableEq, Repr

namespace AcceptLimit

def new : AcceptLimit := ⟨defaultConcurrentStreams, 0, .idle⟩

def poll (self : AcceptLimit) : AcceptLimit :=
  match self.branch with
  | .idle => { self with branch := .loaded self.max }
  | _ => self

/-- `count() as u32 == max` -/
def compare (self : AcceptLimit) : AcceptLimit :=
  match self.branch with
  | .loaded max => { self with branch := if UInt32.ofNat self.count = max then .doubling max else .waiting }
  | _ => self

def store (b : Build) (self : AcceptLimit) : AcceptLimit :=
  match self.branch with
  | .doubling max =>
    match b.mulU32 max 2 with
    | .ok max => { self with max, branch := .waiting }
    | .err e => nomatch (e : Empty)
    | .panic _ => { self with branch := .stopped }
  | _ => self

def register (self : AcceptLimit) : AcceptLimit := { self with count := self.count + 1 }

def finish (self : AcceptLimit) : AcceptLimit := { self with count := self.count - 1 }

/-- The loop goes round, and its futures are dropped. -/
def goRound (self : AcceptLimit) : AcceptLimit :=
  match self.branch with
  | .stopped => self
  | _ => { self with branch := .idle }

end AcceptLimit

abbrev AcceptLoop := StreamKind → AcceptLimit

namespace AcceptLoop

def on (self : AcceptLoop) (kind : StreamKind) (f : AcceptLimit → AcceptLimit) : AcceptLoop :=
  Function.update self kind (f (self kind))

def goRound (self : AcceptLoop) : AcceptLoop := fun kind => (self kind).goRound

def accept (self : AcceptLoop) (kind : StreamKind) : AcceptLoop :=
  if (self kind).branch = .waiting then goRound (self.on kind .register) else self

def step (b : Build) (self : AcceptLoop) : AcceptStep → AcceptLoop
  | .poll kind => self.on kind .poll
  | .compare kind => self.on kind .compare
  | .store kind => self.on kind (.store b)
  | .accept kind => self.accept kind
  | .acceptDatagram => self.goRound
  | .finish kind => self.on kind .finish

end AcceptLoop

def acceptLoop (b : Build) : Machine AcceptLoop AcceptStep Unit where
  init := fun _ => .new
  step s a := (s.step b a, ())

/-! ### What a run shows -/

/-- No stream is accepted that would be the 2^31st of its kind at once. -/
def FewStreams (b : Build) (steps : List AcceptStep) : Prop :=
  ∀ i kind, steps[i]? = some (.accept kind) → ((acceptLoop b).stateAt steps i kind).count + 1 < 2 ^ 31

/-- There is room for another stream whenever the loop waits for one, and never are more
registered than the limit allows. It grows with the load: it is not more than the double of
what has been registered at once. -/
structure LimitKeepsUp (b : Build) (steps : List AcceptStep) : Prop where
  waiting : ∀ i ≤ steps.length, ∀ kind, ((acceptLoop b).stateAt steps i kind).branch = .waiting →
    ((acceptLoop b).stateAt steps i kind).count < ((acceptLoop b).stateAt steps i kind).max.toNat
  registered : ∀ i ≤ steps.length, ∀ kind,
    ((acceptLoop b).stateAt steps i kind).count ≤ ((acceptLoop b).stateAt steps i kind).max.toNat
  needed : ∀ i ≤ steps.length, ∀ kind,
    ((acceptLoop b).stateAt steps i kind).max = defaultConcurrentStreams ∨
      ∃ j ≤ i, ((acceptLoop b).stateAt steps i kind).max.toNat ≤ 2 * ((acceptLoop b).stateAt steps j kind).count

end Tuic.Client
