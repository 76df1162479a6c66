import Mathlib.Logic.Function.Basic
import Tuic.Lib.Machine
import Tuic.Lib.Outcome

/-! The limits on the streams of a connection. `handle` in `connection/mod.rs` of
`tuic-server` registers a stream and spawns its handler, and the first lines of that,
in `handle_stream.rs`, double the limit once it is reached. -/

namespace Tuic.Server

open Lib

inductive StreamKind
  | uni
  | bi
  deriving DecidableEq, Repr

def initConcurrentStreams : UInt32 := 32

/-- Where the handler of a stream is. Its check ends when it is `serving`. -/
inductive StreamHandler
  | spawned
  /-- It has loaded the limit. -/
  | loaded (max : UInt32)
  /-- It has found as many streams registered, and has yet to store the double. -/
  | doubling (max : UInt32)
  | serving
  | done
  deriving DecidableEq, Repr

/-- The streams of one kind: `max_concurrent_uni_streams` and the handlers that hold a
register of `remote_uni_stream_cnt`, or the same of `bi`. -/
structure StreamLimit where
  max : UInt32
  handlers : List StreamHandler
  deriving DecidableEq, Repr

inductive StreamAccess
  | accept
  | load (x : ℕ)
  | compare (x : ℕ)
  | store (x : ℕ)
  | finish (x : ℕ)
  deriving DecidableEq, Repr

namespace StreamLimit

def new : StreamLimit := ⟨initConcurrentStreams, []⟩

/-- The number of registered streams. -/
def count (self : StreamLimit) : ℕ := self.handlers.countP (· ≠ .done)

/-- Handler number `x` goes on. -/
def goOn (self : StreamLimit) (x : ℕ) (handler : StreamHandler) : StreamLimit :=
  { self with handlers := self.handlers.modify x fun _ => handler }

def accept (self : StreamLimit) : StreamLimit :=
  { self with handlers := self.handlers ++ [.spawned] }

def load (self : StreamLimit) (x : ℕ) : StreamLimit :=
  match self.handlers[x]? with
  | some .spawned => self.goOn x (.loaded self.max)
  | _ => self

/-- `count() as u32 == max` -/
def compare (self : StreamLimit) (x : ℕ) : StreamLimit :=
  match self.handlers[x]? with
  | some (.loaded max) => self.goOn x (if UInt32.ofNat self.count = max then .doubling max else .serving)
  | _ => self

def store (b : Build) (self : StreamLimit) (x : ℕ) : StreamLimit :=
  match self.handlers[x]? with
  | some (.doubling max) =>
    match b.mulU32 max 2 with
    | .ok max => { self.goOn x .serving with max }
    | .err e => nomatch (e : Empty)
    -- the task ends there
    | .panic _ => self.goOn x .done
  | _ => self

/-- The handler returns and its register is dropped. -/
def finish (self : StreamLimit) (x : ℕ) : StreamLimit :=
  match self.handlers[x]? with
  | some .serving => self.goOn x .done
  | _ => self

def step (b : Build) (self : StreamLimit) : StreamAccess → StreamLimit
  | .accept => self.accept
  | .load x => self.load x
  | .compare x => self.compare x
  | .store x => self.store b x
  | .finish x => self.finish x

end StreamLimit

structure StreamStep where
  kind : StreamKind
  access : StreamAccess
  deriving DecidableEq, Repr

/-- Steps of streams of one kind. -/
def stepsOf (kind : StreamKind) (accesses : List StreamAccess) : List StreamStep :=
  accesses.map fun access => ⟨kind, access⟩

/-- The streams of a connection from its start on. -/
def streamLimits (b : Build) : Machine (StreamKind → StreamLimit) StreamStep Unit where
  init := fun _ => .new
  step s a := (Function.update s a.kind ((s a.kind).step b a.access), ())

/-! ### What a run shows -/

def StreamLimit.Checked (s : StreamLimit) (x : ℕ) : Prop := s.handlers[x]? = some .serving

/-- Right after the check of any handler the limit is at least the number of registered
streams. -/
def KeepsUp (b : Build) (steps : List StreamStep) : Prop :=
  ∀ i kind x, ¬ ((streamLimits b).stateAt steps i kind).Checked x →
    ((streamLimits b).stateAt steps (i + 1) kind).Checked x →
    ((streamLimits b).stateAt steps (i + 1) kind).count ≤
      ((streamLimits b).stateAt steps (i + 1) kind).max.toNat

/-- The check is still before its end. -/
def StreamHandler.isChecking : StreamHandler → Bool
  | .spawned | .loaded _ | .doubling _ => true
  | .serving | .done => false

/-- The limit it is about to double. -/
def StreamHandler.doubled : StreamHandler → Option UInt32
  | .doubling max => some max
  | _ => none

/-- No other stream of the kind is being checked. -/
def StreamLimit.ChecksAlone (s : StreamLimit) (x : ℕ) : Prop :=
  ∀ handler ∈ s.handlers.eraseIdx x, handler.isChecking = false

instance (s : StreamLimit) (x : ℕ) : Decidable (s.ChecksAlone x) :=
  inferInstanceAs (Decidable (∀ handler ∈ s.handlers.eraseIdx x, handler.isChecking = false))

/-- It stores the double while no other stream is being checked, if that does not lower the
limit, or while fewer streams are registered than that. -/
def StreamLimit.StoresInTurn (s : StreamLimit) (x : ℕ) (handler : StreamHandler) : Prop :=
  ∀ max ∈ handler.doubled, s.ChecksAlone x ∧ s.max.toNat ≤ 2 * max.toNat ∨ s.count < 2 * max.toNat

instance (s : StreamLimit) (x : ℕ) (handler : StreamHandler) : Decidable (s.StoresInTurn x handler) :=
  handler.doubled.decidableForallMem

/-- A handler compares while no other stream is being checked, or while the streams are
within the limit. -/
def StreamLimit.InTurn (s : StreamLimit) : StreamAccess → Prop
  | .accept => s.count + 1 < 2 ^ 31
  | .compare x => s.ChecksAlone x ∨ s.count ≤ s.max.toNat
  | .store x => ∀ handler ∈ s.handlers[x]?, s.StoresInTurn x handler
  | .load _ | .finish _ => True

instance (s : StreamLimit) : (a : StreamAccess) → Decidable (s.InTurn a)
  | .accept => inferInstanceAs (Decidable (_ < _))
  | .compare _ => inferInstanceAs (Decidable (_ ∨ _))
  | .store x => s.handlers[x]?.decidableForallMem
  | .load _ | .finish _ => inferInstanceAs (Decidable True)

/-- Every check of the run is in turn. -/
def ChecksInTurn (b : Build) (steps : List StreamStep) : Prop :=
  ∀ i a, steps[i]? = some a → ((streamLimits b).stateAt steps i a.kind).InTurn a.access

end Tuic.Server
