import Mathlib.Logic.Function.Basic
import Tuic.Lib.Machine

/-! Relaying a TCP connection: `exchange_tcp` of `tuic-server`, with the two streams
it relays between. -/

namespace Tuic.Server

open Lib

def bufferSize : ℕ := 8 * 1024

/-- `a` is the stream of the client, `b` the one of the target. -/
inductive End
  | a
  | b
  deriving DecidableEq, Repr

def End.other : End → End
  | a => b
  | b => a

/-- What one end sends: what has arrived of it, what of that is still to be read, and
whether its end of stream has arrived. `written` has reached the other end, and `num`
is what the relay counts. -/
structure Direction where
  sent : List UInt8
  unread : List UInt8
  finished : Bool
  written : List UInt8
  num : ℕ
  deriving DecidableEq

namespace Direction

def new : Direction := ⟨[], [], false, [], 0⟩

/-- Nothing arrives after the end of the stream. -/
def arrive (self : Direction) (bytes : List UInt8) : Direction :=
  if self.finished then self
  else { self with sent := self.sent ++ bytes, unread := self.unread ++ bytes }

def finish (self : Direction) : Direction := { self with finished := true }

end Direction

/-- The loop waits in `select!`, or in `write_all` with the rest of what it read, or it
has returned, with an error or without. -/
inductive Exchanging
  | selecting
  | writing (source : End) (rest : List UInt8)
  | returned (failed : Bool)
  deriving DecidableEq

structure Exchange where
  dirs : End → Direction
  phase : Exchanging

namespace Exchange

def new : Exchange := ⟨fun _ => .new, .selecting⟩

def put (self : Exchange) (source : End) (dir : Direction) : Exchange :=
  { self with dirs := Function.update self.dirs source dir }

/-- `select!` takes the branch of `source`, whose read is ready with `num` bytes or
with the end of the stream. The other read takes nothing. -/
def read (self : Exchange) (source : End) (num : ℕ) : Exchange :=
  let dir := self.dirs source
  if self.phase ≠ .selecting then self
  else if dir.unread = [] then
    if dir.finished then { self with phase := .returned false } else self
  else if 0 < num ∧ num ≤ bufferSize ∧ num ≤ dir.unread.length then
    { self.put source { dir with unread := dir.unread.drop num, num := dir.num + num } with
      phase := .writing source (dir.unread.take num) }
  else self

/-- `write_all` gets `num` more bytes through. -/
def write (self : Exchange) (num : ℕ) : Exchange :=
  match self.phase with
  | .writing source rest =>
    let dir := self.dirs source
    { self.put source { dir with written := dir.written ++ rest.take num } with
      phase := if rest.drop num = [] then .selecting else .writing source (rest.drop num) }
  | _ => self

def readFails (self : Exchange) : Exchange :=
  match self.phase with
  | .selecting => { self with phase := .returned true }
  | _ => self

def writeFails (self : Exchange) : Exchange :=
  match self.phase with
  | .writing _ _ => { self with phase := .returned true }
  | _ => self

end Exchange

inductive ExchangeStep
  | arrive (source : End) (bytes : List UInt8)
  | finish (source : End)
  | read (source : End) (num : ℕ)
  | write (num : ℕ)
  | readFails
  | writeFails

def Exchange.step (self : Exchange) : ExchangeStep → Exchange
  | .arrive source bytes => self.put source ((self.dirs source).arrive bytes)
  | .finish source => self.put source (self.dirs source).finish
  | .read source num => self.read source num
  | .write num => self.write num
  | .readFails => self.readFails
  | .writeFails => self.writeFails

/-- A call of `exchange_tcp`, and what arrives meanwhile and after it. -/
def exchangeTcp : Machine Exchange ExchangeStep Unit := ⟨.new, fun s a => (s.step a, ())⟩

/-! ### What a run shows -/

/-- The loop reads the end of the stream of `source`, and returns. -/
def SeesEnd (source : End) (s : Exchange) (a : ExchangeStep) : Prop :=
  (∃ num, a = .read source num) ∧ s.phase = .selecting ∧ (s.dirs source).unread = [] ∧
    (s.dirs source).finished = true

/-- `select!` takes the branch of `source` and its read yields `num` bytes. -/
def Exchange.Takes (self : Exchange) (source : End) (num : ℕ) : Prop :=
  self.phase = .selecting ∧ (self.dirs source).unread ≠ [] ∧ 0 < num ∧ num ≤ bufferSize ∧
    num ≤ (self.dirs source).unread.length

instance (s : Exchange) (source : End) (num : ℕ) : Decidable (s.Takes source num) :=
  inferInstanceAs (Decidable (_ ∧ _ ∧ _ ∧ _ ∧ _))

/-- All that either end ever sent has been written to the other. -/
def RelaysAll (steps : List ExchangeStep) : Prop :=
  ∀ source, ((exchangeTcp.stateAt steps steps.length).dirs source).written =
    ((exchangeTcp.stateAt steps steps.length).dirs source).sent

/-- When the loop reads the end of one stream, it has read all that has arrived of the
other, and nothing more of that is to arrive. -/
def EndsTogether (steps : List ExchangeStep) : Prop :=
  ∀ i source, exchangeTcp.At steps (SeesEnd source) i →
    ((exchangeTcp.stateAt steps i).dirs source.other).unread = [] ∧
    ∀ j bytes, i < j → steps[j]? = some (.arrive source.other bytes) → bytes = [] ∨
      ((exchangeTcp.stateAt steps j).dirs source.other).finished = true

end Tuic.Server
