import Tuic.Lib.Outcome
import Tuic.Spec.Exchange

/-! The counts that `exchange_tcp` of `tuic-server` returns. They are `usize` values, and
each is raised before what has been read is written. -/

namespace Tuic.Server

open Lib

/-- A call with the counts `a2b_num` and `b2a_num` as the build computes them, by the end
that is read from. It has panicked if an addition overflowed and the build checks. -/
structure CountedExchange where
  relay : Exchange
  nums : End → ℕ
  panicked : Bool

namespace CountedExchange

def new : CountedExchange := ⟨.new, fun _ => 0, false⟩

/-- The count goes up with the bytes that were read. -/
def add (b : Build) (self : CountedExchange) (source : End) (num : ℕ) : CountedExchange :=
  match b.addUsize (self.nums source) num with
  | .ok n => { self with nums := Function.update self.nums source n }
  | .err e => nomatch (e : Empty)
  | .panic _ => { self with panicked := true }

def read (b : Build) (self : CountedExchange) (source : End) (num : ℕ) : CountedExchange :=
  if self.relay.Takes source num then
    { self with relay := self.relay.read source num }.add b source num
  else { self with relay := self.relay.read source num }

/-- After a panic no more is relayed; what arrives at the sockets still does. -/
def step (b : Build) (self : CountedExchange) : ExchangeStep → CountedExchange
  | .arrive source bytes => { self with relay := self.relay.step (.arrive source bytes) }
  | .finish source => { self with relay := self.relay.step (.finish source) }
  | .read source num => if self.panicked then self else self.read b source num
  | .write num => if self.panicked then self else { self with relay := self.relay.write num }
  | .readFails => if self.panicked then self else { self with relay := self.relay.readFails }
  | .writeFails => if self.panicked then self else { self with relay := self.relay.writeFails }

/-- The call returns the counts, with an error or without. -/
def Returned (self : CountedExchange) (failed : Bool) : Prop :=
  self.panicked = false ∧ self.relay.phase = .returned failed

/-- What has been read of an end. -/
def taken (self : CountedExchange) (source : End) : ℕ :=
  (self.relay.dirs source).sent.length - (self.relay.dirs source).unread.length

end CountedExchange

def countedExchange (b : Build) : Machine CountedExchange ExchangeStep Unit where
  init := .new
  step s a := (s.step b a, ())

/-! ### What a run shows -/

/-- What is written is a prefix of what was sent, and the counts are the bytes written;
after an error one of them may be ahead, by no more than a buffer. -/
structure CountsRelayed (b : Build) (steps : List ExchangeStep) : Prop where
  relays : ∀ n ≤ steps.length, ∀ source,
    (((countedExchange b).stateAt steps n).relay.dirs source).written <+:
      (((countedExchange b).stateAt steps n).relay.dirs source).sent
  counts : ∀ n ≤ steps.length, ((countedExchange b).stateAt steps n).Returned false → ∀ source,
    ((countedExchange b).stateAt steps n).nums source =
      (((countedExchange b).stateAt steps n).relay.dirs source).written.length
  failed : ∀ n ≤ steps.length, ((countedExchange b).stateAt steps n).Returned true → ∃ source,
    ((countedExchange b).stateAt steps n).nums source.other =
      (((countedExchange b).stateAt steps n).relay.dirs source.other).written.length ∧
    (((countedExchange b).stateAt steps n).relay.dirs source).written.length ≤
      ((countedExchange b).stateAt steps n).nums source ∧
    ((countedExchange b).stateAt steps n).nums source ≤
      (((countedExchange b).stateAt steps n).relay.dirs source).written.length + bufferSize

/-- When the call returns, fewer bytes have been read of either end than a `usize` has
values. -/
def ReadsFit (b : Build) (steps : List ExchangeStep) : Prop :=
  ∀ n ≤ steps.length, ∀ failed, ((countedExchange b).stateAt steps n).Returned failed → ∀ source,
    ((countedExchange b).stateAt steps n).taken source < 2 ^ b.usizeBits

end Tuic.Server
