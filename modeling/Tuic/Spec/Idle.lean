import Tuic.Spec.Model
import Tuic.Spec.UdpSession

/-! One UDP session of a server with a clock: the listen loop of `UdpSession::new` in
`connection/udp_session.rs`, and what happens to its session meanwhile. -/

namespace Tuic.Server

open Lib Model

/-- The session with its interval timer, which there is once the listen task has begun,
and the packets that wait on its sockets. -/
structure TimedSession where
  clock : Instant
  session : UdpSession
  deadline : Option Instant
  unread : ℕ
  deriving DecidableEq, Repr

inductive TimedStep
  | begin
  | elapse (d : Duration)
  | arrive
  | recv
  | recvFails
  | send
  | timeout
  | dissociate
  | leave
  deriving DecidableEq, Repr

namespace TimedSession

def new (assocId : UInt16) : TimedSession := ⟨0, .new assocId, none, 0⟩

/-- The listen task is in its loop. -/
def listening (self : TimedSession) : Bool := self.deadline.isSome && self.session.listen == .running

/-- `timeout.reset()` -/
def reset (self : TimedSession) (timeout : Duration) : TimedSession :=
  { self with deadline := some (self.clock + timeout) }

/-- `tick` is ready. -/
def expired (self : TimedSession) : Bool := self.listening && self.deadline.any (· ≤ self.clock)

/-- The interval of a timeout of zero panics, and the task ends there. -/
def begin (self : TimedSession) (timeout : Duration) : TimedSession :=
  if self.deadline = none ∧ timeout ≠ 0 then self.reset timeout else self

def receives (self : TimedSession) : Bool := self.listening && self.unread ≠ 0

def recv (self : TimedSession) (timeout : Duration) : TimedSession :=
  if self.receives then { self.reset timeout with unread := self.unread - 1 } else self

/-- An error is logged, behind the reset. -/
def recvFails (self : TimedSession) (timeout : Duration) : TimedSession :=
  if self.listening then self.reset timeout else self

/-- The branch of `tick`, which is next due one period later. -/
def tick (self : TimedSession) (timeout : Duration) : TimedSession :=
  if self.expired then
    { self with session := self.session.close, deadline := self.deadline.map (· + timeout) }
  else self

/-- The branch of the close channel. -/
def leave (self : TimedSession) : TimedSession :=
  if self.listening && !self.session.closeTx then
    { self with session := { self.session with listen := .leaving } }
  else self

/-- `UdpSession::send` writes to a socket, and that is all. -/
def step (timeout : Duration) (self : TimedSession) : TimedStep → TimedSession
  | .begin => self.begin timeout
  | .elapse d => { self with clock := self.clock + d }
  | .arrive => { self with unread := self.unread + 1 }
  | .recv => self.recv timeout
  | .recvFails => self.recvFails timeout
  | .send => self
  | .timeout => self.tick timeout
  | .dissociate => { self with session := self.session.close }
  | .leave => self.leave

end TimedSession

/-- A session from its creation on, with the `stream_timeout` of the configuration. -/
def timedSession (streamTimeout : Duration) (assocId : UInt16) : Machine TimedSession TimedStep Unit where
  init := .new assocId
  step s a := (s.step streamTimeout a, ())

/-! ### What a run shows -/

/-- The timeout branch closes the session. -/
def Expires (s : TimedSession) (a : TimedStep) : Prop :=
  a = .timeout ∧ s.expired = true ∧ s.session.closeTx = true

/-- A packet from the outside comes to the sockets or is received from them, or a packet
from the client is sent. -/
def Busy (s : TimedSession) (a : TimedStep) : Prop :=
  a = .arrive ∨ (a = .recv ∧ s.receives = true) ∨ a = .send

/-- The listen task resets its timer. -/
def Resets (s : TimedSession) (a : TimedStep) : Prop :=
  (a = .recv ∧ s.receives = true) ∨ (a = .recvFails ∧ s.listening = true)

section

variable (streamTimeout : Duration) (assocId : UInt16) (steps : List TimedStep)

/-- The timeout closes a session only if nothing has gone through it for that long. -/
def OnlyIdle : Prop :=
  ∀ i j, i < j → (timedSession streamTimeout assocId).At steps Busy i →
    (timedSession streamTimeout assocId).At steps Expires j →
    ((timedSession streamTimeout assocId).stateAt steps i).clock + streamTimeout ≤
      ((timedSession streamTimeout assocId).stateAt steps j).clock

/-- The listen task sees a packet before it sees the end of its timer, and as long as the
session is open, it receives something after every packet that is sent later than the
last reset, before the timer ends. -/
structure Answered : Prop where
  read : ∀ j, (timedSession streamTimeout assocId).At steps Expires j →
    ((timedSession streamTimeout assocId).stateAt steps j).unread = 0
  answered : ∀ i, steps[i]? = some .send → ∀ deadline,
    ((timedSession streamTimeout assocId).stateAt steps i).deadline = some deadline →
    deadline < ((timedSession streamTimeout assocId).stateAt steps i).clock + streamTimeout →
    ∀ j, i < j → j < steps.length →
      ((timedSession streamTimeout assocId).stateAt steps j).session.closeTx = true →
      deadline ≤ ((timedSession streamTimeout assocId).stateAt steps j).clock →
      ∃ k, i < k ∧ k < j ∧ (timedSession streamTimeout assocId).At steps Resets k

end

end Tuic.Server
