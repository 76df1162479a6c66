import Mathlib.Data.PNat.Defs
import Tuic.Lib.Progress
import Tuic.Spec.TcpRelay

/-! A relayed TCP connection whose writes wait for room: each direction of the stream has a
window (`stream_receive_window`), each socket a buffer, and `copy_bidirectional` a buffer of
its own. What waits in a socket is taken by the program or by the target, in steps of theirs. -/

namespace Tuic

open Lib Quinn

/-- How much may be on its way in each direction of the stream, wait in the sockets of the target and
of the program, and be copied at a time. -/
structure Windows where
  up : ℕ+
  down : ℕ+
  target : ℕ+
  app : ℕ+
  copy : ℕ+

structure WindowedRelay where
  relay : TcpRelay
  /-- How much the target has taken of what was written to it, and the program. -/
  targetTaken : ℕ
  appTaken : ℕ

inductive WindowedStep
  | relay (a : TcpStep)
  | targetTakes (num : ℕ)
  | appTakes (num : ℕ)

/-- What has been written to the stream, and not been read at the server. -/
def TcpRelay.onStream (self : TcpRelay) : ℕ := self.up.bytes.length + (self.relay.dirs .a).unread.length

namespace WindowedRelay

def init (addr : WireAddress) : WindowedRelay := ⟨.init addr, 0, 0⟩

/-- What waits in the socket of the target. -/
def atTarget (self : WindowedRelay) : List UInt8 := self.relay.toTarget.drop self.targetTaken

def atApp (self : WindowedRelay) : List UInt8 := self.relay.toApp.drop self.appTaken

def Fits (self : WindowedRelay) (w : Windows) : Prop :=
  self.relay.onStream ≤ w.up ∧ self.relay.down.bytes.length ≤ w.down ∧
    self.atTarget.length ≤ w.target ∧ self.atApp.length ≤ w.app ∧
    self.relay.upBuf.length ≤ w.copy ∧ self.relay.downBuf.length ≤ w.copy

instance (self : WindowedRelay) (w : Windows) : Decidable (self.Fits w) :=
  inferInstanceAs (Decidable (_ ∧ _ ∧ _ ∧ _ ∧ _ ∧ _))

/-- A write for which there is no room waits, and so does a read of `copy_bidirectional`. -/
def step (w : Windows) (self : WindowedRelay) : WindowedStep → WindowedRelay
  | .relay a =>
    let next := { self with relay := self.relay.step a }
    if next.Fits w then next else self
  | .targetTakes num => { self with targetTaken := self.targetTaken + min num self.atTarget.length }
  | .appTakes num => { self with appTaken := self.appTaken + min num self.atApp.length }

end WindowedRelay

def windowedRelay (addr : WireAddress) (w : Windows) : Machine WindowedRelay WindowedStep Unit :=
  ⟨.init addr, fun s a => (s.step w a, ())⟩

/-! ### How far a run comes by itself -/

/-- More bytes of the program or of the target, or their end. -/
def TcpStep.Brings : TcpStep → Prop
  | .appSends _ | .appFinishes | .exchange (.arrive _ _) | .exchange (.finish .b) => True
  | _ => False

/-- That the program and the target take what they are sent is not brought from outside. -/
def WindowedStep.Brings : WindowedStep → Prop
  | .relay a => a.Brings
  | _ => False

/-- Neither side has ended, and the server has an address left to try. -/
structure TcpRelay.Running (s : TcpRelay) : Prop where
  client : s.client ≠ .ended
  server : s.server ≠ .ended
  addresses : s.server ≠ .connecting []
  relay : ∀ failed, s.relay.phase ≠ .returned failed

/-- A step that does something, and ends neither side. -/
def WindowedRelay.Works (w : Windows) (s : WindowedRelay) (a : WindowedStep) : Prop :=
  ¬ a.Brings ∧ (s.step w a).relay.Running ∧ s.step w a ≠ s

/-- Each side has been sent all that the other had sent, and has taken it. -/
structure WindowedRelay.Delivered (s s' : WindowedRelay) : Prop where
  target : s'.relay.toTarget = s.relay.fromApp ∧ s'.atTarget = []
  app : s'.relay.toApp = s.relay.fromTarget ∧ s'.atApp = []

/-- In whatever order such steps come, there are only so many of them, and when none is left all has
been delivered. They include those in which the program and the target take what waits for them:
both are assumed to go on taking it. -/
structure WindowedRelay.Delivers (addr : WireAddress) (w : Windows) (s : WindowedRelay) : Prop where
  ends : (windowedRelay addr w).Terminates (WindowedRelay.Works w) s
  delivered : ∀ steps, (windowedRelay addr w).Keeps (WindowedRelay.Works w) s steps →
    Machine.Still (WindowedRelay.Works w) ((windowedRelay addr w).exec s steps) →
    s.Delivered ((windowedRelay addr w).exec s steps)
  reached : ∃ steps, (windowedRelay addr w).Keeps (WindowedRelay.Works w) s steps ∧
    s.Delivered ((windowedRelay addr w).exec s steps)

end Tuic
