import Tuic.Lib.Keys
import Tuic.Lib.Machine
import Tuic.Spec.Model

/-! One association of the client on one TUIC connection: the receive loop of
`handle_associate`, the forward tasks it spawns, and its tail. `get_conn` yields the
connection or does not: it fails, or another connection has taken its place. -/

namespace Tuic.Client

open Lib Model

/-- A command of the association on the connection. -/
inductive Command
  | packet (pkt : PacketTx)
  | dissociate (assocId : UInt16)
  deriving DecidableEq

/-- A forward task. `sending` has the fragments that come after the next. -/
inductive Forward
  | spawned
  | connected
  | sending (pkt : PacketTx) (more : ℕ)
  | done
  deriving DecidableEq

/-- The forward task with that many fragments to send. -/
def Forward.rest (pkt : PacketTx) : ℕ → Forward
  | 0 => .done
  | more + 1 => .sending pkt more

/-- Where `handle_associate` is, from the receive loop on. -/
inductive Tail
  | receiving
  | stopped
  | removed
  | connected
  | dissociated
  | returned
  deriving DecidableEq, Repr

/-- `sent` has the commands in the order in which they are sent. -/
structure Associating where
  model : UdpSessions (List UInt8)
  sent : List Command
  forwards : List Forward
  tail : Tail

inductive AssociateStep
  | receive
  | getConn (k : ℕ) (yields : Bool)
  | refuse (k : ℕ)
  | packet (k : ℕ) (addr : Address) (maxPktSize frags : ℕ)
  | sendFragment (k : ℕ) (sent : Bool)
  | stop
  | remove
  | tailGetConn (yields : Bool)
  | dissociate
  | sendDissociate (sent : Bool)
  | other (call : Call (List UInt8))

namespace Associating

def enter (self : Associating) (k : ℕ) (forward : Forward) : Associating :=
  { self with forwards := self.forwards.set k forward }

/-- The association that a call is about, if it may change its session. -/
def about : Call (List UInt8) → Option UInt16
  | .sendPacket assocId _ _ => some assocId
  | .recvPacketUnrestricted header => some header.assocId
  | .assemble _ pkt _ => some pkt.assocId
  | .sendDissociate assocId => some assocId
  | .recvDissociate header => some header.assocId
  | .recvPacket _ | .collectGarbage _ _ => none

/-- The loop has received a packet and spawns a task. -/
def receive (self : Associating) : Associating :=
  match self.tail with
  | .receiving => { self with forwards := self.forwards ++ [.spawned] }
  | _ => self

def getConn (self : Associating) (k : ℕ) (yields : Bool) : Associating :=
  match self.forwards[k]? with
  | some .spawned => self.enter k (if yields then .connected else .done)
  | _ => self

/-- `Connection::packet` returns an error before it calls `send_packet`. -/
def refuse (self : Associating) (k : ℕ) : Associating :=
  match self.forwards[k]? with
  | some .connected => self.enter k .done
  | _ => self

/-- `Connection::packet` calls `send_packet`, and has `frags` fragments to send. -/
def packet (self : Associating) (assocId : UInt16) (k : ℕ) (addr : Address)
    (maxPktSize frags : ℕ) : Associating :=
  match self.forwards[k]? with
  | some .connected =>
    let (model, pkt) := self.model.sendPacket assocId addr maxPktSize
    { self.enter k (.rest pkt frags) with model }
  | _ => self

/-- The next fragment goes out, or an error ends the task. -/
def sendFragment (self : Associating) (k : ℕ) (sent : Bool) : Associating :=
  match self.forwards[k]? with
  | some (.sending pkt more) =>
    if sent then { self.enter k (.rest pkt more) with sent := self.sent ++ [.packet pkt] }
    else self.enter k .done
  | _ => self

/-- The tail goes from one point to the next. -/
def advance (self : Associating) (start next : Tail) : Associating :=
  if self.tail = start then { self with tail := next } else self

/-- `Connection::dissociate` calls `send_dissociate`. -/
def dissociate (self : Associating) (assocId : UInt16) : Associating :=
  if self.tail = .connected then
    { self with tail := .dissociated, model := (self.model.sendDissociate assocId).1 }
  else self

/-- The command goes out, or an error is logged. -/
def sendDissociate (self : Associating) (assocId : UInt16) (sent : Bool) : Associating :=
  if self.tail = .dissociated then
    { self with
      tail := .returned
      sent := if sent then self.sent ++ [.dissociate assocId] else self.sent }
  else self

/-- A call of another association, or of the garbage collector. What comes in from the server for
this association is left out, a packet that would bring its session back among it. -/
def other (self : Associating) (b : Build) (assocId : UInt16) (call : Call (List UInt8)) : Associating :=
  if about call = some assocId then self else { self with model := (Model.step b self.model call).1 }

def step (b : Build) (assocId : UInt16) (self : Associating) : AssociateStep → Associating
  | .receive => self.receive
  | .getConn k yields => self.getConn k yields
  | .refuse k => self.refuse k
  | .packet k addr maxPktSize frags => self.packet assocId k addr maxPktSize frags
  | .sendFragment k sent => self.sendFragment k sent
  | .stop => self.advance .receiving .stopped
  | .remove => self.advance .stopped .removed
  | .tailGetConn yields => self.advance .removed (if yields then .connected else .returned)
  | .dissociate => self.dissociate assocId
  | .sendDissociate sent => self.sendDissociate assocId sent
  | .other call => self.other b assocId call

end Associating

def associating (b : Build) (assocId : UInt16) : Machine Associating AssociateStep Unit :=
  ⟨⟨.new, [], [], .receiving⟩, fun s a => (s.step b assocId a, ())⟩

/-! ### What a run shows -/

/-- No packet of the association follows its dissociation, and once `handle_associate`
has returned only other associations have a session and are counted. -/
structure Associating.Closed (assocId : UInt16) (s : Associating) : Prop where
  order : ∀ (i j : ℕ) pkt, s.sent[i]? = some (.dissociate assocId) → s.sent[j]? = some (.packet pkt) → j < i
  session : s.tail = .returned → s.model.sessions.get assocId = none
  count : s.tail = .returned → s.model.taskAssociateCount = (s.model.sessions.keys \ {assocId}).ncard

def Associating.AllDone (s : Associating) : Prop := ∀ forward ∈ s.forwards, forward = .done

/-- The tail calls `dissociate` on the connection. -/
def CallsDissociate (s : Associating) (a : AssociateStep) : Prop := a = .dissociate ∧ s.tail = .connected

/-- The tail does not get the connection. -/
def MissesConn (s : Associating) (a : AssociateStep) : Prop := a = .tailGetConn false ∧ s.tail = .removed

/-- A forward task calls `send_packet` on the connection. -/
def SendsPacket (s : Associating) (a : AssociateStep) : Prop :=
  ∃ k addr maxPktSize frags, a = .packet k addr maxPktSize frags ∧ s.forwards[k]? = some .connected

/-- The tail ends when every forward task has finished, and then it gets the connection
or none of them has called `send_packet` on it. -/
structure ForwardsFirst (b : Build) (assocId : UInt16) (steps : List AssociateStep) : Prop where
  dissociates : ∀ i, (associating b assocId).At steps CallsDissociate i →
    ((associating b assocId).stateAt steps i).AllDone
  misses : ∀ i, (associating b assocId).At steps MissesConn i →
    ((associating b assocId).stateAt steps i).AllDone ∧
      ∀ j < i, ¬ (associating b assocId).At steps SendsPacket j

end Tuic.Client
