import Tuic.Spec.Buffers
import Tuic.Spec.Fragments

/-! Two connections and the network between them: one sends packets and ends
associations, the other receives what arrives and collects garbage. Messages are
delayed, reordered and lost, but not duplicated. -/

namespace Tuic.Model

open Lib

/-- What is in flight. Each fragment has its own datagram or stream, and so has
each `Dissociate`. -/
inductive Wire
  | fragment (frag : Fragment)
  | dissociate (dissoc : Dissociate)
  deriving DecidableEq

structure Network where
  sender : UdpSessions (List UInt8)
  receiver : UdpSessions (List UInt8)
  flight : List Wire
  /-- Every packet sent so far with its payload, the latest first. -/
  sends : List (PacketTx × List UInt8)
  /-- Every packet delivered so far, the latest first. -/
  delivered : List (List UInt8 × Address × UInt16)

/-- `arrive` and `lose` are about the message at a position of the flight. -/
inductive Action (b : Build)
  | send (assocId : UInt16) (addr : Address) (maxPktSize : b.Usize) (payload : b.Slice)
  | sendDissociate (assocId : UInt16)
  | arrive (i : ℕ) (now : Instant)
  | lose (i : ℕ)
  | collectGarbage (now : Instant) (timeout : Duration)

namespace Network

def init : Network := ⟨.new, .new, [], [], []⟩

/-- The receiver handles a message. -/
def handle (b : Build) (now : Instant) (s : Network) : Wire → Network
  | .fragment (header, data) =>
    let (receiver, pkt) := s.receiver.recvPacketUnrestricted header
    let (receiver, res) := receiver.assemble b now pkt data
    { s with receiver, delivered := (Answer.assembled res).delivery.toList ++ s.delivered }
  | .dissociate dissoc => { s with receiver := (s.receiver.recvDissociate dissoc).1 }

def step (b : Build) (s : Network) : Action b → Network
  | .send assocId addr maxPktSize payload =>
    let (sender, tx) := s.sender.sendPacket assocId addr maxPktSize
    { s with
      sender
      flight := s.flight ++ (tx.fragments b payload).1.map .fragment
      sends := (tx, payload.1) :: s.sends }
  | .sendDissociate assocId =>
    let (sender, dissoc) := s.sender.sendDissociate assocId
    { s with sender, flight := s.flight ++ [.dissociate dissoc] }
  | .arrive i now =>
    match s.flight[i]? with
    | some wire => { s with flight := s.flight.eraseIdx i }.handle b now wire
    | none => s
  | .lose i => { s with flight := s.flight.eraseIdx i }
  | .collectGarbage now timeout => { s with receiver := s.receiver.collectGarbage now timeout }

end Network

def network (b : Build) : Machine Network (Action b) Unit := ⟨.init, fun s a => (s.step b a, ())⟩

/-! ### When a send is safe -/

/-- The id that the next packet of an association gets. -/
def UdpSessions.nextPktId (s : UdpSessions (List UInt8)) (assocId : UInt16) : UInt16 :=
  match s.sessions.get assocId with
  | some session => session.nextPktId
  | none => 0

/-- No fragment in flight has the key, and no buffer of the receiver. -/
def Network.Unused (s : Network) (key : Key) : Prop :=
  (∀ frag, .fragment frag ∈ s.flight → PacketRx.key frag.1 ≠ key) ∧ s.receiver.buffers.get key = none

/-- The payload takes at most 255 fragments, or a multiple of 256, of which none
is sent. `first` and `rest` are the room in the first and in each later one. -/
def CountFits (first rest len : ℕ) : Prop :=
  len < first + 254 * rest ∨
    ∃ k, first + (256 * k + 254) * rest ≤ len ∧ len < first + (256 * k + 255) * rest

/-- A packet is sent only under an unused key and with a fitting count. -/
def Action.Safe {b : Build} (s : Network) : Action b → Prop
  | .send assocId addr maxPktSize payload =>
    s.Unused (assocId, s.sender.nextPktId assocId) ∧
      CountFits (b.wrappingSub maxPktSize (headerLen addr)) (b.wrappingSub maxPktSize (headerLen .none))
        payload.1.length
  | _ => True

end Tuic.Model
