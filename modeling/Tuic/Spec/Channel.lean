import Mathlib.Data.Multiset.AddSub
import Mathlib.Data.Multiset.ZeroCons
import Tuic.Sanity.Fragments
import Tuic.Spec.Network

/-! One direction of a relay, seen from outside: what the receiver has stored, what
is in flight, what was sent and what was handed on. Nothing is said about how a
message travels or how the sender numbers its packets. -/

namespace Tuic.Model

open Lib

/-- A packet as the receiver hands it on. -/
abbrev Delivery := List UInt8 × Address × UInt16

structure Channel where
  buffers : Buffers (List UInt8)
  flight : Multiset Wire
  /-- Every packet sent so far with its payload, the latest first. -/
  sends : List (PacketTx × List UInt8)
  delivered : Multiset Delivery

inductive ChannelStep
  | send (tx : PacketTx) (payload : List UInt8)
  | sendDissociate (assocId : UInt16)
  | arrive (wire : Wire) (now : Instant)
  | lose (wire : Wire)
  /-- The receiver ends an association by itself. -/
  | forget (assocId : UInt16)
  | collectGarbage (now : Instant) (timeout : Duration)

namespace Channel

def init : Channel := ⟨.empty, 0, [], 0⟩

def handle (b : Build) (now : Instant) (s : Channel) : Wire → Channel
  | .fragment (header, data) =>
    let (buffers, res) := s.buffers.assemble b now header data
    { s with buffers, delivered := ↑(Answer.assembled res).delivery.toList + s.delivered }
  | .dissociate dissoc => { s with buffers := s.buffers.dissociate dissoc.assocId }

def step (b : Build) (s : Channel) : ChannelStep → Channel
  | .send tx payload =>
    { s with
      flight := s.flight + ((tx.fragments b payload).1.map .fragment : List Wire)
      sends := (tx, payload) :: s.sends }
  | .sendDissociate assocId => { s with flight := .dissociate ⟨assocId⟩ ::ₘ s.flight }
  | .arrive wire now =>
    if wire ∈ s.flight then { s with flight := s.flight.erase wire }.handle b now wire else s
  | .lose wire => { s with flight := s.flight.erase wire }
  | .forget assocId => { s with buffers := s.buffers.dissociate assocId }
  | .collectGarbage now timeout => { s with buffers := s.buffers.collectGarbage now timeout }

/-- Something of a packet with this key is in flight or stored. -/
def Outstanding (s : Channel) (key : Key) : Prop :=
  (∃ frag, .fragment frag ∈ s.flight ∧ PacketRx.key frag.1 = key) ∨ s.buffers.get key ≠ none

end Channel

/-- A packet is sent only under a key of which nothing is left, and with a fitting
count. -/
def ChannelStep.Safe (b : Build) (s : Channel) : ChannelStep → Prop
  | .send tx payload =>
    PacketTx.InMemory b tx payload ∧ ¬ s.Outstanding (tx.assocId, tx.pktId) ∧
      CountFits (tx.firstSize b) (tx.restSize b) payload.length
  | _ => True

def channel (b : Build) : Machine Channel ChannelStep Unit := ⟨.init, fun s a => (s.step b a, ())⟩

end Tuic.Model
