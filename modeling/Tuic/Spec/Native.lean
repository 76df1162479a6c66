import Mathlib.Logic.Relation
import Tuic.Spec.Fragments
import Tuic.Spec.Marshal

/-! UDP relay mode `native` in `tuic-quinn/src/lib.rs`: `Connection::packet_native`. -/

namespace Tuic.Quinn

open Lib Model

/-- `quinn::SendDatagramError` -/
inductive SendDatagramError
  | unsupportedByPeer
  | disabled
  | tooLarge
  | connectionLost
  deriving DecidableEq

/-- What `packet_native` uses of a QUIC connection, whose state is a `σ`. -/
structure Datagrams (b : Build) (σ : Type) where
  maxDatagramSize : σ → Option b.Usize
  sendDatagram : σ → List UInt8 → σ × Except SendDatagramError Unit

/-- The report of a failed call: an `Error::SendDatagram`, or quinn's error as it is. -/
inductive Report
  | error (e : SendDatagramError)
  | quinn (e : SendDatagramError)
  deriving DecidableEq

/-- The bytes of one datagram. -/
def datagram (frag : Fragment) : List UInt8 := (Header.packet frag.1).write ++ frag.2

/-- What a call leaves behind, with the datagrams it sent. -/
structure Sending (σ : Type) where
  conn : σ
  sent : List (List UInt8)
  res : Outcome Report Unit

variable {b : Build} {σ : Type}

/-- The loop over the fragments, for at most `fuel` of them. -/
def sendAll (q : Datagrams b σ) : ℕ → σ → Fragments → Sending σ
  | 0, conn, _ => ⟨conn, [], .ok ()⟩
  | fuel + 1, conn, frags =>
    match frags.next b with
    | .ok (some (frag, frags)) =>
      match q.sendDatagram conn (datagram frag) with
      | (conn, .ok ()) =>
        let rest := sendAll q fuel conn frags
        { rest with sent := datagram frag :: rest.sent }
      | (conn, .error e) => ⟨conn, [], .err (.quinn e)⟩
    | .ok none => ⟨conn, [], .ok ()⟩
    | .panic p => ⟨conn, [], .panic p⟩

def packetNative (q : Datagrams b σ) (conn : σ) (model : UdpSessions (List UInt8)) (pkt : List UInt8)
    (addr : Address) (assocId : UInt16) : UdpSessions (List UInt8) × Sending σ :=
  match q.maxDatagramSize conn with
  | none => (model, ⟨conn, [], .err (.error .disabled)⟩)
  | some maxPktSize =>
    let (model, tx) := model.sendPacket assocId addr maxPktSize
    match tx.intoFragments b pkt with
    | .ok frags => (model, sendAll q (frags.fragTotal.toNat - frags.nextFragId.toNat) conn frags)
    | .panic p => (model, ⟨conn, [], .panic p⟩)

/-- The states of the iterator from one fragment to the next. -/
def Reaches (b : Build) : Fragments → Fragments → Prop :=
  Relation.ReflTransGen fun frags frags' => ∃ frag, frags.next b = .ok (some (frag, frags'))

end Tuic.Quinn
