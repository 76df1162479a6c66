import Tuic.Spec.Model
import Tuic.Spec.Unmarshal

/-! Commands in QUIC datagrams: `Connection::accept_datagram` of both sides and
`Packet::accept` in `tuic-quinn/src/lib.rs`, and the client's `handle_packet` on
top of it. -/

namespace Tuic.Quinn

open Lib Model

/-- Where the payload of a received `Packet` comes from: the bytes still to come
on its stream before the stream ends or fails, or the rest of its datagram. -/
inductive PacketSource
  | quic (recv : List UInt8)
  | native (payload : List UInt8)
  deriving DecidableEq

/-- A received `Packet` command. -/
structure Packet where
  model : PacketRx
  src : PacketSource
  deriving DecidableEq

/-- The tasks a datagram can carry. -/
inductive Task
  | packet (pkt : Packet)
  | heartbeat
  deriving DecidableEq

inductive Error
  | ioError
  | payloadLength (expected actual : ℕ)
  | invalidUdpSession (assocId pktId : UInt16)
  | assemble (e : AssembleError)
  | unmarshalDatagram (e : UnmarshalError) (dg : List UInt8)
  | badCommandDatagram (cmd : String) (dg : List UInt8)
  deriving DecidableEq

/-- `Bytes::slice`, which panics when the range exceeds the buffer. -/
def slice {ε : Type} (bytes : List UInt8) (start stop : ℕ) : Outcome ε (List UInt8) :=
  if start ≤ stop ∧ stop ≤ bytes.length then .ok ((bytes.drop start).take (stop - start))
  else .panic .outOfBounds

/-- `Connection::<side::Client>::accept_datagram` -/
def acceptDatagramClient (s : UdpSessions (List UInt8)) (dg : List UInt8) : Outcome Error Task :=
  match Header.unmarshalAt dg with
  | .err e => .err (.unmarshalDatagram e dg)
  | .panic p => .panic p
  | .ok (.authenticate _, _) => .err (.badCommandDatagram "authenticate" dg)
  | .ok (.connect _, _) => .err (.badCommandDatagram "connect" dg)
  | .ok (.packet pkt, pos) =>
    match s.recvPacket pkt with
    | some model =>
      if pos + model.size.toNat ≤ dg.length then do
        let payload ← slice dg pos (pos + model.size.toNat)
        pure (.packet ⟨model, .native payload⟩)
      else .err (.payloadLength model.size.toNat (dg.length - pos))
    | none => .err (.invalidUdpSession pkt.assocId pkt.pktId)
  | .ok (.dissociate _, _) => .err (.badCommandDatagram "dissociate" dg)
  | .ok (.heartbeat _, _) => .err (.badCommandDatagram "heartbeat" dg)

/-- `Connection::<side::Server>::accept_datagram` -/
def acceptDatagramServer (s : UdpSessions (List UInt8)) (dg : List UInt8) :
    UdpSessions (List UInt8) × Outcome Error Task :=
  match Header.unmarshalAt dg with
  | .err e => (s, .err (.unmarshalDatagram e dg))
  | .panic p => (s, .panic p)
  | .ok (.authenticate _, _) => (s, .err (.badCommandDatagram "authenticate" dg))
  | .ok (.connect _, _) => (s, .err (.badCommandDatagram "connect" dg))
  | .ok (.packet pkt, pos) =>
    let (s, model) := s.recvPacketUnrestricted pkt
    (s, do
      let payload ← slice dg pos (pos + model.size.toNat)
      pure (.packet ⟨model, .native payload⟩))
  | .ok (.dissociate _, _) => (s, .err (.badCommandDatagram "dissociate" dg))
  | .ok (.heartbeat _, _) => (s, .ok .heartbeat)

/-- The payload of a received `Packet`: read to exactly `size` bytes from a
stream, there already in a datagram. -/
def PacketSource.read (self : PacketSource) (size : ℕ) : Option (List UInt8) :=
  match self with
  | quic recv => if size ≤ recv.length then some (recv.take size) else none
  | native payload => some payload

/-- What `accept` makes of the answer of `assemble`. -/
def accepted (res : Inserted (List UInt8)) : Outcome Error (Option (List UInt8 × Address × UInt16)) :=
  match res with
  | .err e => .err (.assemble e)
  | .panic p => .panic p
  | .ok none => .ok none
  | .ok (some asm) =>
    match asm.assemble with
    | .ok res => .ok (some res)
    | .panic p => .panic p

def Packet.accept (b : Build) (now : Instant) (s : UdpSessions (List UInt8)) (self : Packet) :
    UdpSessions (List UInt8) × Outcome Error (Option (List UInt8 × Address × UInt16)) :=
  match self.src.read self.model.size.toNat with
  | none => (s, .err .ioError)
  | some payload =>
    let (s, res) := s.assemble b now self.model payload
    (s, accepted res)

/-- The address type of the SOCKS5 side. -/
inductive Socks5Address
  | domainAddress (domain : String) (port : UInt16)
  | socketAddress (addr : SocketAddr)
  deriving DecidableEq

/-- The client's `Connection::handle_packet`, up to what it hands to the SOCKS5
session of the association. `logged` says whether the log line that prints
`frag_id + 1` is enabled. -/
def handlePacket (b : Build) (now : Instant) (logged : Bool) (s : UdpSessions (List UInt8))
    (pkt : Packet) :
    UdpSessions (List UInt8) × Outcome Empty (Option (List UInt8 × Socks5Address × UInt16)) :=
  match (if logged then b.addU8 pkt.model.fragId 1 else .ok pkt.model.fragId : Outcome Empty UInt8) with
  | .panic p => (s, .panic p)
  | .ok _ =>
    match pkt.accept b now s with
    | (s, .ok (some (payload, addr, _))) =>
      match addr with
      | .none => (s, .panic .unreachable)
      | .domainAddress domain port =>
        (s, .ok (some (payload, .domainAddress domain port, pkt.model.assocId)))
      | .socketAddress addr => (s, .ok (some (payload, .socketAddress addr, pkt.model.assocId)))
    | (s, .ok none) => (s, .ok none)
    | (s, .err _) => (s, .ok none)
    | (s, .panic p) => (s, .panic p)

end Tuic.Quinn
