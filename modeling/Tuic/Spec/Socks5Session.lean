import Tuic.Lib.Machine
import Tuic.Spec.Protocol

/-! The socket of a SOCKS5 association: `recv` in `socks5/udp_session.rs` of
`tuic-client`. `peer_addr` is the address last passed to `connect`. -/

namespace Tuic

open Lib

/-- `::ffff:a.b.c.d` -/
def Ipv4Addr.toIpv6Mapped (ip : Ipv4Addr) : Ipv6Addr :=
  ⟨0, 0, 0, 0, 0, 0xffff, ofBeBytes ip.a ip.b, ofBeBytes ip.c ip.d⟩

def Ipv6Addr.toIpv4Mapped (ip : Ipv6Addr) : Option Ipv4Addr :=
  if ip = ⟨0, 0, 0, 0, 0, 0xffff, ip.g, ip.h⟩ then
    some ⟨hiByte ip.g, loByte ip.g, hiByte ip.h, loByte ip.h⟩
  else none

/-- The address without the mapping. -/
def SocketAddr.canon : SocketAddr → SocketAddr
  | .v4 ip port => .v4 ip port
  | .v6 ip port flowinfo scopeId =>
    match ip.toIpv4Mapped with
    | some ip => .v4 ip port
    | none => .v6 ip port flowinfo scopeId

/-- An IPv6 address has no flow information and no scope. -/
def SocketAddr.Plain : SocketAddr → Prop
  | .v4 _ _ => True
  | .v6 _ _ flowinfo scopeId => flowinfo = 0 ∧ scopeId = 0

namespace Client

/-- A SOCKS5 datagram. -/
structure Datagram where
  srcAddr : SocketAddr
  frag : UInt8
  dstAddr : Address
  pkt : List UInt8
  deriving DecidableEq

/-- What `recv_from` returns: an error, or a datagram, whose source the socket can be
connected to or not. -/
inductive Arrival
  | error
  | datagram (d : Datagram) (connects : Bool)
  deriving DecidableEq

inductive RecvError
  | recvFrom
  | connect
  /-- "invalid source address: {src_addr}" -/
  | invalidSource (srcAddr : SocketAddr)
  /-- "fragmented packet is not supported" -/
  | fragmented
  deriving DecidableEq

/-- The error is about the source or the FRAG field of the datagram. -/
def RecvError.Refusal : RecvError → Prop
  | recvFrom | connect => False
  | invalidSource _ | fragmented => True

/-- `UdpSession` as far as `recv` depends on it. -/
structure Socks5Session where
  peerAddr : Option SocketAddr
  deriving DecidableEq

namespace Socks5Session

def new : Socks5Session := ⟨none⟩

/-- The connected address in the family of the source. -/
def comparable (connectedAddr srcAddr : SocketAddr) : SocketAddr :=
  match connectedAddr with
  | .v4 ip port =>
    match srcAddr with
    | .v6 _ _ _ _ => .v6 ip.toIpv6Mapped port 0 0
    | .v4 _ _ => connectedAddr
  | .v6 ip port _ _ =>
    match srcAddr with
    | .v4 _ _ =>
      match ip.toIpv4Mapped with
      | some ip => .v4 ip port
      | none => connectedAddr
    | .v6 _ _ _ _ => connectedAddr

/-- The check that comes last. -/
def checkFrag (d : Datagram) : Except RecvError (List UInt8 × Address) :=
  if d.frag ≠ 0 then .error .fragmented else .ok (d.pkt, d.dstAddr)

def recv (self : Socks5Session) : Arrival → Socks5Session × Except RecvError (List UInt8 × Address)
  | .error => (self, .error .recvFrom)
  | .datagram d connects =>
    match self.peerAddr with
    | some connectedAddr =>
      if d.srcAddr ≠ comparable connectedAddr d.srcAddr then (self, .error (.invalidSource d.srcAddr))
      else (self, checkFrag d)
    | none =>
      if connects then ({ self with peerAddr := some d.srcAddr }, checkFrag d)
      else (self, .error .connect)

end Socks5Session

/-- The calls of `recv` in the loop of `handle_associate`. -/
def socks5Session : Machine Socks5Session Arrival (Except RecvError (List UInt8 × Address)) :=
  ⟨.new, Socks5Session.recv⟩

/-! ### What a run shows -/

/-- A datagram that is refused for its source or its FRAG field changes neither the
peer nor any later answer. -/
structure RefusalsIgnored (arrivals : List Arrival) : Prop where
  peer : ∀ i e, socks5Session.outAt arrivals i = some (.error e) → e.Refusal →
    (socks5Session.stateAt arrivals (i + 1)).peerAddr = (socks5Session.stateAt arrivals i).peerAddr
  answers : ∀ i e, socks5Session.outAt arrivals i = some (.error e) → e.Refusal → ∀ later,
    socks5Session.outputs (socks5Session.stateAt arrivals (i + 1)) later =
      socks5Session.outputs (socks5Session.stateAt arrivals i) later

/-- `d` is the first datagram whose source the socket can be connected to. -/
def Connects (arrivals : List Arrival) (i : ℕ) (d : Datagram) : Prop :=
  arrivals[i]? = some (.datagram d true) ∧ ∀ j < i, ∀ d', arrivals[j]? ≠ some (.datagram d' true)

/-- What holds of the later datagrams once the peer is `p`: it stays so, and without
fragments those that come from there, mapped or not, are the ones that are returned. -/
structure LockedTo (arrivals : List Arrival) (p : SocketAddr) (j : ℕ) (d : Datagram) : Prop where
  peer : (socks5Session.stateAt arrivals j).peerAddr = some p
  accepted : d.frag = 0 →
    (socks5Session.outAt arrivals j = some (.ok (d.pkt, d.dstAddr)) ↔ d.srcAddr.canon = p.canon)
  relayed : ∀ res, socks5Session.outAt arrivals j = some (.ok res) → d.srcAddr.canon = p.canon

end Client

end Tuic
