import Tuic.Spec.Channel
import Tuic.Spec.Link
import Tuic.Spec.RelayMode
import Tuic.Spec.Socks5

/-! The UDP relay from end to end: the associations of a client, its connection to a
server, and the sessions of that connection there. What a program sends to the socket
of an association leaves through the socket of a session, and what comes to the socket
of a session leaves through the socket of an association. Between the two there are
`handle_associate` of `tuic-client`, `handle_packet` of both sides, and `send`, `recv`
and `relay_packet` of `tuic-server`. All tasks run at the same time. -/

namespace Tuic

open Lib Model Quinn
open Server (UdpRelayMode WeakSession UdpStep)
open Client (Socks5 Socks5Step)

/-- The arguments of `packet_native` and `packet_quic`. -/
structure UdpPacket where
  pkt : UdpPayload
  addr : WireAddress
  assocId : UInt16

/-- What the other side hands on. -/
def UdpPacket.delivery (self : UdpPacket) : Delivery := (self.pkt.1, self.addr.1.onWire, self.assocId)

/-- The fields of the server's configuration that its sockets depend on. -/
structure SocketConfig where
  udpRelayIpv6 : Bool
  maxExternalPacketSize : ℕ

/-- A session has a socket for addresses like this one. -/
def SocketConfig.hasSocket (cfg : SocketConfig) : SocketAddr → Bool
  | .v4 _ _ => true
  | .v6 _ _ _ _ => cfg.udpRelayIpv6

/-- What `recv` returns: as much of the packet as the buffer has room for. -/
def SocketConfig.received (cfg : SocketConfig) (pkt : UdpPayload) (srcAddr : SocketAddr)
    (assocId : UInt16) : UdpPacket where
  pkt := ⟨pkt.1.take cfg.maxExternalPacketSize, Nat.lt_of_le_of_lt (List.take_sublist _ _).length_le pkt.2⟩
  addr := ⟨.socketAddress srcAddr, Address.onWire_encodable nofun⟩
  assocId

/-- `resolve_dns`; `dns` is the answer of the resolver if it is asked. -/
def resolveDns (dns : Option (List SocketAddr)) : Address → Option (List SocketAddr)
  | .none => none
  | .domainAddress _ _ => dns
  | .socketAddress addr => some [addr]

/-- Where `handle_packet` of the server is. -/
inductive HandlePacket
  /-- `accept` has returned a packet. -/
  | accepted
  /-- It has found no session and waits for the lock. -/
  | waiting
  | located (session : WeakSession)
  | resolved (session : WeakSession) (socketAddr : SocketAddr)
  | done
  deriving DecidableEq

structure Handling where
  packet : Delivery
  phase : HandlePacket
  /-- What the resolver has answered to it. -/
  answer : Option (List SocketAddr)

/-- What a `handle_packet` has sent through the socket of a session. -/
structure Outgoing where
  handler : ℕ
  session : WeakSession
  socketAddr : SocketAddr
  packet : Delivery

/-- What went through the sockets at both ends is kept in the last four fields. -/
structure Tunnel where
  link : Link
  /-- The client: its associations, its `forward` tasks, and its `handle_packet` tasks
  with what `accept` has returned to them. -/
  socks5 : Socks5
  forwards : List UdpPacket
  arrivals : List Delivery
  /-- The server: its sessions, its `handle_packet` tasks with the numbers of those that
  wait for the lock, and its `relay_packet` tasks. -/
  sessions : Server.UdpSessions
  handlers : List Handling
  waiting : List ℕ
  relays : List UdpPacket
  fromApps : List (ℕ × UdpPacket)
  toTargets : List Outgoing
  fromTargets : List (WeakSession × UdpPacket)
  toApps : List (ℕ × Delivery)

/-- In `forward` and `relay` a task calls `packet_native` or `packet_quic`, or ends
before it does. -/
inductive TunnelStep (σ : Type)
  | link (a : LinkStep σ)
  | socks5 (a : Socks5Step)
  | recvApp (k : ℕ) (pkt : UdpPayload) (addr : WireAddress)
  | forward (i : ℕ) (mode : UdpRelayMode) (conn : σ)
  | dropForward (i : ℕ)
  | sendApp (i : ℕ)
  | session (a : UdpStep)
  | lookUp (x : ℕ)
  | entry (i : ℕ) (bound : Bool)
  | resolve (x : ℕ) (dns : Option (List SocketAddr))
  | send (x : ℕ) (ok : Bool)
  | recv (session : WeakSession) (pkt : UdpPayload) (srcAddr : SocketAddr)
  | relay (i : ℕ) (mode : UdpRelayMode) (conn : σ)
  | dropRelay (i : ℕ)

variable {b : Build} {σ : Type}

/-- The call that sends the packet. -/
def UdpPacket.send (self : UdpPacket) (side : Side) (conn : σ) : UdpRelayMode → LinkStep σ
  | .native => .send side (.packetNative conn self.pkt self.addr self.assocId)
  | .quic => .send side (.packetQuic self.pkt self.addr self.assocId)

/-- The step is a call that sends a packet. -/
def Quinn.LinkStep.sendsPacket : LinkStep σ → Bool
  | .send _ (.packetNative _ _ _ _) | .send _ (.packetQuic _ _ _) => true
  | _ => false

/-- What is new at the front of a list. -/
def newly {α : Type} (before after : List α) : List α := after.take (after.length - before.length)

namespace Tunnel

def init : Tunnel := ⟨.init, .new, [], [], .new, [], [], [], [], [], [], []⟩

/-- The connections do a step, and what they hand on goes to new tasks. -/
def onLink (q : Datagrams b σ) (self : Tunnel) (a : LinkStep σ) : Tunnel :=
  let link := self.link.step q a
  let accepted (side : Side) := newly (self.link.pipe side).delivered (link.pipe side).delivered
  { self with
    link
    arrivals := accepted .client ++ self.arrivals
    handlers := self.handlers ++ (accepted .server).map (⟨·, .accepted, none⟩) }

/-- The socket of association number `k` has a packet, and a task is spawned for it. -/
def recvApp (self : Tunnel) (k : ℕ) (pkt : UdpPayload) (addr : WireAddress) : Tunnel :=
  match self.socks5.associations[k]? with
  | some ⟨assocId, .live⟩ =>
    { self with
      forwards := ⟨pkt, addr, assocId⟩ :: self.forwards
      fromApps := (k, ⟨pkt, addr, assocId⟩) :: self.fromApps }
  | _ => self

def forward (q : Datagrams b σ) (self : Tunnel) (i : ℕ) (mode : UdpRelayMode) (conn : σ) : Tunnel :=
  match self.forwards[i]? with
  | some packet => { self with forwards := self.forwards.eraseIdx i }.onLink q (packet.send .client conn mode)
  | none => self

/-- `handle_packet` of the client looks for the session and sends. -/
def sendApp (self : Tunnel) (i : ℕ) : Tunnel :=
  match self.arrivals[i]? with
  | some (pkt, addr, assocId) =>
    let self := { self with arrivals := self.arrivals.eraseIdx i }
    match self.socks5.udpSessions.get assocId with
    | some k => { self with toApps := (k, pkt, addr, assocId) :: self.toApps }
    | none => self
  | none => self

/-- `handle_packet` number `x` goes on. -/
def goOn (self : Tunnel) (x : ℕ) (phase : HandlePacket) : Tunnel :=
  { self with handlers := self.handlers.modify x ({ · with phase }) }

/-- A step of the sessions that no `handle_packet` takes. -/
def session (self : Tunnel) : UdpStep → Tunnel
  | .lookUp _ | .entry _ _ => self
  | a => { self with sessions := (self.sessions.step a).1 }

def lookUp (self : Tunnel) (x : ℕ) : Tunnel :=
  match self.handlers[x]? with
  | some ⟨(_, _, assocId), .accepted, _⟩ =>
    match self.sessions.lookUp assocId with
    | (sessions, some session) => { self with sessions }.goOn x (.located session)
    | (sessions, none) => { self with sessions, waiting := self.waiting ++ [x] }.goOn x .waiting
  | _ => self

def entry (self : Tunnel) (i : ℕ) (bound : Bool) : Tunnel :=
  match self.waiting[i]? with
  | some x =>
    match self.handlers[x]? with
    | some ⟨_, .waiting, _⟩ =>
      let self := { self with waiting := self.waiting.eraseIdx i }
      match self.sessions.entry i bound with
      | (sessions, some session) => { self with sessions }.goOn x (.located session)
      | (sessions, none) => { self with sessions }.goOn x .done
    | _ => self
  | none => self

def resolve (self : Tunnel) (x : ℕ) (dns : Option (List SocketAddr)) : Tunnel :=
  match self.handlers[x]? with
  | some ⟨(_, addr, _), .located session, _⟩ =>
    let self := { self with handlers := self.handlers.modify x ({ · with answer := dns }) }
    match (resolveDns dns addr).bind List.head? with
    | some socketAddr => self.goOn x (.resolved session socketAddr)
    | none => self.goOn x .done
  | _ => self

/-- `ok` says whether the session is still there and the socket takes the packet. -/
def send (cfg : SocketConfig) (self : Tunnel) (x : ℕ) (ok : Bool) : Tunnel :=
  match self.handlers[x]? with
  | some ⟨packet, .resolved session socketAddr, _⟩ =>
    if ok && cfg.hasSocket socketAddr then
      { self with toTargets := ⟨x, session, socketAddr, packet⟩ :: self.toTargets }.goOn x .done
    else self.goOn x .done
  | _ => self

/-- The listen task of a session receives a packet and spawns a `relay_packet`. -/
def recv (cfg : SocketConfig) (self : Tunnel) (session : WeakSession) (pkt : UdpPayload)
    (srcAddr : SocketAddr) : Tunnel :=
  match self.sessions.created[session]? with
  | some ⟨assocId, _, .running⟩ =>
    if cfg.hasSocket srcAddr then
      let packet := cfg.received pkt srcAddr assocId
      { self with
        relays := packet :: self.relays
        fromTargets := (session, packet) :: self.fromTargets }
    else self
  | _ => self

def relay (q : Datagrams b σ) (self : Tunnel) (i : ℕ) (mode : UdpRelayMode) (conn : σ) : Tunnel :=
  match self.relays[i]? with
  | some packet => { self with relays := self.relays.eraseIdx i }.onLink q (packet.send .server conn mode)
  | none => self

def step (q : Datagrams b σ) (cfg : SocketConfig) (self : Tunnel) : TunnelStep σ → Tunnel
  | .link a => if a.sendsPacket then self else self.onLink q a
  | .socks5 a => { self with socks5 := (self.socks5.step a).1 }
  | .recvApp k pkt addr => self.recvApp k pkt addr
  | .forward i mode conn => self.forward q i mode conn
  | .dropForward i => { self with forwards := self.forwards.eraseIdx i }
  | .sendApp i => self.sendApp i
  | .session a => self.session a
  | .lookUp x => self.lookUp x
  | .entry i bound => self.entry i bound
  | .resolve x dns => self.resolve x dns
  | .send x ok => self.send cfg x ok
  | .recv session pkt srcAddr => self.recv cfg session pkt srcAddr
  | .relay i mode conn => self.relay q i mode conn
  | .dropRelay i => { self with relays := self.relays.eraseIdx i }

end Tunnel

def tunnel (q : Datagrams b σ) (cfg : SocketConfig) : Machine Tunnel (TunnelStep σ) Unit where
  init := .init
  step s a := (s.step q cfg a, ())

/-! ### What a run shows -/

def Server.UdpSessions.assocOf (self : Server.UdpSessions) (x : WeakSession) : Option UInt16 :=
  self.created[x]?.map Server.UdpSession.assocId

def Client.Socks5.assocOf (self : Socks5) (k : ℕ) : Option UInt16 :=
  self.associations[k]?.map Client.Association.assocId

namespace Tunnel

/-- What came to the sockets of the associations with an id, with the destination. -/
def fromAppsOn (self : Tunnel) (assocId : UInt16) : List (List UInt8 × Address) :=
  (self.fromApps.filter fun o => self.socks5.assocOf o.1 = some assocId).map fun o =>
    (o.2.pkt.1, o.2.addr.1.onWire)

/-- What left through the sockets of the sessions of an id, with the destination. -/
def toTargetsOn (self : Tunnel) (assocId : UInt16) : List (List UInt8 × Address) :=
  (self.toTargets.filter fun o => self.sessions.assocOf o.session = some assocId).map fun o =>
    (o.packet.1, o.packet.2.1)

/-- What came to the sockets of the sessions of an id, with the source. -/
def fromTargetsOn (self : Tunnel) (assocId : UInt16) : List (List UInt8 × Address) :=
  (self.fromTargets.filter fun o => self.sessions.assocOf o.1 = some assocId).map fun o =>
    (o.2.pkt.1, o.2.addr.1.onWire)

/-- What left through the sockets of the associations with an id, with the source. -/
def toAppsOn (self : Tunnel) (assocId : UInt16) : List (List UInt8 × Address) :=
  (self.toApps.filter fun o => self.socks5.assocOf o.1 = some assocId).map fun o => (o.2.1, o.2.2.1)

/-- On each id, only what came in on one side leaves on the other, and no more often. -/
structure Isolated (cfg : SocketConfig) (self : Tunnel) : Prop where
  out : ∀ assocId, (self.toTargetsOn assocId).Subperm (self.fromAppsOn assocId)
  back : ∀ assocId, (self.toAppsOn assocId).Subperm (self.fromTargetsOn assocId)
  /-- It leaves for the address that it carries, or the first one that the resolver has
  answered to its task. -/
  resolved : ∀ o ∈ self.toTargets, cfg.hasSocket o.socketAddr ∧
    ∃ handling, self.handlers[o.handler]? = some handling ∧ handling.packet = o.packet ∧
      (resolveDns handling.answer o.packet.2.1).bind List.head? = some o.socketAddr

end Tunnel

end Tuic
