import Mathlib.Data.Nat.ModEq
import Tuic.Spec.Connections
import Tuic.Spec.ExchangeCount
import Tuic.Spec.Traffic

/-! What a server counts of what it relays: `handle_connect`, `handle_packet` and
`relay_packet` of `connection/handle_task.rs` on all of its connections, with the
requests that read and reset the counters in between. -/

namespace Tuic.Server

open Lib Model

/-- The end that the bytes of a counter are read from. -/
def TrafficSide.source : TrafficSide → End
  | tx => .a
  | rx => .b

/-- Where `handle_connect` is. It loads `auth` once for both counts. -/
inductive TcpPhase
  | exchanging
  | countingTx (uuid : Uuid)
  | countingRx (uuid : Uuid)
  | ended (uuid : Uuid)
  /-- "Unexpected autherization state" -/
  | refused
  deriving DecidableEq

structure TcpTask where
  conn : QuicClient
  call : CountedExchange
  phase : TcpPhase

/-- Where `handle_packet` is, from its count on, or `relay_packet`. -/
inductive UdpPhase
  | entered
  | sending (uuid : Uuid)
  | sent (uuid : Uuid)
  | failed (uuid : Uuid)
  | refused
  deriving DecidableEq

/-- `handle_packet` counts as `tx` what it sends, and `relay_packet` as `rx`. -/
structure UdpTask where
  conn : QuicClient
  side : TrafficSide
  pkt : List UInt8
  phase : UdpPhase
  deriving DecidableEq

structure Accounting where
  server : Connections
  walks : List Walk
  tcp : List TcpTask
  udp : List UdpTask

inductive AccountingStep
  | connection (a : ConnectionStep)
  | connect (c : QuicClient)
  | exchange (i : ℕ) (a : ExchangeStep)
  | finishConnect (i : ℕ)
  | countConnect (i : ℕ)
  | packet (c : QuicClient) (side : TrafficSide) (pkt : List UInt8)
  | countPacket (i : ℕ)
  | sendPacket (i : ℕ) (ok : Bool)
  | request (walker : Walker) (token : Option String)
  | advance (i : ℕ)

/-- `traffic_tx` or `traffic_rx`. -/
def Restful.addTraffic (self : Restful) (cfg : Config) (side : TrafficSide) (uuid : Uuid) (size : UInt64) : Restful :=
  match side with
  | .tx => self.trafficTx cfg uuid size
  | .rx => self.trafficRx cfg uuid size

def TcpTask.exchange (b : Build) (a : ExchangeStep) (self : TcpTask) : TcpTask :=
  match self.phase with
  | .exchanging => { self with call := self.call.step b a }
  | _ => self

/-- `exchange_tcp` has returned, and the user is loaded. -/
def TcpTask.finish (auth : Option Uuid) (self : TcpTask) : TcpTask :=
  match self.phase, self.call.panicked, self.call.relay.phase with
  | .exchanging, false, .returned _ =>
    { self with phase := match auth with | some uuid => .countingTx uuid | none => .refused }
  | _, _, _ => self

def UdpTask.send (ok : Bool) (self : UdpTask) : UdpTask :=
  match self.phase with
  | .sending uuid => { self with phase := if ok then .sent uuid else .failed uuid }
  | _ => self

namespace Accounting

/-- The counters, and the requests that walk over them. -/
def traffic (self : Accounting) : TrafficState := ⟨self.server.restful, self.walks⟩

def auth (self : Accounting) (c : QuicClient) : Option Uuid := self.server.conns[c]?.bind fun conn => conn.auth.get

def setRestful (self : Accounting) (restful : Restful) : Accounting :=
  { self with server := { self.server with restful } }

/-- All else that goes on at a server. Relays, and requests about traffic, have their own steps. -/
def connection (ctx : Context) (self : Accounting) (a : ConnectionStep) : Accounting :=
  match a with
  | .relay _ _ _ | .request (.listTraffic _) | .request (.resetTraffic _) => self
  | a => { self with server := (self.server.step ctx a).1 }

/-- `handle_connect` of a connection that has been accepted. -/
def connect (self : Accounting) (c : QuicClient) : Accounting :=
  match self.server.conns[c]? with
  | some _ => { self with tcp := self.tcp ++ [⟨c, .new, .exchanging⟩] }
  | none => self

def finishConnect (self : Accounting) (i : ℕ) : Accounting :=
  { self with tcp := self.tcp.modify i fun task => task.finish (self.auth task.conn) }

/-- The next of the two counts. -/
def countConnect (cfg : Config) (self : Accounting) (i : ℕ) : Accounting :=
  match self.tcp[i]? with
  | some ⟨_, call, .countingTx uuid⟩ =>
    { self.setRestful (self.server.restful.trafficTx cfg uuid (.ofNat (call.nums .a))) with
      tcp := self.tcp.modify i ({ · with phase := .countingRx uuid }) }
  | some ⟨_, call, .countingRx uuid⟩ =>
    { self.setRestful (self.server.restful.trafficRx cfg uuid (.ofNat (call.nums .b))) with
      tcp := self.tcp.modify i ({ · with phase := .ended uuid }) }
  | _ => self

def packet (self : Accounting) (c : QuicClient) (side : TrafficSide) (pkt : List UInt8) : Accounting :=
  match self.server.conns[c]? with
  | some _ => { self with udp := self.udp ++ [⟨c, side, pkt, .entered⟩] }
  | none => self

/-- A packet is counted before it is sent. -/
def countPacket (cfg : Config) (self : Accounting) (i : ℕ) : Accounting :=
  match self.udp[i]? with
  | some ⟨conn, side, pkt, .entered⟩ =>
    match self.auth conn with
    | some uuid =>
      { self.setRestful (self.server.restful.addTraffic cfg side uuid (.ofNat pkt.length)) with
        udp := self.udp.modify i ({ · with phase := .sending uuid }) }
    | none => { self with udp := self.udp.modify i ({ · with phase := .refused }) }
  | _ => self

def request (cfg : Config) (order : UserOrder cfg) (self : Accounting) (walker : Walker) (token : Option String) :
    Accounting :=
  { self with walks := self.walks ++ [.start walker cfg order token] }

def advance (self : Accounting) (i : ℕ) : Accounting :=
  match self.walks[i]? with
  | some walk =>
    let (restful, walk) := walk.advance self.server.restful
    { self.setRestful restful with walks := self.walks.modify i fun _ => walk }
  | none => self

def step (b : Build) (ctx : Context) (order : UserOrder ctx.cfg) (self : Accounting) : AccountingStep → Accounting
  | .connection a => self.connection ctx a
  | .connect c => self.connect c
  | .exchange i a => { self with tcp := self.tcp.modify i (.exchange b a) }
  | .finishConnect i => self.finishConnect i
  | .countConnect i => self.countConnect ctx.cfg i
  | .packet c side pkt => self.packet c side pkt
  | .countPacket i => self.countPacket ctx.cfg i
  | .sendPacket i ok => { self with udp := self.udp.modify i (.send ok) }
  | .request walker token => self.request ctx.cfg order walker token
  | .advance i => self.advance i

end Accounting

/-- A server from its start on. -/
def accounting (b : Build) (ctx : Context) (order : UserOrder ctx.cfg) : Machine Accounting AccountingStep Unit where
  init := ⟨⟨0, .start ctx.cfg, []⟩, [], [], []⟩
  step s a := (s.step b ctx order a, ())

/-! ### What a run shows -/

/-- Whom a relay is counted for. The user is loaded when `exchange_tcp` has returned, -/
def Accounting.userOf (self : Accounting) (task : TcpTask) : Option Uuid :=
  match task.phase with
  | .exchanging => self.auth task.conn
  | .countingTx uuid | .countingRx uuid | .ended uuid => some uuid
  | .refused => none

/-- and for a packet before it is sent. -/
def Accounting.userOfPacket (self : Accounting) (task : UdpTask) : Option Uuid :=
  match task.phase with
  | .entered => self.auth task.conn
  | .sending uuid | .sent uuid | .failed uuid => some uuid
  | .refused => none

section

variable (side : TrafficSide) (uuid : Uuid)

/-- One of its counts has been made for the user. -/
def TcpTask.countedFor (self : TcpTask) : Bool :=
  match side, self.phase with
  | .tx, .countingRx uuid' | _, .ended uuid' => uuid' = uuid
  | _, _ => false

/-- What its call of `exchange_tcp` has written so far. -/
def TcpTask.written (self : TcpTask) : ℕ := (self.call.relay.dirs side.source).written.length

def UdpTask.sentFor (self : UdpTask) : Bool := self.side = side ∧ self.phase = .sent uuid

/-- It has been counted, and is not sent. -/
def UdpTask.unsentFor (self : UdpTask) : Bool :=
  self.side = side ∧ (self.phase = .sending uuid ∨ self.phase = .failed uuid)

/-- The bytes that have been relayed: what all calls of `exchange_tcp` have written, whether they have
returned or not, and the packets that were sent. -/
def Accounting.relayed (s : Accounting) : ℕ :=
  (s.tcp.map fun task => if s.userOf task = some uuid then task.written side else 0).sum +
  (s.udp.map fun task => if task.sentFor side uuid then task.pkt.length else 0).sum

/-- What has been written and not yet counted, as its call has not returned or the count is still to
be made. -/
def Accounting.uncounted (s : Accounting) : ℕ :=
  (s.tcp.map fun task =>
    if s.userOf task = some uuid ∧ task.countedFor side uuid = false then task.written side else 0).sum

/-- What may be counted and not relayed: a buffer of each call that failed, and the packets that
are not sent. -/
def Accounting.atRisk (s : Accounting) : ℕ :=
  (s.tcp.map fun task =>
    if task.countedFor side uuid ∧ task.call.relay.phase = .returned true then bufferSize else 0).sum +
  (s.udp.map fun task => if task.unsentFor side uuid then task.pkt.length else 0).sum

end

/-- The counts of all calls of `exchange_tcp` fit a `usize`. -/
def Accounting.CallsFit (b : Build) (s : Accounting) : Prop :=
  ∀ task ∈ s.tcp, ∀ source, task.call.taken source < 2 ^ b.usizeBits

/-- What was reported, or is being reset, or is in the counter, or is still to be counted is what was
relayed, and it is never less. A call that has returned is counted by its next three steps and a packet
before it is sent, all of it for the nil user. -/
structure Accounted (b : Build) (ctx : Context) (order : UserOrder ctx.cfg) (s : Accounting) : Prop where
  balance : s.CallsFit b → ∀ side uuid, ctx.cfg.users.get uuid ≠ none →
    ∃ excess ≤ s.atRisk side uuid,
      s.traffic.reported side uuid + s.traffic.swapped side uuid + s.server.restful.counter side uuid +
        s.uncounted side uuid ≡ s.relayed side uuid + excess [MOD 2 ^ 64]
  nil : (∀ task ∈ s.tcp, s.userOf task = some nilUuid) ∧ ∀ task ∈ s.udp, s.userOfPacket task = some nilUuid
  others : ∀ side uuid, uuid ≠ nilUuid → s.relayed side uuid = 0 ∧ s.atRisk side uuid = 0 ∧
    s.traffic.reported side uuid = 0 ∧ s.traffic.swapped side uuid = 0 ∧ s.server.restful.counter side uuid = 0
  finishes : ∀ i task failed, s.tcp[i]? = some task → task.call.Returned failed →
    ((accounting b ctx order).exec s [.finishConnect i, .countConnect i, .countConnect i]).tcp[i]? =
      some { task with phase := .ended nilUuid }
  sends : ∀ i task ok, s.udp[i]? = some task → task.phase = .entered →
    ((accounting b ctx order).exec s [.countPacket i, .sendPacket i ok]).udp[i]? =
      some { task with phase := if ok then .sent nilUuid else .failed nilUuid }

end Tuic.Server
