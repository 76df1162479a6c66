import Tuic.Lib.Machine
import Tuic.Spec.Exchange
import Tuic.Spec.Link
import Tuic.Spec.Tunnel

/-! One relayed TCP connection from end to end: `handle_connect` of the client's SOCKS5
server with `Connection::connect`, the bidirectional stream in between, and on the
server `accept_bi_stream`, `handle_connect` and `exchange_tcp`. All that is read or
written may be read or written in pieces. -/

namespace Tuic

open Lib Quinn
open Server (End Exchange ExchangeStep)

/-- Where `handle_connect` of the client is. -/
inductive ClientConnect
  /-- It writes the header, of which that much is to go. -/
  | marshalling (rest : List UInt8)
  | replying
  | copying
  | ended
  deriving DecidableEq

/-- What is left to write of the header. -/
def ClientConnect.rest : ClientConnect → List UInt8
  | marshalling rest => rest
  | _ => []

/-- Where the task of the stream is on the server. -/
inductive ServerConnect
  | accepting (p : Async UnmarshalError Header)
  | resolving (addr : Address)
  /-- The addresses that it has not tried. -/
  | connecting (addrs : List SocketAddr)
  | exchanging
  | ended

/-- How `TcpStream::connect` and `set_nodelay` end for one address. -/
inductive TcpConnect
  | connected
  | nodelayFails
  | fails
  deriving DecidableEq

/-- One direction of the stream: what is on its way, and how the sender has ended it. That of
a stream that is reset nothing more arrives is an assumption on `quinn`, and so is that a
stream takes all that is written to it. -/
structure Flow where
  bytes : List UInt8
  finished : Bool
  reset : Bool
  deriving DecidableEq

def Flow.new : Flow := ⟨[], false, false⟩

def Flow.write (self : Flow) (bytes : List UInt8) : Flow := { self with bytes := self.bytes ++ bytes }

def Flow.take (self : Flow) (num : ℕ) : List UInt8 := if self.reset then [] else self.bytes.take num

def Flow.drop (self : Flow) (num : ℕ) : Flow :=
  if self.reset then self else { self with bytes := self.bytes.drop num }

def Flow.finish (self : Flow) : Flow := { self with finished := true }

def Flow.abort (self : Flow) : Flow := { self with reset := true }

/-- The reader comes to the end of the stream. -/
def Flow.AtEnd (self : Flow) : Prop := self.finished = true ∧ self.reset = false ∧ self.bytes = []

instance (self : Flow) : Decidable self.AtEnd := inferInstanceAs (Decidable (_ ∧ _ ∧ _))

structure TcpRelay where
  client : ClientConnect
  server : ServerConnect
  /-- All that the program has sent, and what the client has not read of it. -/
  fromApp : List UInt8
  appUnread : List UInt8
  appFinished : Bool
  /-- What `copy_bidirectional` has read and not written. -/
  upBuf : List UInt8
  downBuf : List UInt8
  toApp : List UInt8
  up : Flow
  down : Flow
  relay : Exchange
  /-- What the server's resolver has answered, once it has. -/
  answer : Option (List SocketAddr)
  /-- The addresses that the server has tried. -/
  attempts : List SocketAddr

inductive TcpStep
  | appSends (bytes : List UInt8)
  | appFinishes
  | writeHeader (num : ℕ)
  | reply
  | readApp (num : ℕ)
  | writeUp (num : ℕ)
  | finishUp
  | readDown (num : ℕ)
  | writeApp (num : ℕ)
  | finishClient
  | failClient
  | pollHeader (meets : ByteStream)
  | resolve (dns : Option (List SocketAddr))
  | tryConnect (tcp : TcpConnect)
  | deliver (num : ℕ)
  | exchange (a : ExchangeStep)
  | finishServer
  | failServer

namespace TcpRelay

/-- The client has a connection and calls `connect` for this address. -/
def init (addr : WireAddress) : TcpRelay where
  client := .marshalling (Header.connect ⟨addr.1⟩).write
  server := .accepting Header.asyncUnmarshal
  fromApp := []
  appUnread := []
  appFinished := false
  upBuf := []
  downBuf := []
  toApp := []
  up := .new
  down := .new
  relay := .new
  answer := none
  attempts := []

/-- What has been written to the target, and what it has sent. -/
def toTarget (self : TcpRelay) : List UInt8 := (self.relay.dirs .a).written

def fromTarget (self : TcpRelay) : List UInt8 := (self.relay.dirs .b).sent

def appSends (self : TcpRelay) (bytes : List UInt8) : TcpRelay :=
  if self.appFinished then self
  else { self with fromApp := self.fromApp ++ bytes, appUnread := self.appUnread ++ bytes }

def writeHeader (self : TcpRelay) (num : ℕ) : TcpRelay :=
  match self.client with
  | .marshalling rest =>
    { self with
      up := self.up.write (rest.take num)
      client := if rest.drop num = [] then .replying else .marshalling (rest.drop num) }
  | _ => self

/-- The program is told that it is connected, before the server has tried to. -/
def reply (self : TcpRelay) : TcpRelay :=
  match self.client with
  | .replying => { self with client := .copying }
  | _ => self

/-- `copy_bidirectional` reads from the program. -/
def readApp (self : TcpRelay) (num : ℕ) : TcpRelay :=
  match self.client with
  | .copying =>
    { self with upBuf := self.upBuf ++ self.appUnread.take num, appUnread := self.appUnread.drop num }
  | _ => self

def writeUp (self : TcpRelay) (num : ℕ) : TcpRelay :=
  match self.client with
  | .copying => { self with up := self.up.write (self.upBuf.take num), upBuf := self.upBuf.drop num }
  | _ => self

/-- It shuts the stream down when all has been written. -/
def finishUp (self : TcpRelay) : TcpRelay :=
  match self.client with
  | .copying =>
    if self.appFinished ∧ self.appUnread = [] ∧ self.upBuf = [] then { self with up := self.up.finish } else self
  | _ => self

def readDown (self : TcpRelay) (num : ℕ) : TcpRelay :=
  match self.client with
  | .copying => { self with downBuf := self.downBuf ++ self.down.take num, down := self.down.drop num }
  | _ => self

def writeApp (self : TcpRelay) (num : ℕ) : TcpRelay :=
  match self.client with
  | .copying => { self with toApp := self.toApp ++ self.downBuf.take num, downBuf := self.downBuf.drop num }
  | _ => self

/-- `copy_bidirectional` returns when both directions are through. -/
def finishClient (self : TcpRelay) : TcpRelay :=
  match self.client with
  | .copying =>
    if self.up.finished ∧ self.down.AtEnd ∧ self.downBuf = [] then { self with client := .ended } else self
  | _ => self

/-- An error resets the stream if it comes from `copy_bidirectional`. Before that the stream
is shut down or dropped, which finishes it. -/
def failClient (self : TcpRelay) : TcpRelay :=
  match self.client with
  | .copying => { self with client := .ended, up := self.up.abort }
  | .ended => self
  | _ => { self with client := .ended, up := self.up.finish }

/-- One poll of `accept_bi_stream`. Only a `connect` goes on to `handle_connect`. -/
def pollHeader (self : TcpRelay) (meets : ByteStream) : TcpRelay :=
  match self.server with
  | .accepting p =>
    if meets.bytes <+: self.up.bytes ∧ self.up.reset = false then
      let (p, rest) := p.poll meets
      let up := { self.up with bytes := rest.bytes ++ self.up.bytes.drop meets.bytes.length }
      match p with
      | .ready (.ok header) =>
        match acceptBiHeader .server header with
        | .ok (.connect conn) => { self with up, server := .resolving conn.addr }
        | _ => { self with up, server := .ended }
      | .ready _ => { self with up, server := .ended }
      | p => { self with up, server := .accepting p }
    else self
  | _ => self

def resolve (self : TcpRelay) (dns : Option (List SocketAddr)) : TcpRelay :=
  match self.server with
  | .resolving addr => { self with server := .connecting ((resolveDns dns addr).getD []), answer := dns }
  | _ => self

/-- The loop over the addresses; after the last one `conn` is shut down. -/
def tryConnect (self : TcpRelay) (tcp : TcpConnect) : TcpRelay :=
  match self.server with
  | .connecting (addr :: addrs) =>
    let attempts := self.attempts ++ [addr]
    match tcp with
    | .connected => { self with attempts, server := .exchanging }
    | .nodelayFails => { self with attempts, server := .ended, down := self.down.finish }
    | .fails => { self with attempts, server := .connecting addrs }
  | .connecting [] => { self with server := .ended, down := self.down.finish }
  | _ => self

/-- Some more of the stream arrives at the server. -/
def deliver (self : TcpRelay) (num : ℕ) : TcpRelay :=
  match self.server with
  | .exchanging =>
    { self with relay := self.relay.step (.arrive .a (self.up.take num)), up := self.up.drop num }
  | _ => self

/-- Any other step of `exchange_tcp`. What it writes to the client is on its way there. -/
def exchange (self : TcpRelay) (a : ExchangeStep) : TcpRelay :=
  match self.server with
  | .exchanging =>
    match a with
    | .arrive .a _ => self
    | .finish .a => if self.up.AtEnd then { self with relay := self.relay.step (.finish .a) } else self
    | a =>
      let relay := self.relay.step a
      { self with
        relay
        down := self.down.write ((relay.dirs .b).written.drop (self.relay.dirs .b).written.length) }
  | _ => self

/-- `exchange_tcp` has returned. -/
def finishServer (self : TcpRelay) : TcpRelay :=
  match self.server, self.relay.phase with
  | .exchanging, .returned true => { self with server := .ended, down := self.down.abort }
  | .exchanging, .returned false => { self with server := .ended, down := self.down.finish }
  | _, _ => self

def step (self : TcpRelay) : TcpStep → TcpRelay
  | .appSends bytes => self.appSends bytes
  | .appFinishes => { self with appFinished := true }
  | .writeHeader num => self.writeHeader num
  | .reply => self.reply
  | .readApp num => self.readApp num
  | .writeUp num => self.writeUp num
  | .finishUp => self.finishUp
  | .readDown num => self.readDown num
  | .writeApp num => self.writeApp num
  | .finishClient => self.finishClient
  | .failClient => self.failClient
  | .pollHeader meets => self.pollHeader meets
  | .resolve dns => self.resolve dns
  | .tryConnect tcp => self.tryConnect tcp
  | .deliver num => self.deliver num
  | .exchange a => self.exchange a
  | .finishServer => self.finishServer
  -- the connection is lost, or the stream cannot be read
  | .failServer => { self with server := .ended }

end TcpRelay

def tcpRelay (addr : WireAddress) : Machine TcpRelay TcpStep Unit := ⟨.init addr, fun s a => (s.step a, ())⟩

/-! ### What a run shows -/

/-- No error has ended `exchange_tcp`, and nothing waits in `write_all`. -/
def TcpRelay.Settled (s : TcpRelay) : Prop := s.relay.phase = .selecting ∨ s.relay.phase = .returned false

/-- Nothing of what the program has sent is on its way to the target. -/
structure TcpRelay.UpDrained (s : TcpRelay) : Prop where
  app : s.appUnread = [] ∧ s.upBuf = []
  stream : s.up.bytes = []
  target : (s.relay.dirs .a).unread = []
  settled : s.Settled

structure TcpRelay.DownDrained (s : TcpRelay) : Prop where
  target : (s.relay.dirs .b).unread = []
  settled : s.Settled
  stream : s.down.bytes = []
  app : s.downBuf = []

/-- The bytes of each side come to the other as a prefix, and all of them once nothing
is left in between. -/
structure TcpRelay.Relayed (addr : WireAddress) (s : TcpRelay) : Prop where
  up : s.toTarget <+: s.fromApp
  down : s.toApp <+: s.fromTarget
  upDrained : s.UpDrained → s.toTarget = s.fromApp
  downDrained : s.DownDrained → s.toApp = s.fromTarget
  /-- The end of the stream has come to the server: all has, or the client has failed
  before it took anything. -/
  finished : (s.relay.dirs .a).finished = true →
    s.appFinished = true ∧ (s.relay.dirs .a).sent = s.fromApp ∨
      s.client = .ended ∧ (s.relay.dirs .a).sent = []
  /-- The end of the stream has come to the client: all has, but for what the server had
  not read when it ended. -/
  closed : s.down.AtEnd → s.downBuf = [] → s.fromTarget = s.toApp ++ (s.relay.dirs .b).unread
  /-- The server tries the addresses that its resolver answered, or the address itself, in their order. -/
  attempts : s.attempts <+: (resolveDns s.answer addr.1.onWire).getD []
  connected : s.attempts = [] → s.toTarget = [] ∧ s.fromTarget = []

end Tuic
