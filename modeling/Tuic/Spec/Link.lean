import Tuic.Lib.Machine
import Tuic.Spec.Native
import Tuic.Spec.Streams

/-! Two `tuic_quinn::Connection`s at the ends of one QUIC connection, down to the
bytes. Each side sends packets in both relay modes while it receives what the
other one sends, on one session table. Datagrams are lost and reordered. Streams
are written and read in pieces, and the tasks at both ends of a stream are
suspended in between. -/

namespace Tuic.Quinn

open Lib Model

/-- No UDP datagram is longer. -/
abbrev UdpPayload := {bytes : List UInt8 // bytes.length < 2 ^ 16}

/-- The addresses that can be written: the length of a domain fits its byte. -/
abbrev WireAddress := {addr : Address // addr.onWire.Encodable}

instance : EndOfInput IoError := ⟨.unexpectedEof⟩

/-- The task that reads a stream: `accept_uni_stream`, then the `read_exact` of
`Packet::accept`. -/
inductive StreamReader
  | header (p : Async UnmarshalError Header)
  | payload (pkt : PacketRx) (p : Async IoError (List UInt8))
  | done

structure UniStream where
  /-- What its sender has still to write. -/
  unwritten : List UInt8
  /-- What has been written and not been read. -/
  unread : List UInt8
  reader : StreamReader

/-- A call that opens one stream after the other and writes each to its end. -/
structure StreamSender where
  todo : List (List UInt8)
  /-- The number of its open stream. -/
  current : Option ℕ

/-- Everything on its way to one side. -/
structure Pipe where
  senders : List StreamSender
  streams : List UniStream
  datagrams : List (List UInt8)
  /-- Packets from datagrams whose `accept` has not been called yet. -/
  packets : List Packet
  /-- Every packet sent so far with its payload, the latest first. -/
  sends : List (PacketTx × List UInt8)
  /-- Every packet that `accept` has returned so far, the latest first. -/
  delivered : List (List UInt8 × Address × UInt16)

variable {b : Build} {σ : Type}

/-- The steps of a side as a sender. `write`, `finish` and `abandon` are about the
open stream of a call, and a call is abandoned when it fails or is dropped. -/
inductive SendStep (σ : Type)
  | packetNative (conn : σ) (pkt : UdpPayload) (addr : WireAddress) (assocId : UInt16)
  | packetQuic (pkt : UdpPayload) (addr : WireAddress) (assocId : UInt16)
  | dissociate (assocId : UInt16)
  | authenticate (auth : Tuic.Authenticate)
  | heartbeat
  | openUni (j : ℕ)
  | write (j num : ℕ)
  | finish (j : ℕ)
  | abandon (j : ℕ)

/-- The steps of a side as a receiver. A poll says what it meets on the stream, and
`drop` and `reset` end a task before it is through. -/
inductive ReceiveStep
  | loseDatagram (i : ℕ)
  | acceptDatagram (i : ℕ)
  | accept (i : ℕ) (now : Instant)
  | drop (i : ℕ)
  | pollHeader (i : ℕ) (meets : ByteStream)
  | pollPayload (i : ℕ) (meets : ByteStream) (now : Instant)
  | reset (i : ℕ)
  | collectGarbage (now : Instant) (timeout : Duration)

namespace UniStream

def opened (bytes : List UInt8) : UniStream := ⟨bytes, [], .header Header.asyncUnmarshal⟩

def write (self : UniStream) (num : ℕ) : UniStream :=
  { self with unwritten := self.unwritten.drop num, unread := self.unread ++ self.unwritten.take num }

/-- quinn finishes a stream that is dropped. -/
def cut (self : UniStream) : UniStream := { self with unwritten := [] }

/-- A poll met some of the unread bytes and left `rest` of them. -/
def polled (self : UniStream) (meets rest : ByteStream) (reader : StreamReader) : UniStream :=
  { self with unread := rest.bytes ++ self.unread.drop meets.bytes.length, reader }

end UniStream

namespace Pipe

def new : Pipe := ⟨[], [], [], [], [], []⟩

def spawn (self : Pipe) (todo : List (List UInt8)) : Pipe :=
  { self with senders := self.senders ++ [⟨todo, none⟩] }

def openUni (self : Pipe) (j : ℕ) : Pipe :=
  match self.senders[j]? with
  | some ⟨bytes :: todo, none⟩ =>
    { self with
      senders := self.senders.modify j fun _ => ⟨todo, some self.streams.length⟩
      streams := self.streams ++ [.opened bytes] }
  | _ => self

def write (self : Pipe) (j num : ℕ) : Pipe :=
  match self.senders[j]? with
  | some ⟨_, some i⟩ => { self with streams := self.streams.modify i (·.write num) }
  | _ => self

def finish (self : Pipe) (j : ℕ) : Pipe :=
  match self.senders[j]? with
  | some ⟨_, some i⟩ =>
    match self.streams[i]? with
    | some ⟨[], _, _⟩ =>
      { self with senders := self.senders.modify j fun sender => { sender with current := none } }
    | _ => self
  | _ => self

def abandon (self : Pipe) (j : ℕ) : Pipe :=
  let senders := self.senders.modify j fun _ => ⟨[], none⟩
  match self.senders[j]? with
  | some ⟨_, some i⟩ => { self with senders, streams := self.streams.modify i .cut }
  | _ => { self with senders }

/-- A step of the sender, whose side is `side`. -/
def send (q : Datagrams b σ) (side : Side) (model : UdpSessions (List UInt8)) (self : Pipe) :
    SendStep σ → UdpSessions (List UInt8) × Pipe
  | .packetNative conn pkt addr assocId =>
    let (model', sending) := Quinn.packetNative q conn model pkt addr assocId
    let sends := (q.maxDatagramSize conn).map fun max =>
      ((model.sendPacket assocId addr max).2, pkt.1)
    (model', { self with
      datagrams := self.datagrams ++ sending.sent
      sends := sends.toList ++ self.sends })
  | .packetQuic pkt addr assocId =>
    let (model, tx) := model.sendPacket assocId addr 65535
    (model, { self.spawn ((tx.fragments b pkt).1.map datagram) with sends := (tx, pkt.1) :: self.sends })
  -- the last three calls are those of `Connection<side::Client>`
  | .dissociate assocId =>
    if side = .client then
      let (model, dissoc) := model.sendDissociate assocId
      (model, self.spawn [(Header.dissociate dissoc).write])
    else (model, self)
  | .authenticate auth =>
    (model, if side = .client then self.spawn [(Header.authenticate auth).write] else self)
  | .heartbeat =>
    (model, if side = .client then
      { self with datagrams := self.datagrams ++ [(Header.heartbeat ⟨⟩).write] } else self)
  | .openUni j => (model, self.openUni j)
  | .write j num => (model, self.write j num)
  | .finish j => (model, self.finish j)
  | .abandon j => (model, self.abandon j)

/-- What a call of `Packet::accept` hands on. -/
def handsOn : Outcome Error (Option (List UInt8 × Address × UInt16)) →
    List (List UInt8 × Address × UInt16)
  | .ok (some out) => [out]
  | _ => []

def acceptDatagram (side : Side) (model : UdpSessions (List UInt8)) (self : Pipe) (i : ℕ) :
    UdpSessions (List UInt8) × Pipe :=
  match self.datagrams[i]? with
  | none => (model, self)
  | some dg =>
    let self := { self with datagrams := self.datagrams.eraseIdx i }
    match Quinn.acceptDatagram side model dg with
    | (model, .ok (.packet pkt)) => (model, { self with packets := self.packets ++ [pkt] })
    | (model, _) => (model, self)

def accept (b : Build) (model : UdpSessions (List UInt8)) (self : Pipe) (i : ℕ) (now : Instant) :
    UdpSessions (List UInt8) × Pipe :=
  match self.packets[i]? with
  | none => (model, self)
  | some pkt =>
    let (model, res) := pkt.accept b now model
    (model, { self with
      packets := self.packets.eraseIdx i
      delivered := handsOn res ++ self.delivered })

/-- The task goes on as soon as it has the header: the model answers in the same poll. -/
def headerRead (side : Side) (model : UdpSessions (List UInt8)) (header : Header) :
    UdpSessions (List UInt8) × StreamReader :=
  match acceptUniHeader side model header with
  | (model, .ok (.packet pkt)) => (model, .payload pkt (Async.readExact pkt.size.toNat))
  | (model, _) => (model, .done)

def pollHeader (side : Side) (model : UdpSessions (List UInt8)) (self : Pipe) (i : ℕ)
    (meets : ByteStream) : UdpSessions (List UInt8) × Pipe :=
  match self.streams[i]? with
  | some ⟨unwritten, unread, .header p⟩ =>
    let stream : UniStream := ⟨unwritten, unread, .header p⟩
    if meets.bytes <+: unread then
      match p.poll meets with
      | (.ready (.ok header), rest) =>
        let (model, reader) := headerRead side model header
        (model, { self with streams := self.streams.modify i fun _ => stream.polled meets rest reader })
      | (.ready _, rest) =>
        (model, { self with streams := self.streams.modify i fun _ => stream.polled meets rest .done })
      | (p, rest) =>
        (model, { self with streams := self.streams.modify i fun _ => stream.polled meets rest (.header p) })
    else (model, self)
  | _ => (model, self)

def pollPayload (b : Build) (model : UdpSessions (List UInt8)) (self : Pipe) (i : ℕ)
    (meets : ByteStream) (now : Instant) : UdpSessions (List UInt8) × Pipe :=
  match self.streams[i]? with
  | some ⟨unwritten, unread, .payload pkt p⟩ =>
    let stream : UniStream := ⟨unwritten, unread, .payload pkt p⟩
    if meets.bytes <+: unread then
      match p.poll meets with
      | (.ready (.ok data), rest) =>
        -- from here on a packet from a stream is like one from a datagram
        let (model, res) := (⟨pkt, .native data⟩ : Packet).accept b now model
        (model, { self with
          streams := self.streams.modify i fun _ => stream.polled meets rest .done
          delivered := handsOn res ++ self.delivered })
      | (.ready _, rest) =>
        (model, { self with streams := self.streams.modify i fun _ => stream.polled meets rest .done })
      | (p, rest) =>
        (model, { self with streams := self.streams.modify i fun _ => stream.polled meets rest (.payload pkt p) })
    else (model, self)
  | _ => (model, self)

/-- A step of the receiver, whose side is `side`. -/
def receive (b : Build) (side : Side) (model : UdpSessions (List UInt8)) (self : Pipe) :
    ReceiveStep → UdpSessions (List UInt8) × Pipe
  | .loseDatagram i => (model, { self with datagrams := self.datagrams.eraseIdx i })
  | .acceptDatagram i => self.acceptDatagram side model i
  | .accept i now => self.accept b model i now
  | .drop i => (model, { self with packets := self.packets.eraseIdx i })
  | .pollHeader i meets => self.pollHeader side model i meets
  | .pollPayload i meets now => self.pollPayload b model i meets now
  | .reset i =>
    (model, { self with streams := self.streams.modify i fun stream => { stream with reader := .done } })
  | .collectGarbage now timeout => (model.collectGarbage now timeout, self)

end Pipe

/-- `pipe side` leads to `side`. -/
structure Link where
  model : Side → UdpSessions (List UInt8)
  pipe : Side → Pipe

inductive LinkStep (σ : Type)
  | send (side : Side) (a : SendStep σ)
  | receive (side : Side) (a : ReceiveStep)

namespace Link

def init : Link := ⟨fun _ => .new, fun _ => .new⟩

def put (self : Link) (side towards : Side) (x : UdpSessions (List UInt8) × Pipe) : Link where
  model := Function.update self.model side x.1
  pipe := Function.update self.pipe towards x.2

def step (q : Datagrams b σ) (self : Link) : LinkStep σ → Link
  | .send side a =>
    self.put side side.other ((self.pipe side.other).send q side (self.model side) a)
  | .receive side a => self.put side side ((self.pipe side).receive b side (self.model side) a)

end Link

def link (q : Datagrams b σ) : Machine Link (LinkStep σ) Unit := ⟨.init, fun s a => (s.step q a, ())⟩

end Tuic.Quinn
