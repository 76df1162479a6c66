import Tuic.Lib.Machine
import Tuic.Lib.Slots
import Tuic.Lib.Table
import Tuic.Spec.Protocol

/-! The connection model: `tuic/src/model/mod.rs` and the receiving half of
`tuic/src/model/packet.rs`. Every public call takes the lock of the session table
for its whole body, so a call is one function from the table to the table and
the result. A panic keeps what the call has done so far: the lock does not
poison. -/

namespace Tuic.Model

open Lib

/-- Data that can be viewed as bytes. -/
class AsRef (B : Type) where
  asRef : B → List UInt8

export AsRef (asRef)

instance : AsRef (List UInt8) := ⟨id⟩

abbrev Instant := ℕ
abbrev Duration := ℕ

inductive AssembleError
  | invalidFragmentId (fragTotal fragId : UInt8)
  | invalidAddress (msg : String)
  | duplicatedFragment (fragId : UInt8)
  deriving DecidableEq, Repr

/-- A complete packet that can be assembled. -/
structure Assemblable (B : Type) where
  buf : List (Option B)
  addr : Address
  assocId : UInt16
  deriving DecidableEq

structure PacketBuffer (B : Type) where
  buf : List (Option B)
  fragTotal : UInt8
  fragReceived : UInt8
  addr : Address
  cTime : Instant
  deriving DecidableEq

/-- What `insert` answers at every level of the table. -/
abbrev Inserted (B : Type) := Outcome AssembleError (Option (Assemblable B))

variable {B : Type}

namespace PacketBuffer

def new (now : Instant) (fragTotal : UInt8) : PacketBuffer B where
  buf := List.replicate fragTotal.toNat none
  fragTotal := fragTotal
  fragReceived := 0
  addr := .none
  cTime := now

/-- What `insert` does once the fragment is accepted into its free slot. -/
def accept (b : Build) (self : PacketBuffer B) (assocId : UInt16) (fragId : UInt8) (addr : Address)
    (data : B) : PacketBuffer B × Inserted B :=
  let self := { self with buf := self.buf.set fragId.toNat (some data) }
  match (b.addU8 self.fragReceived 1 : Outcome AssembleError UInt8) with
  | .ok fragReceived =>
    let self := { self with fragReceived, addr := if fragId = 0 then addr else self.addr }
    if self.fragReceived = self.fragTotal then
      -- `mem::take(&mut self.buf)` and `self.addr.take()`
      ({ self with buf := [], addr := .none }, .ok (some ⟨self.buf, self.addr, assocId⟩))
    else (self, .ok none)
  | .err e => (self, .err e)
  | .panic p => (self, .panic p)

def insert [AsRef B] (b : Build) (self : PacketBuffer B) (assocId : UInt16) (fragTotal fragId : UInt8)
    (size : UInt16) (addr : Address) (data : B) : PacketBuffer B × Inserted B :=
  if (asRef data).length ≠ size.toNat then (self, .panic .assertFailed)
  else if fragId ≥ fragTotal then (self, .err (.invalidFragmentId fragTotal fragId))
  else if fragId = 0 ∧ addr.isNone then
    (self, .err (.invalidAddress "no address in first fragment"))
  else if fragId ≠ 0 ∧ ¬ addr.isNone then
    (self, .err (.invalidAddress "address in non-first fragment"))
  else
    match self.buf[fragId.toNat]? with
    -- the bound above is on the total of this header, not on the length of `buf`
    | none => (self, .panic .outOfBounds)
    | some (some _) => (self, .err (.duplicatedFragment fragId))
    | some none => self.accept b assocId fragId addr data

end PacketBuffer

structure UdpSession (B : Type) where
  pktBuf : Table UInt16 (PacketBuffer B)
  nextPktId : UInt16

/-- The sending side of a `Packet`. -/
structure PacketTx where
  assocId : UInt16
  pktId : UInt16
  addr : Address
  maxPktSize : ℕ
  deriving DecidableEq

/-- The receiving side of a `Packet`: the fields of its header. Its reference to
the session table is the state that `assemble` works on. -/
abbrev PacketRx := Packet

namespace UdpSession

def new : UdpSession B := ⟨.empty, 0⟩

/-- `next_pkt_id.fetch_add(1)`, which wraps. -/
def sendPacket (self : UdpSession B) (assocId : UInt16) (addr : Address) (maxPktSize : ℕ) :
    UdpSession B × PacketTx :=
  ({ self with nextPktId := self.nextPktId + 1 }, ⟨assocId, self.nextPktId, addr, maxPktSize⟩)

def insert [AsRef B] (b : Build) (now : Instant) (self : UdpSession B) (assocId pktId : UInt16)
    (fragTotal fragId : UInt8) (size : UInt16) (addr : Address) (data : B) :
    UdpSession B × Inserted B :=
  let buf := (self.pktBuf.get pktId).getD (PacketBuffer.new now fragTotal)
  let (buf, res) := buf.insert b assocId fragTotal fragId size addr data
  match res with
  | .ok (some asm) => ({ self with pktBuf := self.pktBuf.remove pktId }, .ok (some asm))
  | res => ({ self with pktBuf := self.pktBuf.insert pktId buf }, res)

def collectGarbage (now : Instant) (timeout : Duration) (self : UdpSession B) : UdpSession B :=
  { self with pktBuf := self.pktBuf.retain fun buf => decide (now - buf.cTime < timeout) }

end UdpSession

/-- The session table. `taskAssociateCount` counts the registers that the
sessions hold. -/
structure UdpSessions (B : Type) where
  sessions : Table UInt16 (UdpSession B)
  taskAssociateCount : ℕ

namespace UdpSessions

def new : UdpSessions B := ⟨.empty, 0⟩

/-- `sessions.entry(assoc_id).or_insert_with(|| UdpSession::new(..))` -/
def entry (self : UdpSessions B) (assocId : UInt16) : UdpSessions B × UdpSession B :=
  match self.sessions.get assocId with
  | some session => (self, session)
  | none => (⟨self.sessions.insert assocId .new, self.taskAssociateCount + 1⟩, .new)

def put (self : UdpSessions B) (assocId : UInt16) (session : UdpSession B) : UdpSessions B :=
  { self with sessions := self.sessions.insert assocId session }

def sendPacket (self : UdpSessions B) (assocId : UInt16) (addr : Address) (maxPktSize : ℕ) :
    UdpSessions B × PacketTx :=
  let (self, session) := self.entry assocId
  let (session, pkt) := session.sendPacket assocId addr maxPktSize
  (self.put assocId session, pkt)

def recvPacket (self : UdpSessions B) (header : Packet) : Option PacketRx :=
  (self.sessions.get header.assocId).map fun _ => header

def recvPacketUnrestricted (self : UdpSessions B) (header : Packet) : UdpSessions B × PacketRx :=
  ((self.entry header.assocId).1, header)

/-- Dropping a session drops its register. -/
def remove (self : UdpSessions B) (assocId : UInt16) : UdpSessions B :=
  match self.sessions.get assocId with
  | some _ => ⟨self.sessions.remove assocId, self.taskAssociateCount - 1⟩
  | none => self

def sendDissociate (self : UdpSessions B) (assocId : UInt16) : UdpSessions B × Dissociate :=
  (self.remove assocId, ⟨assocId⟩)

def recvDissociate (self : UdpSessions B) (header : Dissociate) : UdpSessions B × UInt16 :=
  (self.remove header.assocId, header.assocId)

/-- `Packet::<side::Rx>::assemble` and the `insert` it calls. -/
def assemble [AsRef B] (b : Build) (now : Instant) (self : UdpSessions B) (pkt : PacketRx) (data : B) :
    UdpSessions B × Inserted B :=
  let (self, session) := self.entry pkt.assocId
  let (session, res) :=
    session.insert b now pkt.assocId pkt.pktId pkt.fragTotal pkt.fragId pkt.size pkt.addr data
  (self.put pkt.assocId session, res)

def collectGarbage (now : Instant) (timeout : Duration) (self : UdpSessions B) : UdpSessions B :=
  { self with sessions := self.sessions.mapValues (UdpSession.collectGarbage now timeout) }

end UdpSessions

/-- Joins the pieces; an empty piece panics in `unwrap`. -/
def Assemblable.assemble [AsRef B] (self : Assemblable B) :
    Outcome Empty (List UInt8 × Address × UInt16) := do
  let data ← Slots.unwrapAll self.buf
  pure (data.flatMap asRef, self.addr, self.assocId)

/-! ### Calls on a connection -/

/-- The calls that touch the session table. `assemble` is a call of its own: the
packet it is made on was received earlier. -/
inductive Call (B : Type)
  | sendPacket (assocId : UInt16) (addr : Address) (maxPktSize : ℕ)
  | recvPacket (header : Packet)
  | recvPacketUnrestricted (header : Packet)
  | assemble (now : Instant) (pkt : PacketRx) (data : B)
  | sendDissociate (assocId : UInt16)
  | recvDissociate (header : Dissociate)
  | collectGarbage (now : Instant) (timeout : Duration)

inductive Answer (B : Type)
  | sent (pkt : PacketTx)
  | received (pkt : Option PacketRx)
  | assembled (res : Inserted B)
  | dissociated (assocId : UInt16)
  | collected

def step [AsRef B] (b : Build) (s : UdpSessions B) : Call B → UdpSessions B × Answer B
  | .sendPacket assocId addr maxPktSize =>
    let (s, pkt) := s.sendPacket assocId addr maxPktSize
    (s, .sent pkt)
  | .recvPacket header => (s, .received (s.recvPacket header))
  | .recvPacketUnrestricted header =>
    let (s, pkt) := s.recvPacketUnrestricted header
    (s, .received (some pkt))
  | .assemble now pkt data =>
    let (s, res) := s.assemble b now pkt data
    (s, .assembled res)
  | .sendDissociate assocId =>
    let (s, dissoc) := s.sendDissociate assocId
    (s, .dissociated dissoc.assocId)
  | .recvDissociate header =>
    let (s, assocId) := s.recvDissociate header
    (s, .dissociated assocId)
  | .collectGarbage now timeout => (s.collectGarbage now timeout, .collected)

/-- A connection from `Connection::new` on. -/
def connection [AsRef B] (b : Build) : Machine (UdpSessions B) (Call B) (Answer B) := ⟨.new, step b⟩

end Tuic.Model
