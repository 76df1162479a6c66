import Tuic.Spec.AsyncUnmarshal
import Tuic.Spec.Quinn

/-! Commands on QUIC streams: `Connection::accept_uni_stream` and
`Connection::accept_bi_stream` of both sides in `tuic-quinn/src/lib.rs`. The header
is read first, and then the connection answers it at once. -/

namespace Tuic.Quinn

open Lib Model

/-- The markers `side::Client` and `side::Server`. -/
inductive Side
  | client
  | server
  deriving DecidableEq

def Side.other : Side → Side
  | client => server
  | server => client

/-- The tasks a stream can carry, without the stream itself. -/
inductive StreamTask
  | authenticate (auth : Tuic.Authenticate)
  | connect (conn : Connect)
  | packet (pkt : PacketRx)
  | dissociate (assocId : UInt16)
  deriving DecidableEq

inductive StreamError
  | unmarshal (e : UnmarshalError)
  | badCommand (cmd : String)
  | invalidUdpSession (assocId pktId : UInt16)
  deriving DecidableEq

/-- `accept_uni_stream` behind the header -/
def acceptUniHeader (side : Side) (s : UdpSessions (List UInt8)) (header : Header) :
    UdpSessions (List UInt8) × Except StreamError StreamTask :=
  match side, header with
  | .client, .authenticate _ => (s, .error (.badCommand "authenticate"))
  | .client, .connect _ => (s, .error (.badCommand "connect"))
  | .client, .packet pkt =>
    match s.recvPacket pkt with
    | some pkt => (s, .ok (.packet pkt))
    | none => (s, .error (.invalidUdpSession pkt.assocId pkt.pktId))
  | .client, .dissociate _ => (s, .error (.badCommand "dissociate"))
  | .client, .heartbeat _ => (s, .error (.badCommand "heartbeat"))
  | .server, .authenticate auth => (s, .ok (.authenticate auth))
  | .server, .connect _ => (s, .error (.badCommand "connect"))
  | .server, .packet pkt =>
    let (s, model) := s.recvPacketUnrestricted pkt
    (s, .ok (.packet model))
  | .server, .dissociate dissoc =>
    let (s, assocId) := s.recvDissociate dissoc
    (s, .ok (.dissociate assocId))
  | .server, .heartbeat _ => (s, .error (.badCommand "heartbeat"))

/-- `accept_bi_stream` behind the header -/
def acceptBiHeader (side : Side) (header : Header) : Except StreamError StreamTask :=
  match side, header with
  | _, .authenticate _ => .error (.badCommand "authenticate")
  | .client, .connect _ => .error (.badCommand "connect")
  | .server, .connect conn => .ok (.connect conn)
  | _, .packet _ => .error (.badCommand "packet")
  | _, .dissociate _ => .error (.badCommand "dissociate")
  | _, .heartbeat _ => .error (.badCommand "heartbeat")

/-- `accept_datagram` of both sides -/
def acceptDatagram (side : Side) (s : UdpSessions (List UInt8)) (dg : List UInt8) :
    UdpSessions (List UInt8) × Outcome Error Task :=
  match side with
  | .client => (s, acceptDatagramClient s dg)
  | .server => acceptDatagramServer s dg

end Tuic.Quinn
