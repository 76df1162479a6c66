import Tuic.Lib.Bytes

/-! The command header of the protocol: `tuic/src/protocol`. -/

namespace Tuic

open Lib

/-- The TUIC protocol version. -/
def version : UInt8 := 0x05

abbrev Uuid := Vector UInt8 16
abbrev Token := Vector UInt8 32

structure Ipv4Addr where
  (a b c d : UInt8)
  deriving DecidableEq

def Ipv4Addr.octets (ip : Ipv4Addr) : List UInt8 := [ip.a, ip.b, ip.c, ip.d]

structure Ipv6Addr where
  (a b c d e f g h : UInt16)
  deriving DecidableEq

def Ipv6Addr.segments (ip : Ipv6Addr) : List UInt16 :=
  [ip.a, ip.b, ip.c, ip.d, ip.e, ip.f, ip.g, ip.h]

inductive SocketAddr
  | v4 (ip : Ipv4Addr) (port : UInt16)
  | v6 (ip : Ipv6Addr) (port : UInt16) (flowinfo scopeId : UInt32)
  deriving DecidableEq

inductive Address
  | none
  | domainAddress (domain : String) (port : UInt16)
  | socketAddress (addr : SocketAddr)
  deriving DecidableEq

namespace Address

def typeCodeDomain : UInt8 := 0x00
def typeCodeIpv4 : UInt8 := 0x01
def typeCodeIpv6 : UInt8 := 0x02
def typeCodeNone : UInt8 := 0xff

def typeCode : Address → UInt8
  | none => typeCodeNone
  | domainAddress _ _ => typeCodeDomain
  | socketAddress (.v4 _ _) => typeCodeIpv4
  | socketAddress (.v6 _ _ _ _) => typeCodeIpv6

/-- The serialized length of the address. -/
def len : Address → ℕ
  | none => 1 + 0
  | domainAddress addr _ => 1 + (1 + (asBytes addr).length + 2)
  | socketAddress (.v4 _ _) => 1 + (4 + 2)
  | socketAddress (.v6 _ _ _ _) => 1 + (16 + 2)

def isNone : Address → Bool
  | none => true
  | _ => false

@[simp] theorem isNone_iff {a : Address} : a.isNone = true ↔ a = none := by
  cases a <;> simp [isNone]

@[simp] theorem isNone_eq_false {a : Address} : a.isNone = false ↔ a ≠ none := by
  cases a <;> simp [isNone]

end Address

structure Authenticate where
  uuid : Uuid
  token : Token
  deriving DecidableEq

structure Connect where
  addr : Address
  deriving DecidableEq

structure Packet where
  assocId : UInt16
  pktId : UInt16
  fragTotal : UInt8
  fragId : UInt8
  size : UInt16
  addr : Address
  deriving DecidableEq

structure Dissociate where
  assocId : UInt16
  deriving DecidableEq

structure Heartbeat where
  deriving DecidableEq

def Authenticate.typeCode : UInt8 := 0x00
def Connect.typeCode : UInt8 := 0x01
def Packet.typeCode : UInt8 := 0x02
def Dissociate.typeCode : UInt8 := 0x03
def Heartbeat.typeCode : UInt8 := 0x04

def Authenticate.len (_ : Authenticate) : ℕ := 16 + 32
def Connect.len (self : Connect) : ℕ := self.addr.len
def Packet.len (self : Packet) : ℕ := 2 + 2 + 1 + 1 + 2 + self.addr.len
def Dissociate.len (_ : Dissociate) : ℕ := 2
def Heartbeat.len (_ : Heartbeat) : ℕ := 0

inductive Header
  | authenticate (auth : Authenticate)
  | connect (conn : Connect)
  | packet (pkt : Packet)
  | dissociate (dissoc : Dissociate)
  | heartbeat (hb : Heartbeat)
  deriving DecidableEq

namespace Header

def typeCode : Header → UInt8
  | authenticate _ => Authenticate.typeCode
  | connect _ => Connect.typeCode
  | packet _ => Packet.typeCode
  | dissociate _ => Dissociate.typeCode
  | heartbeat _ => Heartbeat.typeCode

/-- The serialized length of the command. -/
def len : Header → ℕ
  | authenticate auth => 2 + auth.len
  | connect conn => 2 + conn.len
  | packet pkt => 2 + pkt.len
  | dissociate dissoc => 2 + dissoc.len
  | heartbeat hb => 2 + hb.len

end Header

end Tuic
