import Tuic.Lib.Reader
import Tuic.Spec.Protocol

/-! The synchronous decoder: `tuic/src/unmarshal.rs`. -/

namespace Tuic

open Lib Lib.Reader

/-- What reading from a byte string in memory can fail with. -/
inductive IoError
  | unexpectedEof
  deriving DecidableEq, Repr

inductive UnmarshalError
  | io (e : IoError)
  | invalidVersion (ver : UInt8)
  | invalidCommand (cmd : UInt8)
  | invalidUuid (len : ℕ)
  | invalidAddressType (typeCode : UInt8)
  | addressParse (bytes : List UInt8)
  deriving DecidableEq, Repr

instance : EndOfInput UnmarshalError := ⟨.io .unexpectedEof⟩

/-- `u16::from_be_bytes([buf[i], buf[i + 1]])` -/
def u16At {ε : Type} (buf : List UInt8) (i : ℕ) : Outcome ε UInt16 := do
  let hi ← Outcome.index buf i
  let lo ← Outcome.index buf (i + 1)
  pure (ofBeBytes hi lo)

/-- The part of a domain address behind its length byte. -/
def Address.readDomain (len : ℕ) : Reader UnmarshalError Address := do
  let buf ← readExact (len + 2)
  let port ← lift (u16At buf len)
  let buf := buf.take len
  match fromUtf8 buf with
  | some domain => pure (domainAddress domain port)
  | .none => fail (.addressParse buf)

def Address.readIpv4 : Reader UnmarshalError Address := do
  let buf ← readExact 6
  let a ← lift (Outcome.index buf 0)
  let b ← lift (Outcome.index buf 1)
  let c ← lift (Outcome.index buf 2)
  let d ← lift (Outcome.index buf 3)
  let port ← lift (u16At buf 4)
  pure (socketAddress (.v4 ⟨a, b, c, d⟩ port))

def Address.readIpv6 : Reader UnmarshalError Address := do
  let buf ← readExact 18
  let a ← lift (u16At buf 0)
  let b ← lift (u16At buf 2)
  let c ← lift (u16At buf 4)
  let d ← lift (u16At buf 6)
  let e ← lift (u16At buf 8)
  let f ← lift (u16At buf 10)
  let g ← lift (u16At buf 12)
  let h ← lift (u16At buf 14)
  let port ← lift (u16At buf 16)
  pure (socketAddress (.v6 ⟨a, b, c, d, e, f, g, h⟩ port 0 0))

def Address.read : Reader UnmarshalError Address := do
  let buf ← readExact 1
  let typeCode ← lift (Outcome.index buf 0)
  if typeCode = typeCodeNone then pure Address.none
  else if typeCode = typeCodeDomain then do
    let buf ← readExact 1
    let len ← lift (Outcome.index buf 0)
    readDomain len.toNat
  else if typeCode = typeCodeIpv4 then readIpv4
  else if typeCode = typeCodeIpv6 then readIpv6
  else fail (.invalidAddressType typeCode)

/-- `Uuid::from_slice` -/
def Uuid.fromSlice (bs : List UInt8) : Outcome UnmarshalError Uuid :=
  match arrayFromSlice 16 bs with
  | some uuid => .ok uuid
  | none => .err (.invalidUuid bs.length)

def Authenticate.read : Reader UnmarshalError Authenticate := do
  let buf ← readExact 48
  let uuid ← lift (Uuid.fromSlice (buf.take 16))
  match arrayFromSlice 32 (buf.drop 16) with
  | some token => pure ⟨uuid, token⟩
  | none => lift (.panic .unwrapNone)

def Connect.read : Reader UnmarshalError Connect := do
  let addr ← Address.read
  pure ⟨addr⟩

def Packet.read : Reader UnmarshalError Packet := do
  let buf ← readExact 8
  let assocId ← lift (u16At buf 0)
  let pktId ← lift (u16At buf 2)
  let fragTotal ← lift (Outcome.index buf 4)
  let fragId ← lift (Outcome.index buf 5)
  let size ← lift (u16At buf 6)
  let addr ← Address.read
  pure ⟨assocId, pktId, fragTotal, fragId, size, addr⟩

def Dissociate.read : Reader UnmarshalError Dissociate := do
  let buf ← readExact 2
  let assocId ← lift (u16At buf 0)
  pure ⟨assocId⟩

def Heartbeat.read : Reader UnmarshalError Heartbeat := pure ⟨⟩

def Header.unmarshal : Reader UnmarshalError Header := do
  let buf ← readExact 1
  let ver ← lift (Outcome.index buf 0)
  if ver ≠ version then fail (.invalidVersion ver)
  else do
    let buf ← readExact 1
    let cmd ← lift (Outcome.index buf 0)
    if cmd = Authenticate.typeCode then authenticate <$> Authenticate.read
    else if cmd = Connect.typeCode then connect <$> Connect.read
    else if cmd = Packet.typeCode then packet <$> Packet.read
    else if cmd = Dissociate.typeCode then dissociate <$> Dissociate.read
    else if cmd = Heartbeat.typeCode then heartbeat <$> Heartbeat.read
    else fail (.invalidCommand cmd)

/-- Decodes at the start of a cursor over `bs`, with the position it ends at. -/
def Header.unmarshalAt (bs : List UInt8) : Outcome UnmarshalError (Header × ℕ) := do
  let x ← unmarshal bs
  pure (x.1, bs.length - x.2.length)

end Tuic
