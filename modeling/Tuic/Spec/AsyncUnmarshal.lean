import Tuic.Lib.Async
import Tuic.Spec.Unmarshal

/-! The asynchronous decoder: `tuic/src/unmarshal.rs` has a second copy of each
reader, for streams. -/

namespace Tuic

open Lib Lib.Async

/-- The part of a domain address behind its length byte. -/
def Address.asyncReadDomain (len : ℕ) : Async UnmarshalError Address := do
  let buf ← readExact (len + 2)
  let port ← lift (u16At buf len)
  let buf := buf.take len
  match fromUtf8 buf with
  | some domain => pure (domainAddress domain port)
  | .none => fail (.addressParse buf)

def Address.asyncReadIpv4 : Async UnmarshalError Address := do
  let buf ← readExact 6
  let a ← lift (Outcome.index buf 0)
  let b ← lift (Outcome.index buf 1)
  let c ← lift (Outcome.index buf 2)
  let d ← lift (Outcome.index buf 3)
  let port ← lift (u16At buf 4)
  pure (socketAddress (.v4 ⟨a, b, c, d⟩ port))

def Address.asyncReadIpv6 : Async UnmarshalError Address := do
  let buf ← readExact 18
  let a ← lift (u16At buf 0)
  let b ← lift (u16At buf 2)
  let c ← lift (u16At buf 4)
  let d ← lift (u16At buf 6)
  let e ← lift (u16At buf 8)
  let f ← lift (u16At buf 10)
  let g ← lift (u16At buf 12)
  let h ← lift (u16At buf 14)
  let port ← lift (u16At buf 16)
  pure (socketAddress (.v6 ⟨a, b, c, d, e, f, g, h⟩ port 0 0))

def Address.asyncRead : Async UnmarshalError Address := do
  let buf ← readExact 1
  let typeCode ← lift (Outcome.index buf 0)
  if typeCode = typeCodeNone then pure Address.none
  else if typeCode = typeCodeDomain then do
    let buf ← readExact 1
    let len ← lift (Outcome.index buf 0)
    asyncReadDomain len.toNat
  else if typeCode = typeCodeIpv4 then asyncReadIpv4
  else if typeCode = typeCodeIpv6 then asyncReadIpv6
  else fail (.invalidAddressType typeCode)

def Authenticate.asyncRead : Async UnmarshalError Authenticate := do
  let buf ← readExact 48
  let uuid ← lift (Uuid.fromSlice (buf.take 16))
  match arrayFromSlice 32 (buf.drop 16) with
  | some token => pure ⟨uuid, token⟩
  | none => lift (.panic .unwrapNone)

def Connect.asyncRead : Async UnmarshalError Connect := do
  let addr ← Address.asyncRead
  pure ⟨addr⟩

def Packet.asyncRead : Async UnmarshalError Packet := do
  let buf ← readExact 8
  let assocId ← lift (u16At buf 0)
  let pktId ← lift (u16At buf 2)
  let fragTotal ← lift (Outcome.index buf 4)
  let fragId ← lift (Outcome.index buf 5)
  let size ← lift (u16At buf 6)
  let addr ← Address.asyncRead
  pure ⟨assocId, pktId, fragTotal, fragId, size, addr⟩

def Dissociate.asyncRead : Async UnmarshalError Dissociate := do
  let buf ← readExact 2
  let assocId ← lift (u16At buf 0)
  pure ⟨assocId⟩

def Heartbeat.asyncRead : Async UnmarshalError Heartbeat := pure ⟨⟩

def Header.asyncUnmarshal : Async UnmarshalError Header := do
  let buf ← readExact 1
  let ver ← lift (Outcome.index buf 0)
  if ver ≠ version then fail (.invalidVersion ver)
  else do
    let buf ← readExact 1
    let cmd ← lift (Outcome.index buf 0)
    if cmd = Authenticate.typeCode then authenticate <$> Authenticate.asyncRead
    else if cmd = Connect.typeCode then connect <$> Connect.asyncRead
    else if cmd = Packet.typeCode then packet <$> Packet.asyncRead
    else if cmd = Dissociate.typeCode then dissociate <$> Dissociate.asyncRead
    else if cmd = Heartbeat.typeCode then heartbeat <$> Heartbeat.asyncRead
    else fail (.invalidCommand cmd)

end Tuic
