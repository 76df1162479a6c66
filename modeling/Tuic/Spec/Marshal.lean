import Tuic.Spec.Protocol

/-! The encoder: `tuic/src/marshal.rs`. Each `write` is the bytes it puts into
the buffer. -/

namespace Tuic

open Lib

def Address.write (self : Address) : List UInt8 :=
  [self.typeCode] ++
  match self with
  | none => []
  | domainAddress domain port =>
    -- `domain.len() as u8`
    [UInt8.ofNat (asBytes domain).length] ++ asBytes domain ++ beBytes port
  | socketAddress (.v4 ip port) => ip.octets ++ beBytes port
  | socketAddress (.v6 ip port _ _) => ip.segments.flatMap beBytes ++ beBytes port

def Authenticate.write (self : Authenticate) : List UInt8 := self.uuid.toList ++ self.token.toList

def Connect.write (self : Connect) : List UInt8 := self.addr.write

def Packet.write (self : Packet) : List UInt8 :=
  beBytes self.assocId ++ beBytes self.pktId ++ [self.fragTotal] ++ [self.fragId] ++
    beBytes self.size ++ self.addr.write

def Dissociate.write (self : Dissociate) : List UInt8 := beBytes self.assocId

def Heartbeat.write (_ : Heartbeat) : List UInt8 := []

def Header.write (self : Header) : List UInt8 :=
  [version] ++ [self.typeCode] ++
  match self with
  | authenticate auth => auth.write
  | connect conn => conn.write
  | packet pkt => pkt.write
  | dissociate dissoc => dissoc.write
  | heartbeat hb => hb.write

/-- The addresses that fit the wire format: the length of a domain is one byte,
and nothing carries the flow information and the scope of an IPv6 socket. -/
def Address.Encodable : Address → Prop
  | domainAddress domain _ => (asBytes domain).length ≤ 255
  | socketAddress (.v6 _ _ flowinfo scopeId) => flowinfo = 0 ∧ scopeId = 0
  | _ => True

def Header.Encodable : Header → Prop
  | connect conn => conn.addr.Encodable
  | packet pkt => pkt.addr.Encodable
  | _ => True

/-- The address as far as it is written: an IPv6 socket by its ip and its port. -/
def Address.onWire : Address → Address
  | socketAddress (.v6 ip port _ _) => socketAddress (.v6 ip port 0 0)
  | a => a

def Header.onWire : Header → Header
  | connect conn => connect ⟨conn.addr.onWire⟩
  | packet pkt => packet { pkt with addr := pkt.addr.onWire }
  | h => h

/-- The name and the port of `a` begin the longer name of `a'`, and the one byte
for the length is the same. -/
def Address.Shadows : Address → Address → Prop
  | domainAddress domain port, domainAddress domain' _ =>
    asBytes domain ++ beBytes port <+: asBytes domain' ∧
      (asBytes domain).length % 256 = (asBytes domain').length % 256
  | _, _ => False

/-- Two commands that differ in nothing but an address that shadows another. -/
def Header.Shadows : Header → Header → Prop
  | connect conn, connect conn' => conn.addr.Shadows conn'.addr
  | packet pkt, packet pkt' => { pkt with addr := pkt'.addr } = pkt' ∧ pkt.addr.Shadows pkt'.addr
  | _, _ => False

theorem Address.write_length (a : Address) : a.write.length = a.len := by
  rcases a with _ | ⟨d, p⟩ | ⟨⟨ip, p⟩ | ⟨ip, p, fl, sc⟩⟩
  · rfl
  · simp only [write, len, List.length_append, List.length_singleton, beBytes_length]
  · rfl
  · rfl

/-- The encoder always writes as many bytes as the header announces. -/
theorem Header.write_length (h : Header) : h.write.length = h.len := by
  cases h with
  | authenticate auth => simp [write, len, Authenticate.write, Authenticate.len]
  | connect conn =>
    simp only [write, len, Connect.write, Connect.len, List.length_append, List.length_singleton,
      Address.write_length]
  | packet pkt =>
    simp only [write, len, Packet.write, Packet.len, List.length_append, List.length_singleton,
      beBytes_length, Address.write_length]
  | dissociate dissoc => rfl
  | heartbeat hb => rfl

/-! ### What is left of a header on the wire -/

@[simp] theorem Address.onWire_write (a : Address) : a.onWire.write = a.write := by
  rcases a with _ | ⟨d, p⟩ | ⟨⟨ip, p⟩ | ⟨ip, p, fl, sc⟩⟩ <;> rfl

theorem Address.onWire_of_encodable {a : Address} (h : a.Encodable) : a.onWire = a := by
  rcases a with _ | ⟨d, p⟩ | ⟨⟨ip, p⟩ | ⟨ip, p, fl, sc⟩⟩
  · rfl
  · rfl
  · rfl
  · obtain ⟨rfl, rfl⟩ := h
    rfl

/-- Only a domain can be too long for the wire. -/
theorem Address.onWire_encodable {a : Address}
    (h : ∀ domain port, a = domainAddress domain port → (asBytes domain).length ≤ 255) :
    a.onWire.Encodable := by
  rcases a with _ | ⟨d, p⟩ | ⟨⟨ip, p⟩ | ⟨ip, p, fl, sc⟩⟩
  · trivial
  · exact h d p rfl
  · trivial
  · exact ⟨rfl, rfl⟩

@[simp] theorem Header.onWire_write (h : Header) : h.onWire.write = h.write := by
  cases h with
  | connect conn => simp [Header.onWire, Header.write, Header.typeCode, Connect.write]
  | packet pkt => simp [Header.onWire, Header.write, Header.typeCode, Packet.write]
  | _ => rfl

theorem Header.onWire_of_encodable {h : Header} (he : h.Encodable) : h.onWire = h := by
  cases h with
  | connect conn => simp [Header.onWire, Address.onWire_of_encodable (a := conn.addr) he]
  | packet pkt => simp [Header.onWire, Address.onWire_of_encodable (a := pkt.addr) he]
  | _ => rfl

end Tuic
