import Tuic.Spec.Marshal
import Tuic.Spec.Unmarshal

/-! Decoding undoes encoding, for every header whose address fits the wire
format. -/

namespace Tuic

open Lib Lib.Reader

theorem u16At_append {ε : Type} (pre : List UInt8) (x : UInt16) :
    (u16At (pre ++ beBytes x) pre.length : Outcome ε _) = .ok x := by
  simp [u16At, Outcome.index, beBytes]

theorem address_none_accepts : Accepts Address.read Address.none.write .none := by
  intro rest
  simp [Address.read, Address.write, Address.typeCode, readExact]

theorem domainAddress_accepts (domain : String) (port : UInt16) (h : (asBytes domain).length ≤ 255) :
    Accepts Address.read (Address.domainAddress domain port).write (.domainAddress domain port) := by
  intro rest
  -- the length byte does not truncate, so the second read covers name and port
  have hlen : (UInt8.ofNat (asBytes domain).length).toNat = (asBytes domain).length := by
    rw [UInt8.toNat_ofNat']
    omega
  have hbody : (asBytes domain ++ beBytes port).length = (asBytes domain).length + 2 := by simp
  have hread : (readExact ((asBytes domain).length + 2) : Reader UnmarshalError _)
      (asBytes domain ++ (beBytes port ++ rest)) = .ok (asBytes domain ++ beBytes port, rest) := by
    rw [← List.append_assoc, readExact_append hbody]
  have hport : (u16At (asBytes domain ++ beBytes port) (asBytes domain).length :
      Outcome UnmarshalError _) = .ok port := u16At_append _ port
  simp [Address.read, Address.readDomain, Address.write, Address.typeCode, Address.typeCodeNone,
    Address.typeCodeDomain, hlen, hread, hport, fromUtf8_asBytes]

theorem v4_accepts (ip : Ipv4Addr) (port : UInt16) :
    Accepts Address.read (Address.socketAddress (.v4 ip port)).write (.socketAddress (.v4 ip port)) := by
  intro rest
  simp [Address.read, Address.readIpv4, Address.write, Address.typeCode, Address.typeCodeNone,
    Address.typeCodeDomain, Address.typeCodeIpv4, readExact, Ipv4Addr.octets, beBytes, u16At]

theorem v6_accepts (ip : Ipv6Addr) (port : UInt16) :
    Accepts Address.read (Address.socketAddress (.v6 ip port 0 0)).write
      (.socketAddress (.v6 ip port 0 0)) := by
  intro rest
  simp [Address.read, Address.readIpv6, Address.write, Address.typeCode, Address.typeCodeNone,
    Address.typeCodeDomain, Address.typeCodeIpv4, Address.typeCodeIpv6, readExact, Ipv6Addr.segments, beBytes, u16At]

theorem address_accepts (a : Address) (h : a.Encodable) : Accepts Address.read a.write a := by
  rcases a with _ | ⟨d, p⟩ | ⟨⟨ip, p⟩ | ⟨ip, p, fl, sc⟩⟩
  · exact address_none_accepts
  · exact domainAddress_accepts d p h
  · exact v4_accepts ip p
  · obtain ⟨rfl, rfl⟩ := h
    exact v6_accepts ip p

theorem authenticate_accepts (auth : Authenticate) : Accepts Authenticate.read auth.write auth := by
  intro rest
  have h48 : auth.write.length = 48 := by simp [Authenticate.write]
  have hu : auth.write.take 16 = auth.uuid.toList := by simp [Authenticate.write]
  have ht : auth.write.drop 16 = auth.token.toList := by simp [Authenticate.write]
  simp [Authenticate.read, readExact_append h48, hu, ht, Uuid.fromSlice, arrayFromSlice_toList]

theorem packet_accepts (pkt : Packet) (h : pkt.addr.Encodable) :
    Accepts Packet.read pkt.write pkt := by
  intro rest
  have haddr := address_accepts pkt.addr h rest
  simp [Packet.read, Packet.write, readExact, beBytes, u16At, haddr]

/-- The body of every command decodes behind its two header bytes. -/
theorem header_accepts (h : Header) (he : h.Encodable) : Accepts Header.unmarshal h.write h := by
  intro rest
  cases h with
  | authenticate auth =>
    simp [Header.unmarshal, Header.write, Header.typeCode, readExact,
      authenticate_accepts auth rest, map_apply]
  | connect conn =>
    have := address_accepts conn.addr he rest
    simp [Header.unmarshal, Header.write, Header.typeCode, readExact, Connect.read, Connect.write,
      Authenticate.typeCode, Connect.typeCode, this, map_apply]
  | packet pkt =>
    simp [Header.unmarshal, Header.write, Header.typeCode, readExact, Authenticate.typeCode,
      Connect.typeCode, Packet.typeCode, packet_accepts pkt he rest, map_apply]
  | dissociate dissoc =>
    simp [Header.unmarshal, Header.write, Header.typeCode, readExact, Authenticate.typeCode,
      Connect.typeCode, Packet.typeCode, Dissociate.typeCode, Dissociate.read, Dissociate.write,
      beBytes, u16At, map_apply]
  | heartbeat hb =>
    simp [Header.unmarshal, Header.write, Header.typeCode, readExact, Authenticate.typeCode,
      Connect.typeCode, Packet.typeCode, Dissociate.typeCode, Heartbeat.typeCode, Heartbeat.read,
      Heartbeat.write, map_apply]

/-- Decoding an encoded header followed by anything returns the header, having
read the `len` bytes the encoder wrote and nothing of what follows. -/
theorem unmarshal_write (h : Header) (he : h.Encodable) :
    h.write.length = h.len ∧
      ∀ rest, Header.unmarshal (h.write ++ rest) = .ok (h, rest) ∧
        Header.unmarshalAt (h.write ++ rest) = .ok (h, h.len) := by
  refine ⟨h.write_length, fun rest => ?_⟩
  have hr := header_accepts h he rest
  refine ⟨hr, ?_⟩
  simp [Header.unmarshalAt, hr, h.write_length]

theorem unmarshal_write_packet :
    Header.unmarshal ((Header.packet ⟨1, 2, 3, 0, 4, .socketAddress (.v4 ⟨127, 0, 0, 1⟩ 53)⟩).write ++ [9]) =
      .ok (.packet ⟨1, 2, 3, 0, 4, .socketAddress (.v4 ⟨127, 0, 0, 1⟩ 53)⟩, [9]) :=
  ((unmarshal_write (.packet ⟨1, 2, 3, 0, 4, .socketAddress (.v4 ⟨127, 0, 0, 1⟩ 53)⟩) trivial).2 [9]).1

end Tuic
