import Tuic.Lib.Segments
import Tuic.Proofs.Canonical
import Tuic.Proofs.RoundTrip

/-! When one encoding ends inside another: the length of a domain is cast to one
byte, so the name and the port of a short domain can begin the name of a longer
one. No other headers are confused. -/

namespace Tuic

open Lib Lib.Reader

/-- The bytes of the first header do not begin those of the second unless the
headers are the same, and a peer never reads the second as the first. -/
structure SelfDelimiting (h h' : Header) : Prop where
  begins : h.write <+: h'.write → h.onWire = h'.onWire
  reads : ∀ rest rest', Header.unmarshal (h'.write ++ rest) = .ok (h, rest') →
    h = h'.onWire ∧ rest' = rest

/-! ### Addresses -/

theorem Address.typeCode_of_begins {a a' : Address} (h : a.write <+: a'.write) :
    a.typeCode = a'.typeCode := by
  obtain ⟨hcode, -⟩ := (append_prefix_append (by rfl)).1 h
  exact List.singleton_inj.1 hcode

theorem asBytes_inj {s t : String} (h : asBytes s = asBytes t) : s = t := by
  have hs := fromUtf8_asBytes s
  rw [h, fromUtf8_asBytes] at hs
  exact (Option.some.inj hs).symm

/-- A domain begins another one only with its name and port, or inside the name. -/
theorem domain_prefix_iff (d d' : String) (p p' : UInt16) :
    (Address.domainAddress d p).write <+: (Address.domainAddress d' p').write ↔
      Address.domainAddress d p = .domainAddress d' p' ∨
        (Address.domainAddress d p).Shadows (.domainAddress d' p') := by
  have hbyte : UInt8.ofNat (asBytes d).length = UInt8.ofNat (asBytes d').length ↔
      (asBytes d).length % 256 = (asBytes d').length % 256 := by
    rw [← UInt8.toNat_inj, UInt8.toNat_ofNat', UInt8.toNat_ofNat']
  have hwrite : (Address.domainAddress d p).write <+: (Address.domainAddress d' p').write ↔
      (asBytes d).length % 256 = (asBytes d').length % 256 ∧
        asBytes d ++ beBytes p <+: asBytes d' ++ beBytes p' := by
    simp only [Address.write, Address.typeCode, List.append_assoc, List.prefix_append_right_inj]
    rw [append_prefix_append (by rfl), List.singleton_inj, hbyte]
  rw [hwrite]
  constructor
  · rintro ⟨hmod, hpre⟩
    have hlen := hpre.length_le
    simp only [List.length_append, beBytes_length] at hlen
    by_cases heq : (asBytes d).length = (asBytes d').length
    · obtain ⟨hd, hp⟩ := (append_prefix_append heq).1 hpre
      have hp := hp.eq_of_length rfl
      refine .inl ?_
      rw [asBytes_inj hd, ← ofBeBytes_bytes p, ← ofBeBytes_bytes p', (List.cons.inj hp).1,
        List.singleton_inj.1 (List.cons.inj hp).2]
    · -- the names differ by at least 256 bytes, so the port falls into the name
      refine .inr ⟨List.prefix_of_prefix_length_le hpre (List.prefix_append _ _) ?_, hmod⟩
      simp only [List.length_append, beBytes_length]
      omega
  · rintro (heq | ⟨hpre, hmod⟩)
    · cases heq
      exact ⟨rfl, List.prefix_refl _⟩
    · exact ⟨hmod, hpre.trans (List.prefix_append _ _)⟩

theorem Address.eq_domain {a : Address} (h : a.typeCode = typeCodeDomain) :
    ∃ d p, a = domainAddress d p := by
  rcases a with _ | ⟨d, p⟩ | ⟨⟨ip, p⟩ | ⟨ip, p, fl, sc⟩⟩
  · exact absurd h (by simp [typeCode, typeCodeNone, typeCodeDomain])
  · exact ⟨d, p, rfl⟩
  · exact absurd h (by simp [typeCode, typeCodeIpv4, typeCodeDomain])
  · exact absurd h (by simp [typeCode, typeCodeIpv6, typeCodeDomain])

theorem address_prefix_iff (a a' : Address) :
    a.write <+: a'.write ↔ a.onWire = a'.onWire ∨ a.Shadows a' := by
  by_cases hdom : a.typeCode = Address.typeCodeDomain ∧ a'.typeCode = Address.typeCodeDomain
  · obtain ⟨d, p, rfl⟩ := Address.eq_domain hdom.1
    obtain ⟨d', p', rfl⟩ := Address.eq_domain hdom.2
    exact domain_prefix_iff d d' p p'
  · have hno : ¬ a.Shadows a' := by
      rcases a with _ | ⟨d, p⟩ | _
      · exact id
      · rcases a' with _ | ⟨d', p'⟩ | _
        · exact id
        · exact absurd ⟨rfl, rfl⟩ hdom
        · exact id
      · exact id
    rw [or_iff_left hno]
    constructor
    · intro h
      have hcode := Address.typeCode_of_begins h
      have hne : a.typeCode ≠ Address.typeCodeDomain := fun ha => hdom ⟨ha, hcode ▸ ha⟩
      have ha := address_accepts a.onWire
        (Address.onWire_encodable fun d p hd => absurd (congrArg Address.typeCode hd) hne)
      have ha' := address_accepts a'.onWire
        (Address.onWire_encodable fun d p hd =>
          absurd (hcode.trans (congrArg Address.typeCode hd)) hne)
      rw [Address.onWire_write] at ha ha'
      exact (ha.of_begins ha' h).1
    · intro h
      have hwrite : a.write = a'.write := by rw [← a.onWire_write, h, a'.onWire_write]
      exact hwrite ▸ List.prefix_refl _

/-! ### Headers -/

theorem connect_prefix_iff (conn conn' : Connect) :
    (Header.connect conn).write <+: (Header.connect conn').write ↔
      (Header.connect conn).onWire = (Header.connect conn').onWire ∨
        (Header.connect conn).Shadows (.connect conn') := by
  simp only [Header.write, Header.typeCode, Connect.write, List.append_assoc,
    List.prefix_append_right_inj, address_prefix_iff]
  simp [Header.onWire, Header.Shadows]

theorem packet_prefix_iff (pkt pkt' : Packet) :
    (Header.packet pkt).write <+: (Header.packet pkt').write ↔
      (Header.packet pkt).onWire = (Header.packet pkt').onWire ∨
        (Header.packet pkt).Shadows (.packet pkt') := by
  have hbytes : ∀ x y : UInt16, beBytes x = beBytes y ↔ x = y := by
    intro x y
    refine ⟨fun h => ?_, congrArg _⟩
    rw [← ofBeBytes_bytes x, ← ofBeBytes_bytes y, (List.cons.inj h).1,
      List.singleton_inj.1 (List.cons.inj h).2]
  obtain ⟨a, p, t, i, s, addr⟩ := pkt
  obtain ⟨a', p', t', i', s', addr'⟩ := pkt'
  simp only [Header.write, Header.typeCode, Packet.write, List.append_assoc,
    List.prefix_append_right_inj]
  rw [append_prefix_append (by rfl), append_prefix_append (by rfl), append_prefix_append (by rfl),
    append_prefix_append (by rfl), append_prefix_append (by rfl), address_prefix_iff]
  simp only [hbytes, List.singleton_inj, Header.onWire, Header.Shadows, Header.packet.injEq,
    Packet.mk.injEq, and_true, and_assoc, ← and_or_left]

theorem Header.typeCode_of_begins {h h' : Header} (hp : h.write <+: h'.write) :
    h.typeCode = h'.typeCode := by
  simp only [write, List.append_assoc, List.prefix_append_right_inj] at hp
  exact List.singleton_inj.1 ((append_prefix_append (by rfl)).1 hp).1

theorem Header.Shadows.typeCode {h h' : Header} (hs : h.Shadows h') : h.typeCode = h'.typeCode := by
  cases h with
  | connect conn =>
    cases h' with
    | connect conn' => rfl
    | _ => exact hs.elim
  | packet pkt =>
    cases h' with
    | packet pkt' => rfl
    | _ => exact hs.elim
  | _ => exact hs.elim

theorem header_prefix_iff (h h' : Header) :
    h.write <+: h'.write ↔ h.onWire = h'.onWire ∨ h.Shadows h' := by
  have hwrite : h.onWire = h'.onWire → h.write <+: h'.write := by
    intro heq
    have hsame : h.write = h'.write := by rw [← h.onWire_write, heq, h'.onWire_write]
    exact hsame ▸ List.prefix_refl _
  by_cases hcode : h.typeCode = h'.typeCode
  · have hfit : h.Encodable → h'.Encodable → ¬ h.Shadows h' →
        (h.write <+: h'.write ↔ h.onWire = h'.onWire ∨ h.Shadows h') := by
      intro he he' hno
      rw [or_iff_left hno]
      refine ⟨fun hp => ?_, hwrite⟩
      rw [((header_accepts h he).of_begins (header_accepts h' he') hp).1]
    cases h with
    | connect conn =>
      cases h' with
      | connect conn' => exact connect_prefix_iff conn conn'
      | _ => cases hcode
    | packet pkt =>
      cases h' with
      | packet pkt' => exact packet_prefix_iff pkt pkt'
      | _ => cases hcode
    | _ =>
      cases h' with
      | connect conn' => cases hcode
      | packet pkt' => cases hcode
      | _ => exact hfit trivial trivial id
  · refine iff_of_false (fun hp => hcode (Header.typeCode_of_begins hp)) ?_
    rintro (heq | hs)
    · exact hcode (Header.typeCode_of_begins (hwrite heq))
    · exact hcode hs.typeCode

/-- What shadows a header is shorter, by at least the range of a byte. -/
theorem Header.Shadows.length {h h' : Header} (hs : h.Shadows h') :
    h.write.length < h'.write.length := by
  have hdomain : ∀ a a' : Address, a.Shadows a' → a.write.length < a'.write.length := by
    intro a a' ha
    rcases a with _ | ⟨d, p⟩ | _
    · exact ha.elim
    · rcases a' with _ | ⟨d', p'⟩ | _
      · exact ha.elim
      · have hlen := ha.1.length_le
        simp only [List.length_append, beBytes_length] at hlen
        simp only [Address.write_length, Address.len]
        omega
      · exact ha.elim
    · exact ha.elim
  cases h with
  | connect conn =>
    cases h' with
    | connect conn' =>
      have := hdomain _ _ hs
      simpa [Header.write, Connect.write] using this
    | _ => exact hs.elim
  | packet pkt =>
    cases h' with
    | packet pkt' =>
      have := hdomain _ _ hs.2
      simpa [Header.write, Packet.write] using this
    | _ => exact hs.elim
  | _ => exact hs.elim

/-- Nothing that fits the wire format is shadowed. -/
theorem Header.Encodable.not_shadowed {h h' : Header} (he : h'.Encodable) : ¬ h.Shadows h' := by
  have hdomain : ∀ a a' : Address, a'.Encodable → ¬ a.Shadows a' := by
    intro a a' ha' ha
    rcases a with _ | ⟨d, p⟩ | _
    · exact ha
    · rcases a' with _ | ⟨d', p'⟩ | _
      · exact ha
      · obtain ⟨hpre, hmod⟩ := ha
        have hlen := hpre.length_le
        have hle : (asBytes d').length ≤ 255 := ha'
        simp only [List.length_append, beBytes_length] at hlen
        omega
      · exact ha
    · exact ha
  intro hs
  cases h with
  | connect conn =>
    cases h' with
    | connect conn' => exact hdomain _ _ he hs
    | _ => exact hs
  | packet pkt =>
    cases h' with
    | packet pkt' => exact hdomain _ _ he hs.2
    | _ => exact hs
  | _ => exact hs

/-- Of any two headers, the first one's bytes begin the second one's only if they
are the same header, and no peer reads the second as the first, exactly if the
second one's address is not a domain that the first one's shadows. -/
theorem selfDelimiting_iff (h h' : Header) : SelfDelimiting h h' ↔ ¬ h.Shadows h' := by
  constructor
  · intro hself hs
    have heq := hself.begins ((header_prefix_iff h h').2 (.inr hs))
    have hlen := hs.length
    rw [← h.onWire_write, heq, h'.onWire_write] at hlen
    exact Nat.lt_irrefl _ hlen
  · intro hno
    have hbegins : h.write <+: h'.write → h.onWire = h'.onWire := fun hp =>
      ((header_prefix_iff h h').1 hp).resolve_right hno
    refine ⟨hbegins, fun rest rest' hread => ?_⟩
    obtain ⟨_, hbytes, rfl, he⟩ := header_consumes _ _ _ hread
    have hsame : h.onWire = h'.onWire := by
      rcases List.prefix_or_prefix_of_prefix (List.prefix_append h.write rest')
        (hbytes ▸ List.prefix_append h'.write rest) with hp | hp
      · exact hbegins hp
      · exact (((header_prefix_iff h' h).1 hp).resolve_right he.not_shadowed).symm
    have hwrite : h.write = h'.write := by rw [← h.onWire_write, hsame, h'.onWire_write]
    rw [hwrite] at hbytes
    exact ⟨(Header.onWire_of_encodable he).symm.trans hsame, (List.append_cancel_left hbytes).symm⟩

/-- A domain of 256 letters is written with the length byte 0: the peer reads an
empty domain, takes two letters for the port and the rest for payload. -/
theorem longDomain_shadowed :
    let h := Header.connect ⟨.domainAddress "" 0x6161⟩
    let h' := Header.connect ⟨.domainAddress (String.ofList (List.replicate 256 'a')) 443⟩
    h.write <+: h'.write ∧ h.onWire ≠ h'.onWire ∧
      Header.unmarshal h'.write = .ok (h, List.replicate 254 0x61 ++ [1, 187]) ∧
      ¬ SelfDelimiting h h' := by
  refine ⟨by decide +kernel, by decide +kernel, by decide +kernel, fun hself => ?_⟩
  have heq := hself.begins (by decide +kernel)
  exact absurd heq (by decide +kernel)

end Tuic
