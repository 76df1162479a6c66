import Tuic.Proofs.Grammar
import Tuic.Spec.Quinn

/-! The two sides of a connection on one datagram: they agree, and the server
returns, on every datagram that is not a `Packet` shorter than it says. -/

namespace Tuic.Quinn

open Lib Model

/-- Both sides return the packet with the payload behind the header, or both the
same length error. -/
def SameAnswer (client server : Outcome Error Task) (dg : List UInt8) (pkt : Tuic.Packet) (pos : ℕ) :
    Prop :=
  (pos + pkt.size.toNat ≤ dg.length ∧
    client = .ok (.packet ⟨pkt, .native ((dg.drop pos).take pkt.size.toNat)⟩) ∧
    server = .ok (.packet ⟨pkt, .native ((dg.drop pos).take pkt.size.toNat)⟩)) ∨
  ∃ expected actual, client = .err (.payloadLength expected actual) ∧
    server = .err (.payloadLength expected actual)

/-- The two sides agree on a datagram that decodes to a packet of an existing
session, and the server returns on every datagram. -/
def Agree (s : UdpSessions (List UInt8)) (dg : List UInt8) : Prop :=
  (∀ pkt pos, Header.unmarshalAt dg = .ok (.packet pkt, pos) →
    (s.sessions.get pkt.assocId).isSome = true →
    SameAnswer (acceptDatagramClient s dg) (acceptDatagramServer s dg).2 dg pkt pos) ∧
  (acceptDatagramServer s dg).2.Returns

/-- No encoded `Packet` header of the datagram announces more than follows it. -/
def HoldsPayload (dg : List UInt8) : Prop :=
  ∀ (pkt : Tuic.Packet) rest, pkt.addr.Encodable → dg = (Header.packet pkt).write ++ rest →
    pkt.size.toNat ≤ rest.length

theorem unmarshalAt_iff {dg : List UInt8} {h : Header} {pos : ℕ} :
    Header.unmarshalAt dg = .ok (h, pos) ↔
      ∃ rest, dg = h.write ++ rest ∧ h.Encodable ∧ pos = h.write.length := by
  constructor
  · intro hok
    obtain ⟨⟨h', rest⟩, hr, heq⟩ := Outcome.bind_eq_ok.1 hok
    obtain ⟨_, rfl, rfl, he⟩ := header_consumes _ _ _ hr
    cases heq
    exact ⟨rest, rfl, he, by simp⟩
  · rintro ⟨rest, rfl, he, rfl⟩
    simp [Header.unmarshalAt, header_accepts h he rest]

theorem holdsPayload_iff {dg : List UInt8} {pkt : Tuic.Packet} {pos : ℕ}
    (hok : Header.unmarshalAt dg = .ok (.packet pkt, pos)) :
    HoldsPayload dg ↔ pos + pkt.size.toNat ≤ dg.length := by
  obtain ⟨rest, hdg, he, hpos⟩ := unmarshalAt_iff.1 hok
  have hlen : dg.length = pos + rest.length := by rw [hdg, hpos, List.length_append]
  constructor
  · intro h
    have := h pkt rest he hdg
    omega
  · intro h pkt' rest' he' hdg'
    -- the header of a datagram is unique
    have hok' := unmarshalAt_iff.2 ⟨rest', hdg', he', rfl⟩
    rw [hok] at hok'
    cases hok'
    rw [hdg', List.length_append] at h
    omega

theorem slice_within {ε : Type} {dg : List UInt8} {pos size : ℕ} (h : pos + size ≤ dg.length) :
    (slice dg pos (pos + size) : Outcome ε _) = .ok ((dg.drop pos).take size) := by
  simp [slice, h]

theorem server_packet {s : UdpSessions (List UInt8)} {dg : List UInt8} {pkt : Tuic.Packet} {pos : ℕ}
    (hok : Header.unmarshalAt dg = .ok (.packet pkt, pos)) :
    (acceptDatagramServer s dg).2 =
      if pos + pkt.size.toNat ≤ dg.length then
        .ok (.packet ⟨pkt, .native ((dg.drop pos).take pkt.size.toNat)⟩)
      else .panic .outOfBounds := by
  simp only [acceptDatagramServer, hok, UdpSessions.recvPacketUnrestricted]
  by_cases h : pos + pkt.size.toNat ≤ dg.length
  · rw [if_pos h, slice_within h]
    rfl
  · rw [if_neg h]
    simp [slice, h]

theorem client_packet {s : UdpSessions (List UInt8)} {dg : List UInt8} {pkt : Tuic.Packet} {pos : ℕ}
    (hok : Header.unmarshalAt dg = .ok (.packet pkt, pos))
    (hses : (s.sessions.get pkt.assocId).isSome = true) :
    acceptDatagramClient s dg =
      if pos + pkt.size.toNat ≤ dg.length then
        .ok (.packet ⟨pkt, .native ((dg.drop pos).take pkt.size.toNat)⟩)
      else .err (.payloadLength pkt.size.toNat (dg.length - pos)) := by
  obtain ⟨session, hget⟩ := Option.isSome_iff_exists.1 hses
  simp only [acceptDatagramClient, hok, UdpSessions.recvPacket, hget, Option.map_some]
  by_cases h : pos + pkt.size.toNat ≤ dg.length
  · rw [if_pos h, if_pos h, slice_within h]
    rfl
  · rw [if_neg h, if_neg h]

theorem unmarshalAt_returns (dg : List UInt8) : (Header.unmarshalAt dg).Returns := by
  have h := header_steady.returns dg
  unfold Header.unmarshalAt
  cases hu : Header.unmarshal dg with
  | panic p => exact absurd h (by simp [hu])
  | ok x => exact trivial
  | err e => exact trivial

/-- The server panics only while it takes the payload out. -/
theorem server_returns_of_not_packet {s : UdpSessions (List UInt8)} {dg : List UInt8}
    (hno : ∀ pkt pos, Header.unmarshalAt dg ≠ .ok (.packet pkt, pos)) :
    (acceptDatagramServer s dg).2.Returns := by
  have hret := unmarshalAt_returns dg
  unfold acceptDatagramServer
  cases hu : Header.unmarshalAt dg with
  | err e => exact trivial
  | panic p => simp [hu] at hret
  | ok x =>
    obtain ⟨h, pos⟩ := x
    cases h with
    | packet pkt => exact absurd hu (hno pkt pos)
    | authenticate _ => exact trivial
    | connect _ => exact trivial
    | dissociate _ => exact trivial
    | heartbeat _ => exact trivial

/-- The two sides agree on a datagram, and the server returns on it, exactly if
the datagram is not a `Packet` header followed by less than its size. -/
theorem agree_iff (s : UdpSessions (List UInt8)) (dg : List UInt8) :
    Agree s dg ↔ HoldsPayload dg := by
  by_cases hpkt : ∃ pkt pos, Header.unmarshalAt dg = .ok (.packet pkt, pos)
  · obtain ⟨pkt, pos, hok⟩ := hpkt
    rw [holdsPayload_iff hok, Agree, server_packet hok]
    constructor
    · rintro ⟨-, hret⟩
      by_contra hlt
      simp [hlt] at hret
    · intro hle
      refine ⟨fun pkt' pos' hok' hses => ?_, by simp [hle]⟩
      obtain ⟨rfl, rfl⟩ : pkt = pkt' ∧ pos = pos' := by simpa [hok] using hok'
      rw [client_packet hok hses]
      simp [SameAnswer, hle]
  · have hno : ∀ pkt pos, Header.unmarshalAt dg ≠ .ok (.packet pkt, pos) := fun pkt pos h =>
      hpkt ⟨pkt, pos, h⟩
    refine iff_of_true ⟨fun pkt pos h => absurd h (hno pkt pos), server_returns_of_not_packet hno⟩ ?_
    intro pkt rest he hdg
    exact absurd (unmarshalAt_iff.2 ⟨rest, hdg, he, rfl⟩) (hno pkt _)

/-- A `Packet` of session 7 that announces five bytes and carries one. -/
theorem disagree_short :
    let s := ((UdpSessions.new : UdpSessions (List UInt8)).recvPacketUnrestricted ⟨7, 0, 1, 0, 0, .none⟩).1
    let dg := (Header.packet ⟨7, 0, 1, 0, 5, .none⟩).write ++ [1]
    (s.sessions.get 7).isSome = true ∧
      acceptDatagramClient s dg = .err (.payloadLength 5 1) ∧
      (acceptDatagramServer s dg).2 = .panic .outOfBounds ∧ ¬ Agree s dg := by
  refine ⟨rfl, rfl, rfl, fun h => ?_⟩
  cases h.2

end Tuic.Quinn
