import Tuic.Proofs.Grammar
import Tuic.Spec.AsyncUnmarshal

/-! The two decoders agree. Each asynchronous reader denotes the synchronous one of
its name, so that it ends as that one does however its bytes arrive. -/

namespace Tuic

open Lib

theorem asyncReadDomain_denotes (len : ℕ) :
    (Address.asyncReadDomain len).toReader = Address.readDomain len := by
  simp only [Address.asyncReadDomain, Address.readDomain, Async.toReader_bind,
    Async.toReader_readExact, Async.toReader_lift]
  congr 1
  funext buf
  congr 1
  funext port
  cases fromUtf8 (buf.take len) <;> rfl

theorem asyncReadIpv4_denotes : Address.asyncReadIpv4.toReader = Address.readIpv4 := by
  simp [Address.asyncReadIpv4, Address.readIpv4]

theorem asyncReadIpv6_denotes : Address.asyncReadIpv6.toReader = Address.readIpv6 := by
  simp [Address.asyncReadIpv6, Address.readIpv6]

theorem address_asyncRead_denotes : Address.asyncRead.toReader = Address.read := by
  simp [Address.asyncRead, Address.read, asyncReadDomain_denotes, asyncReadIpv4_denotes,
    asyncReadIpv6_denotes]

theorem authenticate_asyncRead_denotes : Authenticate.asyncRead.toReader = Authenticate.read := by
  simp only [Authenticate.asyncRead, Authenticate.read, Async.toReader_bind,
    Async.toReader_readExact, Async.toReader_lift]
  congr 1
  funext buf
  congr 1
  funext uuid
  cases arrayFromSlice 32 (buf.drop 16) <;> rfl

theorem connect_asyncRead_denotes : Connect.asyncRead.toReader = Connect.read := by
  simp [Connect.asyncRead, Connect.read, address_asyncRead_denotes]

theorem packet_asyncRead_denotes : Packet.asyncRead.toReader = Packet.read := by
  simp [Packet.asyncRead, Packet.read, address_asyncRead_denotes]

theorem dissociate_asyncRead_denotes : Dissociate.asyncRead.toReader = Dissociate.read := by
  simp [Dissociate.asyncRead, Dissociate.read]

theorem asyncUnmarshal_denotes : Header.asyncUnmarshal.toReader = Header.unmarshal := by
  simp [Header.asyncUnmarshal, Header.unmarshal, authenticate_asyncRead_denotes,
    connect_asyncRead_denotes, packet_asyncRead_denotes, dissociate_asyncRead_denotes,
    Heartbeat.asyncRead, Heartbeat.read]

/-- However the bytes of a stream arrive, the asynchronous decoder ends once it is
polled more often than the stream has nothing for it. It ends with the header or
the error of the synchronous one on all of the bytes, and with a header it has read
as many of them. -/
theorem asyncUnmarshal_agrees (s : ByteStream) (polls : ℕ) (h : s.pendings < polls) :
    ∃ res, Header.asyncUnmarshal.blockOn polls s = some res ∧
      match res with
      | .ok (header, rest) => Header.unmarshal s.bytes = .ok (header, rest.bytes) ∧
          Header.unmarshalAt s.bytes = .ok (header, s.bytes.length - rest.bytes.length)
      | .err e => Header.unmarshal s.bytes = .err e
      | .panic _ => False := by
  obtain ⟨res, hres, hsame⟩ := Async.blockOn_denotes polls Header.asyncUnmarshal s h
  rw [asyncUnmarshal_denotes] at hsame
  refine ⟨res, hres, ?_⟩
  cases res with
  | ok x =>
    have hok : Header.unmarshal s.bytes = .ok (x.1, x.2.bytes) := hsame.symm
    exact ⟨hok, by rw [Header.unmarshalAt, hok]; rfl⟩
  | err e => exact hsame.symm
  | panic p =>
    have hret := header_steady.returns s.bytes
    rw [← hsame] at hret
    exact hret

/-- A `Dissociate` in three chunks, the second of them late, with a byte behind it. -/
theorem asyncUnmarshal_split :
    Header.asyncUnmarshal.blockOn 2
        [.chunk [5, 3, 0] (by decide), .pending, .chunk [7, 9] (by decide)] =
      some (.ok (.dissociate ⟨7⟩, [.chunk [9] (by decide)])) ∧
    Header.unmarshal [5, 3, 0, 7, 9] = .ok (.dissociate ⟨7⟩, [9]) := by
  obtain ⟨res, hres, hsame⟩ := asyncUnmarshal_agrees
    [.chunk [5, 3, 0] (by decide), .pending, .chunk [7, 9] (by decide)] 2 (by decide)
  obtain rfl : _ = res := Option.some.inj hres
  exact ⟨rfl, hsame.1⟩

end Tuic
