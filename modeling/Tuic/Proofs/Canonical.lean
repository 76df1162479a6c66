import Mathlib.Tactic.SplitIfs
import Tuic.Spec.Marshal
import Tuic.Spec.Unmarshal

/-! The wire format is canonical: the bytes the decoder consumes are the bytes
the encoder writes for the header it returns. -/

namespace Tuic

open Lib Lib.Reader

theorem readDomain_consumes (n : UInt8) :
    Consumes (Address.readDomain n.toNat)
      fun used a => Address.typeCodeDomain :: n :: used = a.write ∧ a.Encodable := by
  refine (consumes_readExact _).bind ?_
  rintro buf _ ⟨rfl, hlen⟩
  -- the buffer is the name and the two bytes of the port
  obtain ⟨hi, lo, hport⟩ : ∃ hi lo, buf.drop n.toNat = [hi, lo] := by
    have h2 : (buf.drop n.toNat).length = 2 := by simp [hlen]
    match buf.drop n.toNat, h2 with
    | [hi, lo], _ => exact ⟨hi, lo, rfl⟩
  have hbuf : buf = buf.take n.toNat ++ [hi, lo] := by rw [← hport, List.take_append_drop]
  have hu : (u16At buf n.toNat : Outcome UnmarshalError _) = .ok (ofBeBytes hi lo) := by
    rw [hbuf]
    simp [u16At, Outcome.index, hlen]
  simp only [hu, lift_ok, Reader.pure_bind]
  cases hs : fromUtf8 (buf.take n.toNat) with
  | none => exact consumes_fail _
  | some domain =>
    apply consumes_pure
    have hb := asBytes_of_fromUtf8 hs
    have hn : UInt8.ofNat (asBytes domain).length = n := by
      rw [hb, List.length_take, hlen, Nat.min_eq_left (Nat.le_add_right _ _), UInt8.ofNat_toNat]
    refine ⟨?_, ?_⟩
    · simp only [Address.write, Address.typeCode, hn, beBytes_ofBeBytes]
      rw [hb]
      simp [← hbuf]
    · have hle := n.toNat_lt
      simp only [Address.Encodable, hb, List.length_take]
      omega

theorem readIpv4_block :
    Block Address.readIpv4 6
      fun used a => Address.typeCodeIpv4 :: used = a.write ∧ a.Encodable := by
  refine ⟨_, rfl, fun buf hlen => ?_⟩
  match buf, hlen with
  | [a, b, c, d, hi, lo], _ =>
    refine ⟨.socketAddress (.v4 ⟨a, b, c, d⟩ (ofBeBytes hi lo)), rfl, ?_, trivial⟩
    simp [Address.write, Address.typeCode, Ipv4Addr.octets]

theorem readIpv6_block :
    Block Address.readIpv6 18
      fun used a => Address.typeCodeIpv6 :: used = a.write ∧ a.Encodable := by
  refine ⟨_, rfl, fun buf hlen => ?_⟩
  match buf, hlen with
  | [a0, a1, b0, b1, c0, c1, d0, d1, e0, e1, f0, f1, g0, g1, h0, h1, p0, p1], _ =>
    refine ⟨.socketAddress (.v6
      ⟨ofBeBytes a0 a1, ofBeBytes b0 b1, ofBeBytes c0 c1, ofBeBytes d0 d1, ofBeBytes e0 e1,
        ofBeBytes f0 f1, ofBeBytes g0 g1, ofBeBytes h0 h1⟩ (ofBeBytes p0 p1) 0 0), rfl, ?_, rfl, rfl⟩
    simp [Address.write, Address.typeCode, Ipv6Addr.segments]

theorem address_consumes : Consumes Address.read fun used a => used = a.write ∧ a.Encodable := by
  apply Consumes.byte
  intro t
  split_ifs with h0 h1 h2 h3
  · subst h0
    exact consumes_pure ⟨rfl, trivial⟩
  · subst h1
    exact Consumes.byte readDomain_consumes
  · subst h2
    exact readIpv4_block.consumes
  · subst h3
    exact readIpv6_block.consumes
  · exact consumes_fail _

theorem authenticate_block : Block Authenticate.read 48 fun used a => used = a.write := by
  refine ⟨_, rfl, fun buf hlen => ?_⟩
  obtain ⟨uuid, hu⟩ := exists_arrayFromSlice (show (buf.take 16).length = 16 by simp [hlen])
  obtain ⟨token, ht⟩ := exists_arrayFromSlice (show (buf.drop 16).length = 32 by simp [hlen])
  refine ⟨⟨uuid, token⟩, by simp only [Uuid.fromSlice, hu, ht, lift_ok, Reader.pure_bind], ?_⟩
  simp only [Authenticate.write, toList_of_arrayFromSlice hu, toList_of_arrayFromSlice ht,
    List.take_append_drop]

theorem connect_consumes : Consumes Connect.read fun used a => used = a.write ∧ a.addr.Encodable := by
  refine address_consumes.bind ?_
  rintro _ addr ⟨rfl, henc⟩
  exact consumes_pure ⟨List.append_nil _, henc⟩

theorem exists_eight {buf : List UInt8} (h : buf.length = 8) :
    ∃ a b c d e f g i, buf = [a, b, c, d, e, f, g, i] := by
  match buf, h with
  | [a, b, c, d, e, f, g, i], _ => exact ⟨a, b, c, d, e, f, g, i, rfl⟩

theorem packet_consumes : Consumes Packet.read fun used a => used = a.write ∧ a.addr.Encodable := by
  refine (consumes_readExact 8).bind ?_
  rintro buf _ ⟨rfl, hlen⟩
  obtain ⟨a0, a1, p0, p1, total, id, s0, s1, rfl⟩ := exists_eight hlen
  change Consumes (Address.read >>= fun addr => pure (Packet.mk (ofBeBytes a0 a1) (ofBeBytes p0 p1) total id
    (ofBeBytes s0 s1) addr)) _
  refine address_consumes.bind ?_
  rintro _ addr ⟨rfl, henc⟩
  refine consumes_pure ⟨?_, henc⟩
  simp [Packet.write]

theorem dissociate_block : Block Dissociate.read 2 fun used a => used = a.write := by
  refine ⟨_, rfl, fun buf hlen => ?_⟩
  match buf, hlen with
  | [hi, lo], _ =>
    refine ⟨⟨ofBeBytes hi lo⟩, rfl, ?_⟩
    simp [Dissociate.write]

theorem header_consumes : Consumes Header.unmarshal fun used h => used = h.write ∧ h.Encodable := by
  apply Consumes.byte
  intro ver
  split_ifs with hv
  · exact consumes_fail _
  · obtain rfl : ver = version := by simpa using hv
    apply Consumes.byte
    intro cmd
    split_ifs with h0 h1 h2 h3 h4
    · subst h0
      exact authenticate_block.consumes.map fun _ auth h => ⟨by simp [Header.write, Header.typeCode, h], trivial⟩
    · subst h1
      exact connect_consumes.map fun _ conn h => ⟨by simp [Header.write, Header.typeCode, h.1], h.2⟩
    · subst h2
      exact packet_consumes.map fun _ pkt h => ⟨by simp [Header.write, Header.typeCode, h.1], h.2⟩
    · subst h3
      exact dissociate_block.consumes.map fun _ dissoc h => ⟨by simp [Header.write, Header.typeCode, h], trivial⟩
    · subst h4
      exact (consumes_pure (P := fun used _ => used = []) rfl).map fun _ hb h =>
        ⟨by simp [Header.write, Header.typeCode, Heartbeat.write, h], trivial⟩
    · exact consumes_fail _

/-- Whatever byte string decodes to `h` starts with the encoding of `h`, which
is all that the decoder consumes of it. -/
theorem write_of_unmarshal (bs : List UInt8) (h : Header) (n : ℕ)
    (hok : Header.unmarshalAt bs = .ok (h, n)) :
    h.len = n ∧ h.write = bs.take n ∧
      ∀ bs' n', Header.unmarshalAt bs' = .ok (h, n') → bs'.take n = bs.take n := by
  have key : ∀ bs n, Header.unmarshalAt bs = .ok (h, n) → h.len = n ∧ h.write = bs.take n := by
    intro bs n hok
    obtain ⟨⟨h', rest⟩, h1, h2⟩ := Outcome.bind_eq_ok.1 hok
    obtain ⟨_, rfl, rfl, -⟩ := header_consumes _ _ _ h1
    simp only [Outcome.pure_eq, Outcome.ok.injEq, Prod.mk.injEq] at h2
    obtain ⟨rfl, rfl⟩ := h2
    simp [h'.write_length]
  refine ⟨(key bs n hok).1, (key bs n hok).2, fun bs' n' hok' => ?_⟩
  rw [← (key bs n hok).2, (key bs' n' hok').2, ← (key bs' n' hok').1, (key bs n hok).1]

theorem write_of_unmarshal_dissociate :
    (Header.dissociate ⟨7⟩).len = 4 ∧ (Header.dissociate ⟨7⟩).write = [5, 3, 0, 7] :=
  have h := write_of_unmarshal [5, 3, 0, 7, 9] (.dissociate ⟨7⟩) 4 rfl
  ⟨h.1, h.2.1⟩

end Tuic
