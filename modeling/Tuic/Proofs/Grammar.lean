import Mathlib.Tactic.SplitIfs
import Tuic.Proofs.Canonical
import Tuic.Proofs.RoundTrip
import Tuic.Spec.Grammar

/-! The decoder decides the grammar: it accepts the commands, it reports the
first violated rule of every other byte string, and no verdict but the end of
input changes when more bytes arrive. -/

namespace Tuic

open Lib Lib.Reader Grammar

/-! ### More input -/

theorem readDomain_steady (len : ℕ) : Steady (Address.readDomain len) := by
  refine Steady.read fun buf hlen => ?_
  have h1 : len < buf.length := by omega
  have h2 : len + 1 < buf.length := by omega
  simp only [u16At, Outcome.index_of_lt h1, Outcome.index_of_lt h2, Outcome.ok_bind,
    Outcome.pure_eq, lift_ok, Reader.pure_bind]
  split
  · exact steady_pure _
  · refine steady_fail fun h => ?_
    cases h

theorem address_steady : Steady Address.read := by
  apply Steady.byte
  intro t
  split_ifs
  · exact steady_pure _
  · exact Steady.byte fun n => readDomain_steady n.toNat
  · exact readIpv4_block.steady
  · exact readIpv6_block.steady
  · exact steady_fail nofun

theorem packet_steady : Steady Packet.read := by
  refine Steady.read fun buf hlen => ?_
  obtain ⟨a0, a1, p0, p1, total, id, s0, s1, rfl⟩ := exists_eight hlen
  exact address_steady.map (Packet.mk (ofBeBytes a0 a1) (ofBeBytes p0 p1) total id (ofBeBytes s0 s1))

theorem header_steady : Steady Header.unmarshal := by
  apply Steady.byte
  intro ver
  split_ifs
  · exact steady_fail nofun
  · apply Steady.byte
    intro cmd
    split_ifs
    · exact authenticate_block.steady.map _
    · exact (address_steady.map Connect.mk).map _
    · exact packet_steady.map _
    · exact dissociate_block.steady.map _
    · exact (steady_pure _).map _
    · exact steady_fail nofun

/-! ### The first violated rule -/

@[simp] theorem byteAt_zero (x : UInt8) (bs : List UInt8) : byteAt (x :: bs) 0 = x := rfl
@[simp] theorem byteAt_succ (x : UInt8) (bs : List UInt8) (i : ℕ) :
    byteAt (x :: bs) (i + 1) = byteAt bs i := rfl

theorem readDomain_errorOf (n : ℕ) (bs : List UInt8) :
    errorOf (Address.readDomain n bs) =
      if n + 2 ≤ bs.length then
        if (fromUtf8 (bs.take n)).isSome then none else some (.addressParse (bs.take n))
      else some eof := by
  rw [Address.readDomain, errorOf_read]
  by_cases h : n + 2 ≤ bs.length
  · have h1 : n < (bs.take (n + 2)).length := by simp; omega
    have h2 : n + 1 < (bs.take (n + 2)).length := by simp; omega
    have ht : (bs.take (n + 2)).take n = bs.take n := by simp [List.take_take]
    simp only [if_pos h, u16At, Outcome.index_of_lt h1, Outcome.index_of_lt h2, Outcome.ok_bind,
      Outcome.pure_eq, lift_ok, Reader.pure_bind, ht]
    cases fromUtf8 (bs.take n) <;> rfl
  · simp only [if_neg h]

theorem address_errorOf (bs : List UInt8) :
    errorOf (Address.read bs) = firstViolated addressRules bs := by
  rcases bs with _ | ⟨t, bs⟩
  · rfl
  by_cases h0 : t = 0xff
  · subst h0
    rfl
  by_cases h1 : t = 0x00
  · subst h1
    rcases bs with _ | ⟨n, bs⟩
    · rfl
    refine (readDomain_errorOf n.toNat bs).trans ?_
    simp [firstViolated, addressRules, Rule.length, addressSize, domainBytes, Nat.add_comm 2 n.toNat]
  by_cases h2 : t = 0x01
  · subst h2
    refine (readIpv4_block.errorOf bs).trans ?_
    simp [firstViolated, addressRules, Rule.length, addressSize]
  by_cases h3 : t = 0x02
  · subst h3
    refine (readIpv6_block.errorOf bs).trans ?_
    simp [firstViolated, addressRules, Rule.length, addressSize]
  · have hread : Address.read (t :: bs) = .err (.invalidAddressType t) := by
      simp [Address.read, Address.typeCodeNone, Address.typeCodeDomain, Address.typeCodeIpv4,
        Address.typeCodeIpv6, h0, h1, h2, h3]
    simp [hread, errorOf, firstViolated, addressRules, Rule.length, h0, h1, h2, h3]

theorem packet_errorOf (bs : List UInt8) :
    errorOf (Packet.read bs) =
      firstViolated (Rule.length 8 :: addressRules.map (Rule.after 8)) bs := by
  rw [Packet.read, errorOf_read, firstViolated, firstViolated_after, ← address_errorOf]
  by_cases h : 8 ≤ bs.length
  · simp only [Rule.length, h, decide_true, if_true]
    have hlen : (bs.take 8).length = 8 := by simp [h]
    obtain ⟨a0, a1, p0, p1, total, id, s0, s1, heq⟩ := exists_eight hlen
    rw [heq]
    exact errorOf_map (Packet.mk (ofBeBytes a0 a1) (ofBeBytes p0 p1) total id (ofBeBytes s0 s1))
      Address.read (bs.drop 8)
  · simp [h, Rule.length]

/-- The decoder behind the two header bytes, by command byte. -/
def bodyRead (cmd : UInt8) : Reader UnmarshalError Header :=
  if cmd = Authenticate.typeCode then Header.authenticate <$> Authenticate.read
  else if cmd = Connect.typeCode then Header.connect <$> Connect.read
  else if cmd = Packet.typeCode then Header.packet <$> Packet.read
  else if cmd = Dissociate.typeCode then Header.dissociate <$> Dissociate.read
  else if cmd = Heartbeat.typeCode then Header.heartbeat <$> Heartbeat.read
  else fail (.invalidCommand cmd)

theorem bodyRead_errorOf {cmd : UInt8} (h : cmd ≤ 0x04) (bs : List UInt8) :
    errorOf (bodyRead cmd bs) = firstViolated (bodyRules cmd) bs := by
  obtain rfl | rfl | rfl | rfl | rfl : cmd = 0x00 ∨ cmd = 0x01 ∨ cmd = 0x02 ∨ cmd = 0x03 ∨ cmd = 0x04 := by
    have hle : cmd.toNat ≤ 4 := UInt8.le_iff_toNat_le.1 h
    simp only [← UInt8.toNat_inj]
    change cmd.toNat = 0 ∨ cmd.toNat = 1 ∨ cmd.toNat = 2 ∨ cmd.toNat = 3 ∨ cmd.toNat = 4
    omega
  · refine (errorOf_map _ _ bs).trans ((authenticate_block.errorOf bs).trans ?_)
    simp [firstViolated, bodyRules, Rule.length]
  · refine (errorOf_map _ _ bs).trans ((errorOf_map Connect.mk _ bs).trans ?_)
    exact address_errorOf bs
  · exact (errorOf_map _ _ bs).trans (packet_errorOf bs)
  · refine (errorOf_map _ _ bs).trans ((dissociate_block.errorOf bs).trans ?_)
    simp [firstViolated, bodyRules, Rule.length]
  · rfl

theorem unmarshal_errorOf (bs : List UInt8) :
    errorOf (Header.unmarshal bs) = firstViolated (rules bs) bs := by
  rcases bs with _ | ⟨ver, bs⟩
  · rfl
  by_cases hv : ver ≠ 0x05
  · have hread : Header.unmarshal (ver :: bs) = .err (.invalidVersion ver) := by
      simp [Header.unmarshal, version, hv]
    simp [hread, errorOf, rules, firstViolated, Rule.length, hv]
  obtain rfl : ver = 0x05 := by simpa using hv
  rcases bs with _ | ⟨cmd, bs⟩
  · rfl
  have hread : Header.unmarshal (0x05 :: cmd :: bs) = bodyRead cmd bs := rfl
  by_cases hc : cmd ≤ 0x04
  · rw [hread, bodyRead_errorOf hc]
    simp only [rules, List.cons_append, List.nil_append, firstViolated, firstViolated_after]
    simp [Rule.length, hc]
  · have hne : ∀ x : UInt8, x ≤ 0x04 → cmd ≠ x := fun x hx h => hc (h ▸ hx)
    have hfail : bodyRead cmd bs = .err (.invalidCommand cmd) := by
      simp [bodyRead, hne, Authenticate.typeCode, Connect.typeCode, Packet.typeCode,
        Dissociate.typeCode, Heartbeat.typeCode]
    simp [hread, hfail, errorOf, rules, firstViolated, Rule.length, hc]

/-! ### The accepted byte strings -/

theorem addressBytes_write {a : Address} (h : a.Encodable) : AddressBytes a.write := by
  rcases a with _ | ⟨d, p⟩ | ⟨⟨ip, p⟩ | ⟨ip, p, fl, sc⟩⟩
  · exact .none
  · simpa [Address.write, Address.typeCode, Address.typeCodeDomain] using .domain d (beBytes p) h rfl
  · exact .ipv4 ip.octets (beBytes p) rfl rfl
  · exact .ipv6 (ip.segments.flatMap beBytes) (beBytes p) rfl rfl

theorem addressBytes_iff (bs : List UInt8) :
    AddressBytes bs ↔ ∃ a : Address, a.Encodable ∧ a.write = bs := by
  refine ⟨fun h => ?_, fun ⟨a, ha, hw⟩ => hw ▸ addressBytes_write ha⟩
  cases h with
  | none => exact ⟨.none, trivial, rfl⟩
  | domain name port hn hp =>
    obtain ⟨p, rfl⟩ := exists_beBytes hp
    exact ⟨.domainAddress name p, hn, rfl⟩
  | ipv4 ip port hi hp =>
    obtain ⟨p, rfl⟩ := exists_beBytes hp
    match ip, hi with
    | [a, b, c, d], _ => exact ⟨.socketAddress (.v4 ⟨a, b, c, d⟩ p), trivial, rfl⟩
  | ipv6 ip port hi hp =>
    have hlen : (ip ++ port).length = 18 := by simp [hi, hp]
    obtain ⟨k, -, hk⟩ := readIpv6_block
    obtain ⟨a, -, hw, ha⟩ := hk (ip ++ port) hlen
    exact ⟨a, ha, hw.symm⟩

theorem commandBytes_write {h : Header} (he : h.Encodable) : CommandBytes h.write := by
  cases h with
  | authenticate auth => exact .authenticate auth.uuid.toList auth.token.toList (by simp) (by simp)
  | connect conn => exact .connect _ (addressBytes_write he)
  | packet pkt =>
    simpa [Header.write, Packet.write, Header.typeCode] using .packet (beBytes pkt.assocId)
      (beBytes pkt.pktId) pkt.fragTotal pkt.fragId (beBytes pkt.size) _ rfl rfl rfl
      (addressBytes_write he)
  | dissociate dissoc => exact .dissociate (beBytes dissoc.assocId) rfl
  | heartbeat hb => exact .heartbeat

theorem commandBytes_iff (bs : List UInt8) :
    CommandBytes bs ↔ ∃ h : Header, h.Encodable ∧ h.write = bs := by
  refine ⟨fun h => ?_, fun ⟨h, he, hw⟩ => hw ▸ commandBytes_write he⟩
  cases h with
  | authenticate uuid token hu ht =>
    obtain ⟨u, hu⟩ := exists_arrayFromSlice hu
    obtain ⟨t, ht⟩ := exists_arrayFromSlice ht
    refine ⟨.authenticate ⟨u, t⟩, trivial, ?_⟩
    simp only [Header.write, Authenticate.write, toList_of_arrayFromSlice hu,
      toList_of_arrayFromSlice ht]
    rfl
  | connect addr ha =>
    obtain ⟨a, he, rfl⟩ := (addressBytes_iff addr).1 ha
    exact ⟨.connect ⟨a⟩, he, rfl⟩
  | packet assocId pktId fragTotal fragId size addr h1 h2 h3 ha =>
    obtain ⟨x, rfl⟩ := exists_beBytes h1
    obtain ⟨y, rfl⟩ := exists_beBytes h2
    obtain ⟨z, rfl⟩ := exists_beBytes h3
    obtain ⟨a, he, rfl⟩ := (addressBytes_iff addr).1 ha
    refine ⟨.packet ⟨x, y, fragTotal, fragId, z, a⟩, he, ?_⟩
    simp [Header.write, Packet.write, Header.typeCode, Packet.typeCode, version]
  | dissociate assocId h =>
    obtain ⟨x, rfl⟩ := exists_beBytes h
    exact ⟨.dissociate ⟨x⟩, trivial, rfl⟩
  | heartbeat => exact ⟨.heartbeat ⟨⟩, trivial, rfl⟩

theorem unmarshal_ok_iff (bs : List UInt8) :
    (∃ h rest, Header.unmarshal bs = .ok (h, rest)) ↔
      ∃ cmd rest, CommandBytes cmd ∧ bs = cmd ++ rest := by
  constructor
  · rintro ⟨h, rest, hok⟩
    obtain ⟨used, rfl, rfl, he⟩ := header_consumes _ _ _ hok
    exact ⟨h.write, rest, commandBytes_write he, rfl⟩
  · rintro ⟨cmd, rest, hc, rfl⟩
    obtain ⟨h, he, rfl⟩ := (commandBytes_iff cmd).1 hc
    exact ⟨h, rest, header_accepts h he rest⟩

theorem unmarshalAt_append {bs : List UInt8} {h : Header} {n : ℕ}
    (hok : Header.unmarshalAt bs = .ok (h, n)) (ext : List UInt8) :
    Header.unmarshalAt (bs ++ ext) = .ok (h, n) := by
  obtain ⟨⟨h', rest⟩, h1, h2⟩ := Outcome.bind_eq_ok.1 hok
  have h3 := header_steady.ok _ _ _ ext h1
  rw [Header.unmarshalAt, h3, Outcome.ok_bind, ← h2]
  simp only [List.length_append, Nat.add_sub_add_right]

/-- The decoder never panics, accepts exactly the strings that begin with a
command of the grammar, and reports exactly the first violated rule of the
others. A header or an error other than the end of input stays the verdict
whatever follows, and the end of input is always decided by some extension. -/
theorem unmarshal_decides (bs : List UInt8) :
    (Header.unmarshal bs).Returns ∧
    ((∃ h rest, Header.unmarshal bs = .ok (h, rest)) ↔
      ∃ cmd rest, CommandBytes cmd ∧ bs = cmd ++ rest) ∧
    (∀ e, Header.unmarshal bs = .err e ↔ firstViolated (rules bs) bs = some e) ∧
    (∀ h n, Header.unmarshalAt bs = .ok (h, n) →
      ∀ ext, Header.unmarshalAt (bs ++ ext) = .ok (h, n)) ∧
    (∀ e, Header.unmarshal bs = .err e → e ≠ .io .unexpectedEof →
      ∀ ext, Header.unmarshal (bs ++ ext) = .err e) ∧
    (Header.unmarshal bs = .err (.io .unexpectedEof) →
      ∃ ext, Header.unmarshal (bs ++ ext) ≠ .err (.io .unexpectedEof)) := by
  refine ⟨header_steady.returns bs, unmarshal_ok_iff bs, fun e => ?_,
    fun h n hok ext => unmarshalAt_append hok ext,
    fun e he hne ext => header_steady.err bs e ext he hne, header_steady.more bs⟩
  rw [← unmarshal_errorOf, errorOf_eq_some]

end Tuic
