import Tuic.Sanity.Iteration
import Tuic.Spec.Native

/-! For which datagram sizes `packet_native` computes without wrapping around: the
size that quinn returns is used without a look at what the header takes. -/

namespace Tuic.Quinn

open Lib Model

variable {b : Build} {σ : Type}

/-- The call computes the sizes of its fragments without a subtraction below zero
and without a division by zero, and fails or sends datagrams of `n` bytes at most. -/
structure ArithmeticSafe (q : Datagrams b σ) (conn : σ) (model : UdpSessions (List UInt8))
    (pkt : List UInt8) (addr : Address) (assocId : UInt16) (n : b.Usize) : Prop where
  builds : ∃ frags, (model.sendPacket assocId addr n).2.intoFragments b.checked pkt = .ok frags
  iterates : ∀ frags frags', (model.sendPacket assocId addr n).2.intoFragments b pkt = .ok frags →
    Reaches b frags frags' → headerLen frags'.addr ≤ frags'.maxPktSize
  sends : (∃ e, (packetNative q conn model pkt addr assocId).2.res = .err e) ∨
    ∀ dg ∈ (packetNative q conn model pkt addr assocId).2.sent, dg.length ≤ n

theorem datagram_length (frag : Fragment) :
    (datagram frag).length = headerLen frag.1.addr + frag.2.length := by
  rw [datagram, List.length_append, Header.write_length, PacketTx.headerLen_eq]
  simp only [Header.len, Packet.len]
  omega

/-- The loop sends fragments of the iterator, in the worst case all of them. -/
theorem mem_sendAll (q : Datagrams b σ) {dg : List UInt8} :
    ∀ (fuel : ℕ) (conn : σ) (frags : Fragments), dg ∈ (sendAll q fuel conn frags).sent →
      ∃ frag ∈ (frags.take b fuel).1, dg = datagram frag := by
  intro fuel
  induction fuel with
  | zero =>
    intro conn frags h
    cases h
  | succ fuel ih =>
    intro conn frags h
    simp only [sendAll] at h
    simp only [Fragments.take]
    cases hn : frags.next b with
    | err e => cases e
    | panic p =>
      rw [hn] at h
      cases h
    | ok o =>
      rw [hn] at h
      cases o with
      | none => cases h
      | some y =>
        obtain ⟨frag, frags'⟩ := y
        cases hsend : q.sendDatagram conn (datagram frag) with
        | mk conn' res =>
          simp only [hsend] at h
          cases res with
          | error e => cases h
          | ok u =>
            rcases List.mem_cons.1 h with rfl | h
            · exact ⟨frag, List.mem_cons_self, rfl⟩
            · obtain ⟨x, hx, hdg⟩ := ih conn' frags' h
              exact ⟨x, List.mem_cons_of_mem _ hx, hdg⟩

section

variable {tx : PacketTx} {payload : List UInt8}

/-- With overflow checks the iterator is built if and only if the header with the
address fits, and one without it leaves room. -/
theorem builds_iff (hpay : payload ≠ []) (hlen : payload.length ≤ b.isizeMax) :
    (∃ frags, tx.intoFragments b.checked payload = .ok frags) ↔
      headerLen tx.addr ≤ tx.maxPktSize ∧ headerLen .none < tx.maxPktSize := by
  constructor
  · rintro ⟨frags, h⟩
    obtain ⟨n, hn, -⟩ := PacketTx.intoFragments_eq_ok h
    have hcount := PacketTx.fragCount_eq (b := b.checked) hlen hn
    obtain ⟨first, hfirst, -⟩ := Outcome.bind_eq_ok.1 hn
    have hfit : headerLen tx.addr ≤ tx.maxPktSize := by
      by_contra hlt
      rw [Build.subUsize, if_neg hlt] at hfirst
      cases hfirst
    refine ⟨hfit, ?_⟩
    by_cases haddr : tx.addr = .none
    · -- a first fragment without room makes the later ones count
      rw [PacketTx.firstSize_of_fit hfit, PacketTx.restSize_of_fit hfit] at hcount
      rw [haddr] at hfit hcount
      have hpos := List.length_pos_iff.2 hpay
      split_ifs at hcount
      · omega
      · omega
    · exact Nat.lt_of_lt_of_le (PacketTx.headerLen_none_lt haddr) hfit
  · rintro ⟨hfit, hrest⟩
    have hn : tx.fragCount b.checked payload.length = _ := PacketTx.fragCount_of_fit hfit hlen
      (fun _ => by
        rw [PacketTx.restSize_of_fit hfit]
        omega)
    rw [PacketTx.intoFragments, Fragments.new, hn]
    exact ⟨_, rfl⟩

/-- Later fragments need no more room for their header. -/
theorem headerLen_le_of_reaches (hfit : headerLen tx.addr ≤ tx.maxPktSize)
    (hmem : PacketTx.InMemory b tx payload) {frags frags' : Fragments}
    (h : tx.intoFragments b payload = .ok frags) (hreach : Reaches b frags frags') :
    headerLen frags'.addr ≤ frags'.maxPktSize := by
  obtain ⟨n, -, rfl⟩ := PacketTx.intoFragments_eq_ok h
  have hat : ∃ i ≤ (UInt8.ofNat n).toNat, frags' = tx.fragmentsAt b payload (UInt8.ofNat n) i := by
    induction hreach with
    | refl => exact ⟨0, Nat.zero_le _, rfl⟩
    | tail _ hstep ih =>
      obtain ⟨i, hi, rfl⟩ := ih
      obtain ⟨frag, hnext⟩ := hstep
      obtain ⟨hlt, -, -, rfl⟩ := PacketTx.next_eq_some hmem hi hnext
      exact ⟨i + 1, hlt, rfl⟩
  obtain ⟨i, -, rfl⟩ := hat
  simp only [PacketTx.fragmentsAt]
  split_ifs
  · exact hfit
  · exact Nat.le_trans (headerLen_none_le tx.addr) hfit

theorem datagram_length_le (hfit : headerLen tx.addr ≤ tx.maxPktSize) (total : UInt8) (i : ℕ) :
    (datagram (tx.frag b payload total i)).length ≤ tx.maxPktSize := by
  have hpiece := (PacketTx.piece_length_le b tx payload i).2
  have hnone := Nat.le_trans (headerLen_none_le tx.addr) hfit
  rw [PacketTx.firstSize_of_fit hfit, PacketTx.restSize_of_fit hfit] at hpiece
  rw [datagram_length]
  simp only [PacketTx.frag]
  split_ifs at hpiece ⊢ <;> omega

theorem sent_length_le (q : Datagrams b σ) (conn : σ) (hfit : headerLen tx.addr ≤ tx.maxPktSize)
    (hmem : PacketTx.InMemory b tx payload) {frags : Fragments}
    (h : tx.intoFragments b payload = .ok frags) {dg : List UInt8}
    (hdg : dg ∈ (sendAll q (frags.fragTotal.toNat - frags.nextFragId.toNat) conn frags).sent) :
    dg.length ≤ tx.maxPktSize := by
  obtain ⟨m, -, rfl⟩ := PacketTx.intoFragments_eq_ok h
  obtain ⟨frag, hfrag, rfl⟩ := mem_sendAll q _ _ _ hdg
  obtain ⟨k, -, hfrags, -⟩ := PacketTx.take_fragments hmem (UInt8.ofNat m).toNat 0 (Nat.zero_add _)
  replace hfrag : frag ∈ ((tx.fragmentsAt b payload (UInt8.ofNat m) 0).take b (UInt8.ofNat m).toNat).1 :=
    hfrag
  rw [hfrags] at hfrag
  obtain ⟨i, -, rfl⟩ := List.mem_map.1 hfrag
  exact datagram_length_le hfit _ i

end

/-- For every size that quinn returns, every address and every non-empty payload:
the call is safe if and only if the header with the address fits into that size,
and the header without an address leaves room in it. -/
theorem arithmeticSafe_iff (q : Datagrams b σ) (conn : σ) (model : UdpSessions (List UInt8))
    (payload : b.Slice) (addr : Address) (assocId : UInt16) (n : b.Usize)
    (hn : q.maxDatagramSize conn = some n) (hpay : payload.1 ≠ []) :
    ArithmeticSafe q conn model payload.1 addr assocId n ↔
      headerLen addr ≤ n ∧ headerLen .none < n := by
  have hbuilds : (∃ frags, (model.sendPacket assocId addr n).2.intoFragments b.checked payload.1 =
      .ok frags) ↔ headerLen addr ≤ n ∧ headerLen .none < n := builds_iff hpay payload.2
  refine ⟨fun h => hbuilds.1 h.builds, fun hcond => ⟨hbuilds.2 hcond, ?_, ?_⟩⟩
  · exact fun frags frags' => headerLen_le_of_reaches hcond.1 ⟨payload.2, n.2⟩
  · refine .inr fun dg hdg => ?_
    simp only [packetNative, hn] at hdg
    cases hf : (model.sendPacket assocId addr n).2.intoFragments b payload.1 with
    | err e => cases e
    | panic p =>
      rw [hf] at hdg
      cases hdg
    | ok frags =>
      rw [hf] at hdg
      exact sent_length_le q conn hcond.1 ⟨payload.2, n.2⟩ hf hdg

/-- A connection that takes every datagram within the limit of its peer. -/
def limited (b : Build) : Datagrams b b.Usize where
  maxDatagramSize := some
  sendDatagram n dg := (n, if dg.length ≤ n then .ok () else .error .tooLarge)

theorem arithmeticSafe_four_bytes :
    ArithmeticSafe (limited .release64) ⟨20, by decide⟩ .new [1, 2, 3, 4]
      (.socketAddress (.v4 ⟨127, 0, 0, 1⟩ 53)) 1 ⟨20, by decide⟩ :=
  (arithmeticSafe_iff (limited .release64) ⟨20, by decide⟩ .new ⟨[1, 2, 3, 4], by decide⟩
    (.socketAddress (.v4 ⟨127, 0, 0, 1⟩ 53)) 1 ⟨20, by decide⟩ rfl (by decide)).2 (by decide)

/-- At a limit of 5 bytes the call panics where overflow is checked, and elsewhere
takes the limit for a huge one. At a limit of 11 bytes, a packet without an
address divides by zero in every build. -/
theorem arithmeticSafe_not :
    let addr : Address := .socketAddress (.v4 ⟨127, 0, 0, 1⟩ 53)
    (packetNative (limited .debug64) ⟨5, by decide⟩ .new [1] addr 1).2.res = .panic .overflow ∧
    ¬ ArithmeticSafe (limited .debug64) ⟨5, by decide⟩ .new [1] addr 1 ⟨5, by decide⟩ ∧
    PacketTx.firstSize .release64 ⟨1, 0, addr, 5⟩ = 2 ^ 64 - 12 ∧
    ¬ ArithmeticSafe (limited .release64) ⟨5, by decide⟩ .new [1] addr 1 ⟨5, by decide⟩ ∧
    (packetNative (limited .release64) ⟨11, by decide⟩ .new [1] .none 1).2.res = .panic .divideByZero := by
  refine ⟨rfl, fun h => ?_, rfl, fun h => ?_, rfl⟩
  · obtain ⟨frags, hf⟩ := h.builds
    cases hf
  · obtain ⟨frags, hf⟩ := h.builds
    cases hf

end Tuic.Quinn
