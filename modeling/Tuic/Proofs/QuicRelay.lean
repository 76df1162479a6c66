import Tuic.Proofs.Count
import Tuic.Proofs.Truncation
import Tuic.Sanity.Link

/-! UDP relay mode `quic` splits a packet at 65535 bytes, which no UDP datagram
needs more than two of. It carries every datagram but the empty one, where the
iterator takes the address of a first byte that is not there, and every address but
those of IPv6 sockets with a flow label or a scope, which are not written. -/

namespace Tuic.Model

open Lib Lib.Reader

/-- An address that the relay hands on: a socket address, or a domain whose length
fits the wire format. -/
def Relayed : Address → Prop
  | .none => False
  | .domainAddress domain _ => (asBytes domain).length ≤ 255
  | .socketAddress _ => True

/-- What a peer reads of a stream with a `Packet`: the header, then `size` bytes. -/
def readStream (bytes : List UInt8) : Option Fragment :=
  match Header.unmarshal bytes with
  | .ok (.packet pkt, rest) =>
    if pkt.size.toNat ≤ rest.length then some (pkt, rest.take pkt.size.toNat) else none
  | _ => none

/-- The calls of a peer that reads one stream after the other, each at its time. -/
def receiveStreams (order : List (Instant × List UInt8)) : List (Call (List UInt8)) :=
  receive (order.filterMap fun x => (readStream x.2).map (x.1, ·))

/-- The loop of `packet_quic` over the fragments of a packet carries the packet:
it ends, in one or two fragments, and a peer that holds nothing of the packet
makes exactly this packet of their streams, in whatever order these arrive. -/
structure RelaysQuic (b : Build) (tx : PacketTx) (payload : List UInt8) : Prop where
  ends : (tx.fragments b payload).2 = .ok ()
  one_le : 1 ≤ (tx.fragments b payload).1.length
  le_two : (tx.fragments b payload).1.length ≤ 2
  sizes : ∀ frag ∈ (tx.fragments b payload).1, frag.1.size.toNat = frag.2.length
  reassembles : ∀ (b' : Build) (peer : UdpSessions (List UInt8)), (connection b').Reachable peer →
    peer.buffers.get (tx.assocId, tx.pktId) = none →
    ∀ order : List (Instant × List UInt8),
      (order.map Prod.snd).Perm ((tx.fragments b payload).1.map Quinn.datagram) →
      ((connection b').outputs peer (receiveStreams order)).filterMap Answer.delivery =
        [(payload, tx.addr, tx.assocId)]

section

variable {b : Build} {tx : PacketTx} {payload : List UInt8}

theorem Relayed.ne_none {addr : Address} (h : Relayed addr) : addr ≠ .none := by
  rintro rfl
  exact h

theorem Relayed.onWire {addr : Address} (h : Relayed addr) : Relayed addr.onWire := by
  rcases addr with _ | ⟨d, p⟩ | ⟨⟨ip, p⟩ | ⟨ip, p, fl, sc⟩⟩ <;> exact h

theorem Relayed.headerLen_le {addr : Address} (h : Relayed addr) : headerLen addr ≤ 269 := by
  rw [PacketTx.headerLen_eq]
  rcases addr with _ | ⟨d, p⟩ | ⟨⟨ip, p⟩ | ⟨ip, p, fl, sc⟩⟩
  · exact absurd rfl h.ne_none
  · have hlen : (asBytes d).length ≤ 255 := h
    simp only [Address.len]
    omega
  · simp [Address.len]
  · simp [Address.len]

/-- Behind a header with an address there is room for all but a few bytes of a
datagram, and behind one without an address for all of it. -/
theorem relay_sizes (b : Build) (haddr : Relayed tx.addr) (hmax : tx.maxPktSize = 65535) :
    headerLen tx.addr < tx.maxPktSize ∧ 65266 ≤ tx.firstSize b ∧ tx.firstSize b < 2 ^ 16 ∧
      tx.restSize b = 65524 := by
  have hle := haddr.headerLen_le
  obtain ⟨hfirst, hrest, -⟩ := PacketTx.rooms (b := b) haddr.ne_none (by omega)
  rw [PacketTx.headerLen_none] at hrest
  omega

theorem relay_inMemory (b : Build) (hmax : tx.maxPktSize = 65535) (hlen : payload.length ≤ 65507) :
    PacketTx.InMemory b tx payload := by
  have hbits : (2 : ℕ) ^ 32 ≤ 2 ^ b.usizeBits := Nat.pow_le_pow_right (by decide) b.bits_ge
  have hsize := PacketTx.isizeMax_lt b
  exact ⟨by omega, by omega⟩

/-- One fragment or two, and the loop reaches the end of them. -/
theorem relay_fragments (haddr : Relayed tx.addr) (hmax : tx.maxPktSize = 65535)
    (hlen : payload.length ≤ 65507) (hpay : payload ≠ []) :
    (tx.fragments b payload).2 = .ok () ∧
      ∃ n, 1 ≤ n ∧ n ≤ 2 ∧ tx.fragCount b payload.length = .ok n := by
  obtain ⟨hhdr, hge, hlt16, hrest⟩ := relay_sizes b haddr hmax
  have hmem := relay_inMemory b hmax hlen
  by_cases hlt : tx.firstSize b < payload.length
  · have hbits : (2 : ℕ) ^ 32 ≤ 2 ^ b.usizeBits := Nat.pow_le_pow_right (by decide) b.bits_ge
    have hdiv : (payload.length - tx.firstSize b) / tx.restSize b = 0 := Nat.div_eq_of_lt (by omega)
    have hpart : ¬ tx.FillsExactly payload.length := by
      rw [fillsExactly_iff haddr.ne_none hhdr hlt]
      rintro ⟨hdvd, -⟩
      have := Nat.le_of_dvd (by omega) hdvd
      omega
    refine ⟨fragments_of_part haddr.ne_none hhdr hmem hlt (by omega) hpart, 2, by decide, by decide, ?_⟩
    rw [PacketTx.fragCount_of_fit (Nat.le_of_lt hhdr) hmem.payload fun _ => by omega, if_pos hlt, hdiv]
  · obtain ⟨hn, hend⟩ := fragments_of_le hpay (Nat.le_of_lt hhdr) hmem (Nat.not_lt.1 hlt)
    exact ⟨hend, 1, by decide, by decide, hn⟩

/-- One fragment or two of the packet, whose pieces are not longer than a size says. -/
theorem relay_frags (haddr : Relayed tx.addr) (hmax : tx.maxPktSize = 65535)
    (hlen : payload.length ≤ 65507) (hpay : payload ≠ []) :
    (∀ i, (tx.piece b payload i).length < 2 ^ 16) ∧ ∃ n, 1 ≤ n ∧ n ≤ 2 ∧
      (tx.fragments b payload).1 = (List.range n).map (tx.frag b payload (UInt8.ofNat n)) ∧
      tx.cut b payload.length n = payload.length := by
  have hmem := relay_inMemory b hmax hlen
  obtain ⟨hend, n, hpos, hle, hn⟩ := relay_fragments (b := b) haddr hmax hlen hpay
  obtain ⟨-, -, hlt16, hrest⟩ := relay_sizes b haddr hmax
  have hmod : n % 256 = n := Nat.mod_eq_of_lt (by omega)
  obtain ⟨n', hn', hfrags⟩ := PacketTx.fragments_done hmem
    (show tx.fragments b payload = ((tx.fragments b payload).1, .ok ()) from Prod.ext rfl hend)
  obtain rfl := Outcome.ok.inj (hn.symm.trans hn')
  rw [hmod] at hfrags
  exact ⟨PacketTx.piece_length_lt (by omega) (by omega), n, hpos, hle, hfrags,
    (PacketTx.cut_fragCount hmem.payload hn).2⟩

/-- The fragments make the packet again, in whatever order. -/
theorem relay_reassembles (haddr : Relayed tx.addr) (hmax : tx.maxPktSize = 65535)
    (hlen : payload.length ≤ 65507) (hpay : payload ≠ []) (b' : Build) {peer : UdpSessions (List UInt8)}
    (hpeer : (connection b').Reachable peer) (hfree : peer.buffers.get (tx.assocId, tx.pktId) = none)
    {order : List (Instant × Fragment)} (hperm : (order.map Prod.snd).Perm (tx.fragments b payload).1) :
    ((connection b').outputs peer (receive order)).filterMap Answer.delivery =
      [(payload, tx.addr, tx.assocId)] := by
  obtain ⟨hsmall, n, hpos, hle, hfrags, hcut⟩ := relay_frags (b := b) haddr hmax hlen hpay
  have hmod : n % 256 = n := Nat.mod_eq_of_lt (by omega)
  rw [hfrags] at hperm
  rw [filterMap_fragments (n := n) haddr.ne_none hsmall (by omega) b' (reachable_wf hpeer) hfree
    (by rw [hmod]; exact hperm), hmod, hcut, List.take_length]

/-- The peer reads back what the wire carries of a fragment. -/
theorem readStream_frag (haddr : Relayed tx.addr) {i : ℕ} (hsmall : (tx.piece b payload i).length < 2 ^ 16)
    (total : UInt8) :
    readStream (Quinn.datagram (tx.frag b payload total i)) = some (Fragment.onWire (tx.frag b payload total i)) := by
  have henc : (Header.packet (tx.frag b payload total i).1).onWire.Encodable := by
    apply Address.onWire_encodable
    intro domain port h
    simp only [PacketTx.frag] at h
    split_ifs at h
    have hrelayed := haddr
    rw [h] at hrelayed
    exact hrelayed
  have hread := header_accepts _ henc (tx.frag b payload total i).2
  rw [Header.onWire_write] at hread
  have hsize : (tx.frag b payload total i).1.size.toNat = (tx.frag b payload total i).2.length :=
    UInt16.toNat_ofNat'.trans (Nat.mod_eq_of_lt hsmall)
  unfold readStream Quinn.datagram
  rw [hread]
  simp [Header.onWire, Fragment.onWire, hsize]

/-- What is read of the streams of a packet are fragments of the packet as it is written. -/
theorem perm_readStream {frags : List Fragment}
    (hread : ∀ frag ∈ frags, readStream (Quinn.datagram frag) = some (Fragment.onWire frag))
    {order : List (Instant × List UInt8)} (hperm : (order.map Prod.snd).Perm (frags.map Quinn.datagram)) :
    ((order.filterMap fun x => (readStream x.2).map (x.1, ·)).map Prod.snd).Perm (frags.map Fragment.onWire) := by
  have hall := hperm.filterMap readStream
  rw [List.filterMap_map, List.filterMap_map] at hall
  have hfrags : frags.filterMap (readStream ∘ Quinn.datagram) = frags.map Fragment.onWire := by
    rw [← List.filterMap_eq_map]
    exact List.filterMap_congr hread
  rw [hfrags] at hall
  refine List.Perm.trans (List.Perm.of_eq ?_) hall
  rw [List.map_filterMap]
  refine List.filterMap_congr fun x _ => ?_
  rw [Option.map_map]
  exact Option.map_id'

/-- The relay carries every packet that is not empty, but for what is not written of
its address. -/
theorem relay_receiveStreams (haddr : Relayed tx.addr) (hmax : tx.maxPktSize = 65535)
    (hlen : payload.length ≤ 65507) (hpay : payload ≠ []) (b' : Build) {peer : UdpSessions (List UInt8)}
    (hpeer : (connection b').Reachable peer) (hfree : peer.buffers.get (tx.assocId, tx.pktId) = none)
    {order : List (Instant × List UInt8)}
    (hperm : (order.map Prod.snd).Perm ((tx.fragments b payload).1.map Quinn.datagram)) :
    ((connection b').outputs peer (receiveStreams order)).filterMap Answer.delivery =
      [(payload, tx.addr.onWire, tx.assocId)] := by
  obtain ⟨hsmall, n, -, -, hfrags, -⟩ := relay_frags (b := b) haddr hmax hlen hpay
  have hread : ∀ frag ∈ (tx.fragments b payload).1,
      readStream (Quinn.datagram frag) = some (Fragment.onWire frag) := by
    intro frag hfrag
    rw [hfrags] at hfrag
    obtain ⟨i, -, rfl⟩ := List.mem_map.1 hfrag
    exact readStream_frag haddr (hsmall i) _
  have hwire := perm_readStream hread hperm
  rw [← PacketTx.fragments_onWire] at hwire
  have hmaxWire : tx.onWire.maxPktSize = 65535 := hmax
  exact relay_reassembles haddr.onWire hmaxWire hlen hpay b' hpeer hfree hwire

theorem relaysQuic_of_ne_nil (haddr : Relayed tx.addr) (hmax : tx.maxPktSize = 65535)
    (hlen : payload.length ≤ 65507) (hpay : payload ≠ []) (hwire : tx.addr.onWire = tx.addr) :
    RelaysQuic b tx payload := by
  obtain ⟨hsmall, n, hpos, hle, hfrags, -⟩ := relay_frags (b := b) haddr hmax hlen hpay
  have hcount : (tx.fragments b payload).1.length = n := by simp [hfrags]
  refine ⟨(relay_fragments haddr hmax hlen hpay).1, by omega, by omega, ?_, ?_⟩
  · intro frag hfrag
    rw [hfrags] at hfrag
    obtain ⟨i, -, rfl⟩ := List.mem_map.1 hfrag
    simp only [PacketTx.frag, UInt16.toNat_ofNat']
    exact Nat.mod_eq_of_lt (hsmall i)
  · intro b' peer hpeer hfree order hperm
    rw [relay_receiveStreams haddr hmax hlen hpay b' hpeer hfree hperm, hwire]

/-- A new peer that reads the streams in the order of their fragments has the address as
it is written. -/
theorem RelaysQuic.onWire_eq (h : RelaysQuic b tx payload) (haddr : Relayed tx.addr)
    (hmax : tx.maxPktSize = 65535) (hlen : payload.length ≤ 65507) (hpay : payload ≠ []) :
    tx.addr.onWire = tx.addr := by
  have hperm : ((((tx.fragments b payload).1.map Quinn.datagram).map ((0 : Instant), ·)).map Prod.snd).Perm
      ((tx.fragments b payload).1.map Quinn.datagram) := by
    rw [List.map_map]
    exact List.Perm.of_eq (List.map_id' _)
  have hread := relay_receiveStreams haddr hmax hlen hpay b (Machine.reachable_init _) rfl hperm
  have hgot := hread.symm.trans (h.reassembles b .new (Machine.reachable_init _) rfl _ hperm)
  exact congrArg (fun x => x.2.1) (List.cons.inj hgot).1

/-- The count of an empty packet is one, and its only fragment has no first byte. -/
theorem fragments_nil (hfit : headerLen tx.addr ≤ tx.maxPktSize)
    (hmem : PacketTx.InMemory b tx []) : (tx.fragments b []).2 = .panic .outOfBounds := by
  have hno : ¬ tx.firstSize b < ([] : List UInt8).length := Nat.not_lt_zero _
  have hn := PacketTx.fragCount_of_fit (b := b) hfit hmem.payload fun h => absurd h hno
  rw [if_neg hno] at hn
  rw [PacketTx.fragments_eq_take hn]
  apply PacketTx.take_outOfBounds hfit _ 0 (Nat.zero_add _)
  · intro j _ hj
    exact PacketTx.endFits hmem.payload hmem.maxPktSize (fun h => absurd h hno) hn hj
  · exact ⟨0, Nat.le_refl 0, by decide, rfl⟩

end

/-- For every payload that UDP can carry and every address that the relay hands
on, mode `quic` carries the packet if and only if it is not empty and its address is
written whole. -/
theorem relaysQuic_iff (b : Build) (s : UdpSessions (List UInt8)) (assocId : UInt16) (addr : Address)
    (payload : List UInt8) (haddr : Relayed addr) (hlen : payload.length ≤ 65507) :
    RelaysQuic b (s.sendPacket assocId addr 65535).2 payload ↔ payload ≠ [] ∧ addr.onWire = addr := by
  generalize htx : (s.sendPacket assocId addr 65535).2 = tx
  have hrelayed : Relayed tx.addr := by subst htx; exact haddr
  have hmax : tx.maxPktSize = 65535 := by subst htx; rfl
  obtain rfl : tx.addr = addr := by subst htx; rfl
  constructor
  · intro h
    have hpay : payload ≠ [] := by
      rintro rfl
      obtain ⟨hhdr, -⟩ := relay_sizes b hrelayed hmax
      have hend := h.ends
      rw [fragments_nil (Nat.le_of_lt hhdr) (relay_inMemory b hmax hlen)] at hend
      cases hend
    exact ⟨hpay, h.onWire_eq hrelayed hmax hlen hpay⟩
  · rintro ⟨hpay, hwire⟩
    exact relaysQuic_of_ne_nil hrelayed hmax hlen hpay hwire

theorem relaysQuic_two_bytes :
    RelaysQuic .release64
      ((UdpSessions.new : UdpSessions (List UInt8)).sendPacket 1
        (.socketAddress (.v6 ⟨0xfe80, 0, 0, 0, 0, 0, 0, 1⟩ 53 0 0)) 65535).2 [1, 2] :=
  (relaysQuic_iff .release64 .new 1 (.socketAddress (.v6 ⟨0xfe80, 0, 0, 0, 0, 0, 0, 1⟩ 53 0 0)) [1, 2] trivial
    (by decide)).2 ⟨by decide, rfl⟩

/-- The zero-length datagram panics. -/
theorem relaysQuic_not :
    let tx := ((UdpSessions.new : UdpSessions (List UInt8)).sendPacket 1 (.socketAddress (.v4 ⟨127, 0, 0, 1⟩ 53)) 65535).2
    tx.fragments .release64 [] = ([], .panic .outOfBounds) ∧ ¬ RelaysQuic .release64 tx [] :=
  ⟨by decide +kernel, fun h => absurd h.ends (by decide +kernel)⟩

/-- The peer has the address of a neighbour on some link without the link. -/
theorem relaysQuic_not_scoped :
    ¬ RelaysQuic .release64
      ((UdpSessions.new : UdpSessions (List UInt8)).sendPacket 1
        (.socketAddress (.v6 ⟨0xfe80, 0, 0, 0, 0, 0, 0, 1⟩ 53 0 3)) 65535).2 [1, 2] :=
  fun h => absurd (h.onWire_eq trivial rfl (by decide) (by decide)) (by decide)

end Tuic.Model
