import Tuic.Sanity.Iteration

/-! When delivering all the fragments of a packet delivers the packet: the number
of fragments is cast to one byte, so that above 255 fragments the receiver sees
the whole of a shorter packet, or nothing. -/

namespace Tuic.Model

open Lib

/-- The ids of fragments, in their order of arrival. -/
def ids (order : List (Instant × Fragment)) : List ℕ := order.map fun x => x.2.1.fragId.toNat

/-- One fragment of a message arrives at a connection. -/
theorem filterMap_receive_cons (b : Build) (s : UdpSessions (List UInt8)) (now : Instant)
    (frag : Fragment) (order : List (Instant × Fragment)) :
    ((connection b).outputs s (receive ((now, frag) :: order))).filterMap Answer.delivery =
      ((Answer.assembled ((s.recvPacketUnrestricted frag.1).1.assemble b now frag.1 frag.2).2).delivery).toList ++
        ((connection b).outputs ((s.recvPacketUnrestricted frag.1).1.assemble b now frag.1 frag.2).1
          (receive order)).filterMap Answer.delivery := by
  have hout : (connection b).outputs s (receive ((now, frag) :: order)) =
      Answer.received (some frag.1) ::
        Answer.assembled ((s.recvPacketUnrestricted frag.1).1.assemble b now frag.1 frag.2).2 ::
        (connection b).outputs ((s.recvPacketUnrestricted frag.1).1.assemble b now frag.1 frag.2).1
          (receive order) := rfl
  rw [hout, List.filterMap_cons_none rfl, List.filterMap_cons]
  generalize Answer.delivery (Answer.assembled _) = res
  cases res <;> rfl

/-- The missing fragments of a message, in any order: the last one delivers it. -/
theorem filterMap_receive (b : Build) (m : Message) :
    ∀ (order : List (Instant × Fragment)) (s : UdpSessions (List UInt8)) (arrived : Unit → ℕ → Prop),
      Represents (fun _ : Unit => m) arrived s.buffers →
      (∀ x ∈ order, ∃ i, m.IsFrag i x.2) → (ids order).Nodup →
      (∀ i < m.pieces.length, arrived () i ↔ i ∉ ids order) →
      ((connection b).outputs s (receive order)).filterMap Answer.delivery =
        if order = [] then [] else [(m.pieces.flatten, m.addr, m.assocId)] := by
  intro order
  induction order with
  | nil => exact fun s arrived _ _ _ _ => rfl
  | cons x order ih =>
    intro s arrived hrep hfrags hnodup harr
    obtain ⟨now, header, data⟩ := x
    obtain ⟨i, hfrag⟩ := hfrags (now, header, data) List.mem_cons_self
    have hid : header.fragId.toNat = i := Message.IsFrag.fragId hfrag
    obtain ⟨hx, hh⟩ : m.pieces[i]? = some data ∧ header = m.header i data := hfrag
    subst hh
    have hlt := (List.getElem?_eq_some_iff.1 hx).1
    simp only [ids, List.map_cons, List.nodup_cons] at hnodup
    rw [hid] at hnodup
    have hmem : ∀ j, j ∈ ids ((now, m.header i data, data) :: order) ↔ j = i ∨ j ∈ ids order := by
      intro j
      simp only [ids, List.map_cons, List.mem_cons]
      rw [hid]
    have hi : ¬ arrived () i := fun h => (harr i hlt).1 h ((hmem i).2 (.inl rfl))
    rw [filterMap_receive_cons]
    have hbuf : (s.recvPacketUnrestricted (m.header i data)).1.buffers = s.buffers :=
      entry_buffers s _
    obtain ⟨hstep, hres⟩ := assemble_buffers b now (s.recvPacketUnrestricted (m.header i data)).1
      (m.header i data) data
    rw [hbuf] at hstep hres
    obtain ⟨hrep', hlast, hmore⟩ := hrep.assemble (p := ()) (fun _ _ _ => rfl) b now hx hi
    have harr' : ∀ j < m.pieces.length, arrive arrived () i () j ↔ j ∉ ids order := by
      intro j hj
      simp only [arrive_self, harr j hj, hmem]
      by_cases hji : j = i
      · subst hji
        have hno : j ∉ ids order := hnodup.1
        simp [hno]
      · simp [hji]
    have hrest := ih _ _ (hstep ▸ hrep') (fun x hx => hfrags x (List.mem_cons_of_mem _ hx)) hnodup.2 harr'
    rw [hrest, hres]
    by_cases hnil : order = []
    · subst hnil
      obtain ⟨asm, hasm, hok⟩ := hlast fun j hj => (harr' j hj).2 (by simp [ids])
      rw [hasm]
      simp [Answer.delivery, hok]
    · obtain ⟨y, hy⟩ := List.exists_mem_of_ne_nil order hnil
      obtain ⟨j, hyj⟩ := hfrags y (List.mem_cons_of_mem _ hy)
      have hj : j ∈ ids order := List.mem_map.2 ⟨y, hy, Message.IsFrag.fragId hyj⟩
      rw [hmore fun hall => (harr' j (List.getElem?_eq_some_iff.1 hyj.1).1).1
        (hall j (List.getElem?_eq_some_iff.1 hyj.1).1) hj]
      simp [Answer.delivery, hnil]

/-- All the fragments of a message, in any order, deliver it once to a receiver
that holds nothing of it. -/
theorem filterMap_message (b : Build) (m : Message) {s : UdpSessions (List UInt8)}
    (hwf : s.buffers.WF) (hfree : s.buffers.get m.key = none) {frags : List Fragment}
    (hfrags : ∀ i < m.pieces.length, ∃ frag, frags[i]? = some frag ∧ m.IsFrag i frag)
    (hlen : frags.length = m.pieces.length) {order : List (Instant × Fragment)}
    (hperm : (order.map Prod.snd).Perm frags) :
    ((connection b).outputs s (receive order)).filterMap Answer.delivery =
      [(m.pieces.flatten, m.addr, m.assocId)] := by
  have hids : frags.map (fun frag => frag.1.fragId.toNat) = List.range m.pieces.length := by
    apply List.ext_getElem?
    intro i
    rw [List.getElem?_map]
    by_cases hi : i < m.pieces.length
    · obtain ⟨frag, hget, hfrag⟩ := hfrags i hi
      simp [hget, hi, Message.IsFrag.fragId hfrag]
    · have hge := Nat.not_lt.1 hi
      rw [List.getElem?_eq_none (hlen.symm ▸ hge), List.getElem?_eq_none (by simpa using hge)]
      rfl
  have hids' : (ids order).Perm (List.range m.pieces.length) := by
    have := hperm.map fun frag => frag.1.fragId.toNat
    rwa [hids, List.map_map] at this
  have hrep : Represents (fun _ : Unit => m) (fun _ _ => False) s.buffers := by
    refine ⟨hwf, fun _ buf h => ?_, fun _ _ => .inl fun _ _ => id⟩
    rw [hfree] at h
    cases h
  have hrun := filterMap_receive b m order s (fun _ _ => False) hrep
    (fun x hx => by
      obtain ⟨i, hi⟩ := List.mem_iff_getElem?.1 (hperm.mem_iff.1 (List.mem_map_of_mem hx))
      have hlt : i < m.pieces.length := hlen ▸ (List.getElem?_eq_some_iff.1 hi).1
      obtain ⟨frag, hget, hfrag⟩ := hfrags i hlt
      rw [hi] at hget
      cases hget
      exact ⟨i, hfrag⟩)
    (hids'.nodup_iff.2 List.nodup_range)
    (fun i hi => by simp [hids'.mem_iff, hi])
  rw [hrun, if_neg]
  intro hnil
  have := hids'.length_eq
  have hpos := m.pieces_pos
  simp only [hnil, ids, List.map_nil, List.length_nil, List.length_range] at this
  omega

/-! ### The fragments of one packet -/

section

variable {b : Build} {tx : PacketTx} {payload : List UInt8}

/-- The fragments of a packet deliver the part of the payload that the announced
total covers. -/
theorem filterMap_fragments {n : ℕ} (haddr : tx.addr ≠ .none)
    (hsmall : ∀ i, (tx.piece b payload i).length < 2 ^ 16) (hpos : 0 < n % 256) (b' : Build)
    {s : UdpSessions (List UInt8)} (hwf : s.buffers.WF)
    (hfree : s.buffers.get (tx.assocId, tx.pktId) = none)
    {order : List (Instant × Fragment)}
    (hperm : (order.map Prod.snd).Perm
      ((List.range (n % 256)).map (tx.frag b payload (UInt8.ofNat n)))) :
    ((connection b').outputs s (receive order)).filterMap Answer.delivery =
      [(payload.take (tx.cut b payload.length (n % 256)), tx.addr, tx.assocId)] := by
  have hle : n % 256 ≤ 255 := by omega
  have h := filterMap_message b' (tx.message b payload (n % 256) haddr hpos hle hsmall) hwf hfree
    (fun i hi => by
      rw [PacketTx.message_length] at hi
      refine ⟨tx.frag b payload (UInt8.ofNat n) i, by simp [hi], ?_⟩
      rw [PacketTx.frag_eq haddr hpos hle hsmall rfl i]
      exact ⟨PacketTx.message_piece haddr hpos hle hsmall hi, rfl⟩)
    (by simp) hperm
  rw [PacketTx.message_flatten] at h
  exact h

theorem take_eq_self_iff {k : ℕ} (hk : k ≤ payload.length) :
    payload.take k = payload ↔ k = payload.length := by
  constructor
  · intro h
    have := congrArg List.length h
    simp only [List.length_take] at this
    omega
  · rintro rfl
    exact List.take_length

theorem fragCount_le_iff {len n : ℕ} (hlen : len ≤ b.isizeMax) (hrest : 0 < tx.restSize b)
    (h : tx.fragCount b len = .ok n) :
    n ≤ 255 ↔ len < tx.firstSize b + 254 * tx.restSize b := by
  have hn := PacketTx.fragCount_eq hlen h
  split_ifs at hn with hlt
  · have hdiv := Nat.div_lt_iff_lt_mul (x := len - tx.firstSize b) (y := 254) hrest
    omega
  · have := Nat.mul_pos (by decide : 0 < 254) hrest
    omega

end

/-- For a packet whose iteration runs to its end, delivering its fragments in any
order to a new connection yields exactly the payload if and only if the payload
is shorter than what 255 fragments carry. -/
theorem delivers_iff (b : Build) (tx : PacketTx) (payload : List UInt8) (frags : List Fragment)
    (hlen : payload.length ≤ b.isizeMax) (haddr : tx.addr ≠ .none) (hmax : tx.maxPktSize ≤ 65535)
    (hhdr : headerLen tx.addr < tx.maxPktSize) (hdone : tx.fragments b payload = (frags, .ok ())) :
    (∀ order : List (Instant × Fragment), (order.map Prod.snd).Perm frags →
      deliveries b (receive order) = [(payload, tx.addr, tx.assocId)]) ↔
    payload.length < tx.maxPktSize - headerLen tx.addr + 254 * (tx.maxPktSize - headerLen .none) := by
  obtain ⟨hfirst, hrest, hpos⟩ := PacketTx.rooms (b := b) haddr hhdr
  have hbits : (2 : ℕ) ^ 32 ≤ 2 ^ b.usizeBits := Nat.pow_le_pow_right (by decide) b.bits_ge
  have hmem : PacketTx.InMemory b tx payload := ⟨hlen, by omega⟩
  obtain ⟨n, hn, hfrags⟩ := PacketTx.fragments_done hmem hdone
  obtain ⟨hnpos, hcut⟩ := PacketTx.cut_fragCount hlen hn
  have hsmall : ∀ i, (tx.piece b payload i).length < 2 ^ 16 :=
    PacketTx.piece_length_lt (by omega) (by omega)
  rw [← hfirst, ← hrest, ← fragCount_le_iff hlen hpos hn]
  constructor
  · intro hall
    by_contra hgt
    have hperm : ((frags.map fun frag => ((0 : Instant), frag)).map Prod.snd).Perm frags := by
      simp [Function.comp_def]
    have hdel := hall _ hperm
    rcases Nat.eq_zero_or_pos (n % 256) with hz | hpos'
    · -- nothing is sent
      rw [hz] at hfrags
      subst hfrags
      cases hdel
    · rw [hfrags] at hperm hdel
      rw [deliveries, filterMap_fragments haddr hsmall hpos' b (s := .new) empty_wf rfl hperm] at hdel
      have htake := congrArg (fun l => l.map Prod.fst) hdel
      simp only [List.map_cons, List.map_nil, List.cons.injEq, and_true] at htake
      have hlt := PacketTx.cut_lt_of_lt_fragCount hlen hn (k := n % 256) (by omega)
      have := (take_eq_self_iff (Nat.le_of_lt hlt)).1 htake
      omega
  · intro hle order hperm
    have hmod : n % 256 = n := Nat.mod_eq_of_lt (by omega)
    rw [hfrags] at hperm
    rw [deliveries, filterMap_fragments haddr hsmall (by omega) b (s := .new) empty_wf rfl hperm, hmod, hcut,
      List.take_length]

theorem delivers_four_bytes :
    let addr : Address := .socketAddress (.v4 ⟨127, 0, 0, 1⟩ 53)
    deliveries .release64 (receive [(0, ⟨1, 0, 2, 1, 1, .none⟩, [4]), (5, ⟨1, 0, 2, 0, 3, addr⟩, [1, 2, 3])]) =
      [([1, 2, 3, 4], addr, 1)] :=
  (delivers_iff .release64 ⟨1, 0, .socketAddress (.v4 ⟨127, 0, 0, 1⟩ 53), 20⟩ [1, 2, 3, 4]
    [(⟨1, 0, 2, 0, 3, .socketAddress (.v4 ⟨127, 0, 0, 1⟩ 53)⟩, [1, 2, 3]), (⟨1, 0, 2, 1, 1, .none⟩, [4])]
    (by decide) (by decide) (by decide) (by decide) rfl).2 (by decide) _ (List.Perm.swap ..)

/-- At a datagram size of 18 bytes, 1779 bytes take 256 fragments, and none is
sent; 1786 bytes take 257, and the receiver delivers the first byte alone. -/
theorem delivers_not :
    let tx : PacketTx := ⟨1, 0, .socketAddress (.v4 ⟨127, 0, 0, 1⟩ 53), 18⟩
    (tx.fragments .release64 (List.replicate 1779 0) = ([], .ok ()) ∧
      ¬ ∀ order : List (Instant × Fragment), (order.map Prod.snd).Perm [] →
        deliveries .release64 (receive order) = [(List.replicate 1779 0, tx.addr, tx.assocId)]) ∧
    tx.fragments .release64 (List.replicate 1786 0) = ([(⟨1, 0, 1, 0, 1, tx.addr⟩, [0])], .ok ()) ∧
      deliveries .release64 (receive [(0, ⟨1, 0, 1, 0, 1, tx.addr⟩, [0])]) = [([0], tx.addr, 1)] := by
  refine ⟨⟨by decide +kernel, fun h => ?_⟩, by decide +kernel, rfl⟩
  cases h [] List.Perm.nil

end Tuic.Model
