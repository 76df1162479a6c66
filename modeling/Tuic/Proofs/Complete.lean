import Mathlib.Data.Multiset.OrderedMonoid
import Tuic.Lib.Refinement
import Tuic.Proofs.AtMostOnce

/-! What arrives is handed on: a packet of which nothing is lost, neither on its way
nor by the receiver, is handed on by the time the last fragment has arrived. What
happens to other packets does not matter, nor does the order of anything. -/

namespace Tuic.Model

open Lib Lib.Slots

/-- A packet of `n` fragments, and its receiver has to put them all together. -/
structure Sendable (b : Build) (x : PacketTx × List UInt8) (n : ℕ) : Prop where
  count : x.1.fragCount b x.2.length = .ok n
  pos : 0 < n
  le : n ≤ 255
  addr : x.1.addr ≠ .none
  small : ∀ i, (x.1.piece b x.2 i).length < 2 ^ 16

/-- Fragment `i` of a packet. -/
def Sendable.frag {b : Build} {x : PacketTx × List UInt8} {n : ℕ} (_ : Sendable b x n) (i : ℕ) : Fragment :=
  x.1.frag b x.2 (UInt8.ofNat n) i

namespace Channel

/-- Each fragment of the packet is in flight or in its slot. -/
structure Whole (s : Channel) {b : Build} {x : PacketTx × List UInt8} {n : ℕ} (h : Sendable b x n) : Prop where
  last : owner s.sends x.1.key = some x
  all : ∀ i < n, .fragment (h.frag i) ∈ s.flight ∨
    ∃ p, s.buffers.get x.1.key = some p ∧ p.buf[i]? = some (some (x.1.piece b x.2 i))

end Channel

/-- The step takes nothing of a packet with this key away: no fragment in flight and
no buffer. -/
def ChannelStep.Spares (key : Key) (s : Channel) : ChannelStep → Prop
  | .lose (.fragment frag) => PacketRx.key frag.1 ≠ key
  | .arrive (.dissociate dissoc) _ => dissoc.assocId ≠ key.1
  | .forget assocId => assocId ≠ key.1
  | .collectGarbage now timeout => ∀ p, s.buffers.get key = some p → now - p.cTime < timeout
  | _ => True

section

variable {b : Build} {x : PacketTx × List UInt8} {n : ℕ} (h : Sendable b x n) {s : Channel}

theorem Sendable.isYield {i : ℕ} (hi : i < n) : IsYield b x (h.frag i) := by
  have hle := h.le
  exact ⟨n, i, h.count, by omega, rfl⟩

theorem Sendable.key {i : ℕ} (hi : i < n) : PacketRx.key (h.frag i).1 = x.1.key := (h.isYield hi).key_eq

/-- Every fragment under the key of its owner is one of these. -/
theorem Sendable.of_isYield {frag : Fragment} (hy : IsYield b x frag) : ∃ i < n, frag = h.frag i := by
  obtain ⟨n', i, hn, hi, rfl⟩ := hy
  obtain rfl := Outcome.ok.inj (h.count.symm.trans hn)
  have hle := h.le
  exact ⟨i, by omega, rfl⟩

theorem Sendable.fragId {i : ℕ} (hi : i < n) : (h.frag i).1.fragId.toNat = i := by
  have hle := h.le
  change (UInt8.ofNat i).toNat = i
  rw [UInt8.toNat_ofNat']
  omega

theorem Sendable.total (h : Sendable b x n) : (UInt8.ofNat n).toNat = n := by
  have hle := h.le
  rw [UInt8.toNat_ofNat']
  omega

/-- The receiver admits a fragment that has not arrived yet. -/
theorem Sendable.admits (hfair : s.Fair b) (now : Instant) {i : ℕ} (hi : i < n)
    (hin : .fragment (h.frag i) ∈ s.flight) (hx : owner s.sends x.1.key = some x) :
    (s.buffers.current now (h.frag i).1).Admits (h.frag i).1 (h.frag i).2 := by
  have hkey := h.key hi
  have hid := h.fragId hi
  obtain ⟨n', hn', htotal⟩ := (current_filledBy now hfair.buffers (hkey ▸ hx) (h.isYield hi)).total
  obtain rfl := Outcome.ok.inj (h.count.symm.trans hn')
  have hlen : (s.buffers.current now (h.frag i).1).buf.length = n := by
    rw [(hfair.wf.current now (h.frag i).1).len, htotal, h.total]
  refine ⟨?_, ?_, ?_, ?_⟩
  · change (x.1.piece b x.2 i).length = (UInt16.ofNat (x.1.piece b x.2 i).length).toNat
    rw [UInt16.toNat_ofNat', Nat.mod_eq_of_lt (h.small i)]
  · rw [UInt8.lt_iff_toNat_lt, hid]
    exact lt_of_lt_of_eq hi h.total.symm
  · have hzero : (h.frag i).1.fragId ≠ 0 ↔ i ≠ 0 := by rw [Ne, uint8_eq_zero, hid]
    rw [hzero]
    change (if i = 0 then x.1.addr else .none) = .none ↔ i ≠ 0
    split_ifs with h0
    · simp [h0, h.addr]
    · simp [h0]
  · rw [hid]
    have hslot : ∀ data, (s.buffers.current now (h.frag i).1).buf[i]? ≠ some (some data) := by
      intro data hdata
      obtain ⟨p, hp, hpdata⟩ := current_slot hdata
      exact hfair.apart (h.frag i) p data hin hp (hid.symm ▸ hpdata)
    rw [List.getElem?_eq_getElem (by omega)] at hslot ⊢
    cases hopt : (s.buffers.current now (h.frag i).1).buf[i] with
    | none => rfl
    | some data => exact absurd (congrArg some hopt) (hslot data)

/-- A fragment does not touch the buffers of other keys. -/
theorem get_assemble_ne {t : Buffers (List UInt8)} {now : Instant} {pkt : PacketRx} {data : List UInt8}
    {key : Key} (hwf : t.WF) (hne : key ≠ pkt.key) : (t.assemble b now pkt data).1.get key = t.get key := by
  by_cases hadm : (t.current now pkt).Admits pkt data
  · rw [assemble_admitted hwf hadm]
    split_ifs
    · exact Table.get_remove_ne t hne
    · exact Table.get_insert_ne t _ hne
  · rw [(assemble_refused hadm).1, Table.get_insert_ne t _ hne]

/-- A fragment of the packet arrives: it takes its slot, or the packet is handed on. -/
theorem Channel.Whole.arrive (hw : s.Whole h) (hfair : s.Fair b) (now : Instant) {i : ℕ} (hi : i < n)
    (hin : .fragment (h.frag i) ∈ s.flight) :
    let s' := ({ s with flight := s.flight.erase (.fragment (h.frag i)) } : Channel).handle b now
      (.fragment (h.frag i))
    s'.Whole h ∨ s'.delivered = delivery x ::ₘ s.delivered := by
  have hkey := h.key hi
  have hadm := h.admits hfair now hi hin hw.last
  have hy := h.isYield hi
  have hx : owner s.sends (PacketRx.key (h.frag i).1) = some x := hkey ▸ hw.last
  obtain ⟨hmem, hfits⟩ := hfair.sends x (owner_mem hx).1
  have hasm := assemble_admitted (b := b) hfair.wf hadm
  by_cases hfull : Full ((s.buffers.current now (h.frag i).1).fill (h.frag i).1 (h.frag i).2).buf
  · right
    rw [if_pos hfull] at hasm
    have hdel := assemble_delivers hfair.wf hfair.buffers hx hy hmem.payload hfits (congrArg Prod.snd hasm)
    change ↑(Answer.assembled (s.buffers.assemble b now (h.frag i).1 (h.frag i).2).2).delivery.toList +
      s.delivered = _
    simp only [hasm, Answer.delivery, hdel]
    rfl
  · left
    rw [if_neg hfull] at hasm
    have hlt := (List.getElem?_eq_some_iff.1 hadm.free).1
    rw [h.fragId hi] at hlt
    -- the buffer after the fragment, slot by slot
    have hget : (s.buffers.assemble b now (h.frag i).1 (h.frag i).2).1.get x.1.key =
        some ((s.buffers.current now (h.frag i).1).fill (h.frag i).1 (h.frag i).2) := by
      rw [hasm, ← hkey, Table.get_insert_self]
    have hslots : ∀ j, ((s.buffers.current now (h.frag i).1).fill (h.frag i).1 (h.frag i).2).buf[j]? =
        if i = j then some (some (x.1.piece b x.2 i)) else
          (s.buffers.current now (h.frag i).1).buf[j]? := by
      intro j
      change ((s.buffers.current now (h.frag i).1).buf.set (h.frag i).1.fragId.toNat _)[j]? = _
      rw [h.fragId hi]
      by_cases hij : i = j
      · subst hij
        rw [if_pos rfl, List.getElem?_set_self hlt]
        rfl
      · rw [if_neg hij, List.getElem?_set_ne hij]
    refine ⟨hw.last, fun j hj => ?_⟩
    by_cases hij : i = j
    · subst hij
      exact .inr ⟨_, hget, by rw [hslots, if_pos rfl]⟩
    · rcases hw.all j hj with hflight | ⟨p, hp, hpj⟩
      · refine .inl ((Multiset.mem_erase_of_ne ?_).2 hflight)
        intro heq
        have hid := congrArg (fun frag : Fragment => frag.1.fragId.toNat) (Wire.fragment.inj heq)
        simp only [h.fragId hi, h.fragId hj] at hid
        exact hij hid.symm
      · refine .inr ⟨_, hget, ?_⟩
        have hcur : s.buffers.current now (h.frag i).1 = p := by
          unfold Buffers.current
          rw [hkey, hp]
          rfl
        rw [hslots, if_neg hij, hcur]
        exact hpj

/-- A step that spares the packet leaves it whole, or hands it on. -/
theorem Channel.Whole.step (hw : s.Whole h) (hfair : s.Fair b) {a : ChannelStep} (hsafe : a.Safe b s)
    (hspares : a.Spares x.1.key s) :
    (s.step b a).Whole h ∨ (s.step b a).delivered = delivery x ::ₘ s.delivered := by
  cases a with
  | send tx payload =>
    left
    -- the key is in use
    have hne : x.1.key ≠ tx.key := by
      intro heq
      refine hsafe.2.1 ?_
      change s.Outstanding tx.key
      rw [← heq]
      rcases hw.all 0 h.pos with hin | ⟨p, hp, -⟩
      · exact .inl ⟨_, hin, h.key h.pos⟩
      · exact .inr (by rw [hp]; nofun)
    refine ⟨?_, fun i hi => (hw.all i hi).imp_left fun hin => Multiset.mem_add.2 (.inl hin)⟩
    change owner ((tx, payload) :: s.sends) x.1.key = some x
    rw [owner_cons, if_neg (Ne.symm hne)]
    exact hw.last
  | sendDissociate assocId =>
    exact .inl ⟨hw.last, fun i hi => (hw.all i hi).imp_left Multiset.mem_cons_of_mem⟩
  | arrive wire now =>
    simp only [Channel.step]
    split_ifs with hin
    · cases wire with
      | fragment frag =>
        by_cases hkey : PacketRx.key frag.1 = x.1.key
        · obtain ⟨x', hx', hy⟩ := hfair.flight frag hin
          rw [hkey, hw.last] at hx'
          cases hx'
          obtain ⟨i, hi, rfl⟩ := h.of_isYield hy
          exact hw.arrive h hfair now hi hin
        · -- a fragment of another packet
          left
          refine ⟨hw.last, fun i hi => (hw.all i hi).imp (fun hflight => ?_) ?_⟩
          · refine (Multiset.mem_erase_of_ne fun heq => ?_).2 hflight
            rw [← Wire.fragment.inj heq] at hkey
            exact hkey (h.key hi)
          · rintro ⟨p, hp, hslot⟩
            refine ⟨p, ?_, hslot⟩
            change (s.buffers.assemble b now frag.1 frag.2).1.get x.1.key = some p
            rw [get_assemble_ne hfair.wf (Ne.symm hkey)]
            exact hp
      | dissociate dissoc =>
        left
        refine ⟨hw.last, fun i hi => (hw.all i hi).imp (fun hflight => ?_) ?_⟩
        · refine (Multiset.mem_erase_of_ne fun heq => ?_).2 hflight
          cases heq
        · rintro ⟨p, hp, hslot⟩
          refine ⟨p, ?_, hslot⟩
          change (s.buffers.dissociate dissoc.assocId).get x.1.key = some p
          rw [Buffers.get_dissociate, if_neg (Ne.symm hspares)]
          exact hp
    · exact .inl hw
  | lose wire =>
    left
    refine ⟨hw.last, fun i hi => (hw.all i hi).imp_left fun hflight => ?_⟩
    refine (Multiset.mem_erase_of_ne ?_).2 hflight
    rintro rfl
    exact hspares (h.key hi)
  | forget assocId =>
    left
    refine ⟨hw.last, fun i hi => (hw.all i hi).imp_right ?_⟩
    rintro ⟨p, hp, hslot⟩
    refine ⟨p, ?_, hslot⟩
    change (s.buffers.dissociate assocId).get x.1.key = some p
    rw [Buffers.get_dissociate, if_neg (Ne.symm hspares)]
    exact hp
  | collectGarbage now timeout =>
    left
    refine ⟨hw.last, fun i hi => (hw.all i hi).imp_right ?_⟩
    rintro ⟨p, hp, hslot⟩
    exact ⟨p, get_collectGarbage.2 ⟨hp, hspares p hp⟩, hslot⟩

/-- What has been handed on stays handed on. -/
theorem Channel.delivered_mono (b : Build) (s : Channel) (a : ChannelStep) :
    s.delivered ≤ (s.step b a).delivered := by
  cases a with
  | arrive wire now =>
    simp only [Channel.step]
    split_ifs
    · cases wire with
      | fragment frag => exact Multiset.le_add_left _ _
      | dissociate dissoc => exact le_rfl
    · exact le_rfl
  | send tx payload => exact le_rfl
  | sendDissociate assocId => exact le_rfl
  | lose wire => exact le_rfl
  | forget assocId => exact le_rfl
  | collectGarbage now timeout => exact le_rfl

/-- A whole packet is still on its way. -/
theorem Channel.Whole.in_flight (hw : s.Whole h) (hfair : s.Fair b) :
    ∃ frag, .fragment frag ∈ s.flight ∧ PacketRx.key frag.1 = x.1.key := by
  by_contra hno
  have hstored : ∀ i < n, ∃ p, s.buffers.get x.1.key = some p ∧
      p.buf[i]? = some (some (x.1.piece b x.2 i)) := fun i hi =>
    (hw.all i hi).resolve_left fun hin => hno ⟨_, hin, h.key hi⟩
  obtain ⟨p, hp, -⟩ := hstored 0 h.pos
  obtain ⟨x', hx', hfill⟩ := hfair.buffers _ p hp
  rw [hw.last] at hx'
  cases hx'
  obtain ⟨n', hn', htotal⟩ := hfill.total
  obtain rfl := Outcome.ok.inj (h.count.symm.trans hn')
  have hwf := hfair.wf _ p hp
  have hlen : p.buf.length = n := by rw [hwf.len, htotal, h.total]
  refine hwf.unfinished (fun hzero => ?_) fun slot hslot => ?_
  · have := uint8_eq_zero.1 hzero
    rw [htotal, h.total] at this
    exact Nat.ne_of_gt h.pos this
  · obtain ⟨i, hi, rfl⟩ := List.getElem_of_mem hslot
    obtain ⟨p', hp', hdata⟩ := hstored i (hlen ▸ hi)
    rw [hp] at hp'
    cases hp'
    rw [List.getElem?_eq_getElem hi] at hdata
    rw [Option.some.inj hdata]
    rfl

/-- A packet that is sent is whole at first. -/
theorem Channel.whole_send {tx : PacketTx} {payload : List UInt8} (h : Sendable b (tx, payload) n)
    (hmem : PacketTx.InMemory b tx payload) (hend : (tx.fragments b payload).2 = .ok ()) :
    (s.step b (.send tx payload)).Whole h := by
  obtain ⟨n', hn', hfrags⟩ := PacketTx.fragments_done hmem
    (show tx.fragments b payload = ((tx.fragments b payload).1, .ok ()) from Prod.ext rfl hend)
  obtain rfl := Outcome.ok.inj (h.count.symm.trans hn')
  have hle := h.le
  refine ⟨?_, fun i hi => .inl (Multiset.mem_add.2 (.inr ?_))⟩
  · change owner ((tx, payload) :: s.sends) tx.key = some (tx, payload)
    rw [owner_cons, if_pos rfl]
  · rw [Multiset.mem_coe, hfrags]
    refine List.mem_map_of_mem (List.mem_map.2 ⟨i, List.mem_range.2 ?_, rfl⟩)
    omega

/-- A run that spares a whole packet hands it on, or leaves a fragment of it in flight. -/
theorem Channel.Whole.run (hw : s.Whole h) (hfair : s.Fair b) {as : List ChannelStep}
    (hkeeps : (channel b).Keeps (fun s a => a.Safe b s ∧ a.Spares x.1.key s) s as) :
    (∃ frag, .fragment frag ∈ ((channel b).exec s as).flight ∧ PacketRx.key frag.1 = x.1.key) ∨
      delivery x ::ₘ s.delivered ≤ ((channel b).exec s as).delivered := by
  have hstep : ∀ (s' : Channel) (a : ChannelStep), a.Safe b s' ∧ a.Spares x.1.key s' →
      (s'.Fair b ∧ s.delivered ≤ s'.delivered ∧ (s'.Whole h ∨ delivery x ::ₘ s.delivered ≤ s'.delivered)) →
      (s'.step b a).Fair b ∧ s.delivered ≤ (s'.step b a).delivered ∧
        ((s'.step b a).Whole h ∨ delivery x ::ₘ s.delivered ≤ (s'.step b a).delivered) := by
    rintro s' a ⟨hsafe, hspares⟩ ⟨hf, hle, hcases⟩
    have hmono := Channel.delivered_mono b s' a
    refine ⟨hf.step hsafe, le_trans hle hmono, ?_⟩
    rcases hcases with hwhole | hdone
    · refine (hwhole.step h hf hsafe hspares).imp_right fun hdel => ?_
      rw [hdel]
      exact (Multiset.cons_le_cons_iff _).2 hle
    · exact .inr (le_trans hdone hmono)
  obtain ⟨hf, -, hwhole | hdone⟩ := hkeeps.invariant hstep ⟨hfair, le_rfl, .inl hw⟩
  · exact .inl (hwhole.in_flight h hf)
  · exact .inr hdone

end

/-! ### Two connections -/

/-- The network from outside. -/
def Network.channel (s : Network) : Channel := ⟨s.receiver.buffers, s.flight, s.sends, s.delivered⟩

/-- The action takes nothing of a packet with this key away. -/
def Action.Spares {b : Build} (key : Key) (s : Network) : Action b → Prop
  | .lose i => ∀ frag, s.flight[i]? = some (.fragment frag) → PacketRx.key frag.1 ≠ key
  | .arrive i _ => ∀ dissoc, s.flight[i]? = some (.dissociate dissoc) → dissoc.assocId ≠ key.1
  | .collectGarbage now timeout => ∀ p, s.receiver.buffers.get key = some p → now - p.cTime < timeout
  | _ => True

section

variable {b : Build}

theorem coe_eraseIdx {l : List Wire} {i : ℕ} {wire : Wire} (h : l[i]? = some wire) :
    (↑(l.eraseIdx i) : Multiset Wire) = (↑l : Multiset Wire).erase wire := by
  obtain ⟨hlt, rfl⟩ := List.getElem?_eq_some_iff.1 h
  rw [Multiset.coe_erase]
  exact Multiset.coe_eq_coe.2 (List.erase_getElem hlt).symm

/-- Each action is one step of the channel, or none. -/
theorem network_step_channel (s : Network) (a : Action b) (hsafe : a.Safe s) (key : Key) :
    ∃ as : List ChannelStep,
      (channel b).Keeps (fun s' a' => a'.Safe b s' ∧ (a.Spares key s → a'.Spares key s')) s.channel as ∧
        (channel b).exec s.channel as = (s.step b a).channel := by
  cases a with
  | send assocId addr maxPktSize payload =>
    obtain ⟨⟨hflight, hbuf⟩, hfits⟩ := hsafe
    refine ⟨[.send ⟨assocId, s.sender.nextPktId assocId, addr, maxPktSize⟩ payload],
      ⟨⟨⟨⟨payload.2, maxPktSize.2⟩, ?_, hfits⟩, fun _ => trivial⟩, trivial⟩, ?_⟩
    · rintro (⟨frag, hin, hkey⟩ | hne)
      · exact hflight frag (Multiset.mem_coe.1 hin) hkey
      · exact hne hbuf
    · simp only [Network.step, sendPacket_tx]
      rfl
  | sendDissociate assocId =>
    refine ⟨[.sendDissociate assocId], ⟨⟨trivial, fun _ => trivial⟩, trivial⟩, ?_⟩
    have hcons : (↑(s.flight ++ [Wire.dissociate ⟨assocId⟩]) : Multiset Wire) =
        Wire.dissociate ⟨assocId⟩ ::ₘ ↑s.flight := Multiset.coe_eq_coe.2 (List.perm_append_singleton _ _)
    change _ = Channel.mk _ (↑(s.flight ++ [Wire.dissociate ⟨assocId⟩])) _ _
    rw [hcons]
    rfl
  | arrive i now =>
    simp only [Network.step]
    cases hw : s.flight[i]? with
    | none => exact ⟨[], trivial, rfl⟩
    | some wire =>
      have hin : wire ∈ s.channel.flight := Multiset.mem_coe.2 (List.mem_of_getElem? hw)
      refine ⟨[.arrive wire now], ⟨⟨trivial, fun hspares => ?_⟩, trivial⟩, ?_⟩
      · cases wire with
        | fragment frag => exact trivial
        | dissociate dissoc => exact hspares dissoc hw
      · rw [Machine.exec_cons, Machine.exec_nil]
        change (if wire ∈ s.channel.flight then _ else _) = _
        rw [if_pos hin]
        have herase := coe_eraseIdx hw
        cases wire with
        | fragment frag =>
          have hbuf : (s.receiver.recvPacketUnrestricted frag.1).1.buffers = s.receiver.buffers :=
            entry_buffers s.receiver frag.1.assocId
          obtain ⟨hstep, hres⟩ :=
            assemble_buffers b now (s.receiver.recvPacketUnrestricted frag.1).1 frag.1 frag.2
          rw [hbuf] at hstep hres
          simp only [Channel.handle, Network.handle, Network.channel, herase]
          congr 1
          · exact hstep.symm
          · change _ = (↑((Answer.assembled ((s.receiver.recvPacketUnrestricted frag.1).1.assemble b now
              frag.1 frag.2).2).delivery.toList ++ s.delivered) : Multiset Delivery)
            rw [hres]
            exact Multiset.coe_add _ _
        | dissociate dissoc =>
          have hrem : (s.receiver.recvDissociate dissoc).1.buffers =
              s.receiver.buffers.dissociate dissoc.assocId := remove_buffers s.receiver dissoc.assocId
          simp only [Channel.handle, Network.handle, Network.channel, hrem, herase]
  | lose i =>
    cases hw : s.flight[i]? with
    | none =>
      refine ⟨[], trivial, ?_⟩
      simp only [Network.step, Network.channel, List.eraseIdx_of_length_le (List.getElem?_eq_none_iff.1 hw)]
      rfl
    | some wire =>
      refine ⟨[.lose wire], ⟨⟨trivial, fun hspares => ?_⟩, trivial⟩, ?_⟩
      · cases wire with
        | fragment frag => exact hspares frag hw
        | dissociate dissoc => exact trivial
      · simp only [Network.step, Network.channel, coe_eraseIdx hw]
        rfl
  | collectGarbage now timeout =>
    refine ⟨[.collectGarbage now timeout], ⟨⟨trivial, id⟩, trivial⟩, ?_⟩
    simp only [Network.step, Network.channel, collectGarbage_buffers]
    rfl

theorem Network.channel_fair {s : Network} {actions : List (Action b)} (hs : s.channel.Fair b)
    (hsafe : (network b).Keeps (fun s a => a.Safe s) s actions) :
    ((network b).exec s actions).channel.Fair b := by
  refine hsafe.invariant (P := fun s => s.channel.Fair b) (fun s a ha h => ?_) hs
  obtain ⟨as, hkeeps, hexec⟩ := network_step_channel s a ha (0, 0)
  change (s.step b a).channel.Fair b
  rw [← hexec]
  exact hkeeps.invariant (P := fun s => s.Fair b) (fun s a h' h => h.step h'.1) h

/-- A run of the network that spares a key is such a run of the channel. -/
theorem network_refines_channel (b : Build) (key : Key) :
    (network b).Refines (fun s a => a.Safe s ∧ a.Spares key s) (channel b)
      (fun s a => a.Safe b s ∧ a.Spares key s) (fun s s' => s.channel = s') where
  init := rfl
  step := by
    rintro s _ a rfl ⟨hsafe, hspares⟩
    obtain ⟨as, hkeeps, hexec⟩ := network_step_channel s a hsafe key
    exact ⟨as, hkeeps.mono fun _ _ h => ⟨h.1, h.2 hspares⟩, hexec.symm⟩

/-- What is handed on is put in front of what has been. -/
theorem network_delivered (b : Build) (actions : List (Action b)) : ∀ s : Network,
    ∃ new, ((network b).exec s actions).delivered = new ++ s.delivered := by
  induction actions with
  | nil => exact fun s => ⟨[], rfl⟩
  | cons a actions ih =>
    intro s
    obtain ⟨new, hnew⟩ := ih (s.step b a)
    have hstep : ∃ first, (s.step b a).delivered = first ++ s.delivered := by
      cases a with
      | arrive i now =>
        simp only [Network.step]
        cases s.flight[i]? with
        | none => exact ⟨[], rfl⟩
        | some wire =>
          cases wire with
          | fragment frag => exact ⟨_, rfl⟩
          | dissociate dissoc => exact ⟨[], rfl⟩
      | send assocId addr maxPktSize payload => exact ⟨[], rfl⟩
      | sendDissociate assocId => exact ⟨[], rfl⟩
      | lose i => exact ⟨[], rfl⟩
      | collectGarbage now timeout => exact ⟨[], rfl⟩
    obtain ⟨first, hfirst⟩ := hstep
    refine ⟨new ++ first, ?_⟩
    rw [Machine.exec_cons, List.append_assoc, ← hfirst]
    exact hnew

/-- The send at the end of `before` yields all fragments of a packet, and some. -/
structure SendsWhole (b : Build) (tx : PacketTx) (payload : List UInt8) : Prop where
  addr : tx.addr ≠ .none
  small : payload.length < 2 ^ 16
  ends : (tx.fragments b payload).2 = .ok ()
  some : (tx.fragments b payload).1 ≠ []

theorem SendsWhole.sendable {tx : PacketTx} {payload : List UInt8} (h : SendsWhole b tx payload)
    (hmem : PacketTx.InMemory b tx payload)
    (hfits : CountFits (tx.firstSize b) (tx.restSize b) payload.length) :
    ∃ n, Sendable b (tx, payload) n := by
  obtain ⟨n, hn, hfrags⟩ := PacketTx.fragments_done hmem
    (show tx.fragments b payload = ((tx.fragments b payload).1, .ok ()) from Prod.ext rfl h.ends)
  have hne : n % 256 ≠ 0 := by
    intro hz
    rw [hz] at hfrags
    exact h.some hfrags
  refine ⟨n, hn, by omega, (fragCount_of_countFits hmem.payload hfits hn).resolve_right hne, h.addr, fun i => ?_⟩
  have hcut := tx.cut_le (b := b) payload.length (i + 1)
  have hsmall := h.small
  change (tx.piece b payload i).length < 2 ^ 16
  rw [PacketTx.piece_length]
  omega

/-- Another association sends first and loses a fragment. The two fragments of the
packet arrive in the other order, with a collection in between. -/
def mixed : List (Action .release64) × List (Action .release64) :=
  ([.send 2 localhost ⟨21, by decide⟩ ⟨[9, 9, 9, 9, 9], by decide⟩],
    [.lose 0, .arrive 2 3, .collectGarbage 8 10, .arrive 1 9])

theorem mixed_safe : (network .release64).Keeps (fun s a => a.Safe s) .init
    (mixed.1 ++ .send 1 localhost ⟨21, by decide⟩ ⟨[3, 1, 4, 1, 5], by decide⟩ :: mixed.2) := by
  refine ⟨⟨⟨nofun, rfl⟩, .inl (by decide)⟩, ⟨⟨fun frag hin => ?_, rfl⟩, .inl (by decide)⟩, trivial, trivial,
    trivial, trivial, trivial⟩
  obtain ⟨frag', hmem, heq⟩ := List.mem_map.1 hin
  cases heq
  have hassoc : ∀ frag ∈ ((⟨2, 0, localhost, 21⟩ : PacketTx).fragments .release64 [9, 9, 9, 9, 9]).1,
      frag.1.assocId = 2 := by decide
  intro hkey
  have hone : frag.1.assocId = 1 := congrArg Prod.fst hkey
  rw [hassoc frag hmem] at hone
  cases hone

/-- The state in which the packet is on its way. -/
def mixedSent : Network :=
  ((network .release64).exec .init mixed.1).step .release64
    (.send 1 localhost ⟨21, by decide⟩ ⟨[3, 1, 4, 1, 5], by decide⟩)

theorem mixed_spares :
    (network .release64).Keeps (fun s a => a.Spares (1, 0) s) mixedSent mixed.2 := by
  refine ⟨fun frag h => ?_, fun _ h => ?_, fun _ _ => ?_, fun _ h => ?_, trivial⟩
  · cases h
    decide
  · cases h
  · exact Nat.lt_of_le_of_lt (Nat.sub_le _ _) (by decide)
  · cases h

theorem mixed_arrived (frag : Fragment)
    (h : .fragment frag ∈ ((network .release64).exec mixedSent mixed.2).flight) :
    PacketRx.key frag.1 ≠ (1, 0) := by
  cases List.mem_singleton.1 h
  decide

end

end Tuic.Model
