import Mathlib.Tactic.Abel
import Tuic.Lib.Refinement
import Tuic.Proofs.AtMostOnce
import Tuic.Proofs.Datagram
import Tuic.Proofs.Native
import Tuic.Sanity.Link

/-! Each direction of a link refines the channel: whatever the tasks at both ends do
with bytes and however they are interleaved, the channel sees packets sent, messages
arriving whole or lost, and associations that end. So everything that is handed on
was sent, and is handed on no more often. -/

namespace Tuic.Model

open Lib

/-- The channel gets from `s` to `s'` by safe steps. -/
def Channel.Leads (b : Build) (s s' : Channel) : Prop :=
  ∃ as, (channel b).Keeps (fun s a => a.Safe b s) s as ∧ (channel b).exec s as = s'

namespace Channel

variable {b : Build} {s s' : Channel}

theorem Leads.refl (s : Channel) : Leads b s s := ⟨[], trivial, rfl⟩

theorem Leads.trans {s'' : Channel} (h : Leads b s s') (h' : Leads b s' s'') : Leads b s s'' := by
  obtain ⟨as, hkeeps, rfl⟩ := h
  obtain ⟨bs, hkeeps', rfl⟩ := h'
  exact ⟨as ++ bs, ((channel b).keeps_append _ _ _).2 ⟨hkeeps, hkeeps'⟩, Machine.exec_append _ _ _ _⟩

theorem Leads.single {a : ChannelStep} (hsafe : a.Safe b s) : Leads b s (s.step b a) :=
  ⟨[a], ⟨hsafe, trivial⟩, rfl⟩

theorem exec_lose (b : Build) (ws : List Wire) : ∀ s : Channel,
    (channel b).Keeps (fun s a => a.Safe b s) s (ws.map .lose) ∧
      (channel b).exec s (ws.map .lose) = { s with flight := s.flight - ↑ws } := by
  induction ws with
  | nil =>
    intro s
    refine ⟨trivial, ?_⟩
    change s = { s with flight := s.flight - 0 }
    rw [Multiset.sub_zero]
  | cons w ws ih =>
    intro s
    obtain ⟨hkeeps, hexec⟩ := ih (s.step b (.lose w))
    refine ⟨⟨trivial, hkeeps⟩, ?_⟩
    rw [List.map_cons, Machine.exec_cons, ← Multiset.cons_coe, Multiset.sub_cons]
    exact hexec

/-- Messages may be lost at any time. -/
theorem Leads.lose {f : Multiset Wire} (h : f ≤ s.flight) : Leads b s { s with flight := f } := by
  obtain ⟨lost, hlost⟩ := Multiset.le_iff_exists_add.1 h
  obtain ⟨ws, rfl⟩ : ∃ ws : List Wire, (↑ws : Multiset Wire) = lost := Quot.exists_rep _
  obtain ⟨hkeeps, hexec⟩ := exec_lose b ws s
  refine ⟨ws.map .lose, hkeeps, ?_⟩
  have hf : s.flight - ↑ws = f := by rw [hlost, Multiset.add_sub_cancel_right]
  rw [hexec, hf]

/-- A fragment arrives. -/
theorem Leads.arrive (frag : Fragment) {f : Multiset Wire} (h : s.flight = {.fragment frag} + f)
    (now : Instant) : Leads b s
      { s with
        buffers := (s.buffers.assemble b now frag.1 frag.2).1
        flight := f
        delivered := ↑(Answer.assembled (s.buffers.assemble b now frag.1 frag.2).2).delivery.toList +
          s.delivered } := by
  have hin : .fragment frag ∈ s.flight := by
    rw [h]
    exact Multiset.mem_add.2 (.inl (Multiset.mem_singleton_self _))
  have hstep := Leads.single (b := b) (s := s) (a := .arrive (.fragment frag) now) trivial
  have hrest : s.flight.erase (.fragment frag) = f := by
    rw [h, Multiset.singleton_add, Multiset.erase_cons_head]
  rw [step, if_pos hin, hrest] at hstep
  exact hstep

/-- A `Dissociate` arrives. -/
theorem Leads.arrive_dissociate {dissoc : Dissociate} {f : Multiset Wire}
    (h : s.flight = {.dissociate dissoc} + f) :
    Leads b s { s with buffers := s.buffers.dissociate dissoc.assocId, flight := f } := by
  have hin : .dissociate dissoc ∈ s.flight := by
    rw [h]
    exact Multiset.mem_add.2 (.inl (Multiset.mem_singleton_self _))
  have hstep := Leads.single (b := b) (s := s) (a := .arrive (.dissociate dissoc) 0) trivial
  have hrest : s.flight.erase (.dissociate dissoc) = f := by
    rw [h, Multiset.singleton_add, Multiset.erase_cons_head]
  rw [step, if_pos hin, hrest] at hstep
  exact hstep

end Channel

end Tuic.Model

namespace Tuic.Quinn

open Lib Lib.Reader Model

variable {b : Build} {σ : Type}

/-! ### The sender -/

namespace Pipe

variable {self : Pipe} {model : UdpSessions (List UInt8)}

theorem openUni_channel (self : Pipe) (j : ℕ) : (self.openUni j).channel model = self.channel model := by
  unfold openUni
  split
  · rename_i bytes todo h
    have hsum := Pool.sum_map_modify h StreamSender.wires fun _ => ⟨todo, some self.streams.length⟩
    have hflight : ({ self with
        senders := self.senders.modify j fun _ => ⟨todo, some self.streams.length⟩
        streams := self.streams ++ [.opened bytes] } : Pipe).flight = self.flight := by
      have hsenders : ((self.senders.modify j fun _ => ⟨todo, some self.streams.length⟩).map
          StreamSender.wires).sum + wires bytes = (self.senders.map StreamSender.wires).sum := by
        simp only [StreamSender.wires, List.map_cons, List.sum_cons] at hsum
        rw [← add_assoc] at hsum
        exact add_right_cancel hsum
      simp only [flight, List.map_append, List.sum_append, List.map_cons, List.map_nil, List.sum_cons,
        List.sum_nil, UniStream.opened_wires, ← hsenders]
      abel
    simp only [channel, hflight]
  · rfl

theorem write_channel (self : Pipe) (j num : ℕ) : (self.write j num).channel model = self.channel model := by
  unfold write
  split
  · rename_i i h
    have hsum : ((self.streams.modify i (·.write num)).map UniStream.wires).sum =
        (self.streams.map UniStream.wires).sum :=
      congrArg List.sum (Pool.map_modify_same fun s _ => s.write_wires num)
    simp only [channel, flight, hsum]
  · rfl

theorem finish_channel (self : Pipe) (j : ℕ) : (self.finish j).channel model = self.channel model := by
  unfold finish
  split
  · split
    · have hsum : ((self.senders.modify j fun sender => { sender with current := none }).map
          StreamSender.wires).sum = (self.senders.map StreamSender.wires).sum :=
        congrArg List.sum (Pool.map_modify_same fun _ _ => rfl)
      simp only [channel, flight, hsum]
    · rfl
  · rfl

theorem abandon_leads (self : Pipe) (j : ℕ) :
    Channel.Leads b (self.channel model) ((self.abandon j).channel model) := by
  have hsenders : ((self.senders.modify j fun _ => ⟨[], none⟩).map StreamSender.wires).sum ≤
      (self.senders.map StreamSender.wires).sum :=
    Pool.sum_map_modify_le fun _ _ => Multiset.zero_le _
  unfold abandon
  split
  · rename_i i h
    have hstreams : ((self.streams.modify i .cut).map UniStream.wires).sum ≤
        (self.streams.map UniStream.wires).sum :=
      Pool.sum_map_modify_le fun s _ => s.cut_wires_le
    refine Channel.Leads.lose (s := self.channel model) ?_
    exact add_le_add_left (add_le_add_left (add_le_add hsenders hstreams) _) _
  · refine Channel.Leads.lose (s := self.channel model) ?_
    exact add_le_add_left (add_le_add_left (add_le_add_left hsenders _) _) _

end Pipe

/-- The loop sends the first fragments of the iterator. -/
theorem sendAll_prefix (q : Datagrams b σ) : ∀ (fuel : ℕ) (conn : σ) (frags : Fragments),
    ∃ k, (sendAll q fuel conn frags).sent = ((frags.take b fuel).1.take k).map datagram := by
  intro fuel
  induction fuel with
  | zero => exact fun _ _ => ⟨0, rfl⟩
  | succ fuel ih =>
    intro conn frags
    simp only [sendAll, Fragments.take]
    cases frags.next b with
    | err e => cases e
    | panic p => exact ⟨0, rfl⟩
    | ok o =>
      cases o with
      | none => exact ⟨0, rfl⟩
      | some y =>
        obtain ⟨frag, frags'⟩ := y
        simp only
        cases q.sendDatagram conn (datagram frag) with
        | mk conn' res =>
          cases res with
          | error e => exact ⟨0, rfl⟩
          | ok u =>
            obtain ⟨k, hk⟩ := ih conn' frags'
            refine ⟨k + 1, ?_⟩
            simp only [hk, List.take_succ_cons, List.map_cons]

theorem packetNative_prefix (q : Datagrams b σ) (conn : σ) (model : UdpSessions (List UInt8))
    (pkt : List UInt8) (addr : Address) (assocId : UInt16) {max : b.Usize}
    (hmax : q.maxDatagramSize conn = some max) :
    ∃ k, (packetNative q conn model pkt addr assocId).2.sent =
      (((model.sendPacket assocId addr max).2.fragments b pkt).1.take k).map datagram := by
  simp only [packetNative, hmax, PacketTx.fragments]
  cases (model.sendPacket assocId addr max).2.intoFragments b pkt with
  | err e => cases e
  | panic p => exact ⟨0, rfl⟩
  | ok frags => exact sendAll_prefix q _ conn frags

theorem packetNative_model (q : Datagrams b σ) (conn : σ) (model : UdpSessions (List UInt8))
    (pkt : List UInt8) (addr : Address) (assocId : UInt16) :
    (packetNative q conn model pkt addr assocId).1.buffers = model.buffers := by
  unfold packetNative
  split
  · rfl
  · rename_i max hmax
    have hbuf := sendPacket_buffers model assocId addr max
    simp only
    cases (model.sendPacket assocId addr max).2.intoFragments b pkt with
    | err e => cases e
    | panic p => exact hbuf
    | ok frags => exact hbuf

/-- Memory holds a packet that UDP can carry. -/
theorem inMemory_of_udp (tx : PacketTx) (pkt : UdpPayload) (hmax : tx.maxPktSize < 2 ^ b.usizeBits) :
    PacketTx.InMemory b tx pkt.1 := by
  have hbits : (2 : ℕ) ^ 32 ≤ 2 ^ b.usizeBits := Nat.pow_le_pow_right (by decide) b.bits_ge
  have hsize := PacketTx.isizeMax_lt b
  have hpkt := pkt.2
  exact ⟨by omega, hmax⟩

/-- The calls that send a packet do so under a key of which nothing is left, and
with a fitting count. -/
def LinkStep.Safe (q : Datagrams b σ) (c : Link) : LinkStep σ → Prop
  | .send side (.packetNative conn pkt addr assocId) =>
    ∀ max, q.maxDatagramSize conn = some max →
      let tx := ((c.model side).sendPacket assocId addr max).2
      ¬ (c.channel side.other).Outstanding tx.key ∧
        CountFits (tx.firstSize b) (tx.restSize b) pkt.1.length
  | .send side (.packetQuic pkt addr assocId) =>
    let tx := ((c.model side).sendPacket assocId addr 65535).2
    ¬ (c.channel side.other).Outstanding tx.key ∧
      CountFits (tx.firstSize b) (tx.restSize b) pkt.1.length
  | _ => True

/-- The channel sends a packet whose fragments are on their way. -/
theorem leads_send {s : Channel} {tx : PacketTx} (pkt : UdpPayload)
    (hmax : tx.maxPktSize < 2 ^ b.usizeBits) (hunused : ¬ s.Outstanding tx.key)
    (hfits : CountFits (tx.firstSize b) (tx.restSize b) pkt.1.length) :
    Channel.Leads b s
      { s with
        flight := s.flight + ↑(((tx.fragments b pkt).1.map Fragment.onWire).map Wire.fragment)
        sends := (tx.onWire, pkt.1) :: s.sends } := by
  have hsafe : ChannelStep.Safe b s (.send tx.onWire pkt) := by
    refine ⟨inMemory_of_udp tx.onWire pkt hmax, hunused, ?_⟩
    simpa only [PacketTx.firstSize, PacketTx.restSize, PacketTx.onWire, headerLen_onWire] using hfits
  have hstep := Channel.Leads.single hsafe
  rw [Channel.step, PacketTx.fragments_onWire] at hstep
  exact hstep

namespace Pipe

variable {self : Pipe} {model model' : UdpSessions (List UInt8)} {side : Side}

theorem spawn_flight (self : Pipe) (todo : List (List UInt8)) :
    (self.spawn todo).flight = self.flight + (todo.map wires).sum := by
  simp only [flight, spawn, List.map_append, List.sum_append, List.map_cons, List.map_nil, List.sum_cons,
    List.sum_nil, StreamSender.wires]
  abel

theorem datagrams_flight (self : Pipe) (datagrams : List (List UInt8)) :
    ({ self with datagrams := self.datagrams ++ datagrams } : Pipe).flight =
      self.flight + (datagrams.map wires).sum := by
  simp only [flight, List.map_append, List.sum_append]
  abel

/-- The channel shows of a session table what it stores. -/
theorem channel_eq (h : model'.buffers = model.buffers) : self.channel model' = self.channel model := by
  simp only [channel, h]

/-- A packet whose first fragments are sent as datagrams. -/
theorem native_leads {tx : PacketTx} (pkt : UdpPayload) (k : ℕ) (hmax : tx.maxPktSize < 2 ^ b.usizeBits)
    (haddr : tx.addr.onWire.Encodable) (hunused : ¬ (self.channel model).Outstanding tx.key)
    (hfits : CountFits (tx.firstSize b) (tx.restSize b) pkt.1.length) :
    Channel.Leads b (self.channel model) (({ self with
      datagrams := self.datagrams ++ ((tx.fragments b pkt).1.take k).map datagram
      sends := (tx, pkt.1) :: self.sends } : Pipe).channel model) := by
  have hsum := sum_wires_datagrams (inMemory_of_udp tx pkt hmax) haddr pkt.2
    ((tx.fragments b pkt).1.take k) fun _ => List.mem_of_mem_take
  have hle : self.flight + ((((tx.fragments b pkt).1.take k).map datagram).map wires).sum ≤
      self.flight + ↑(((tx.fragments b pkt).1.map Fragment.onWire).map Wire.fragment) := by
    rw [hsum]
    refine add_le_add_right (Multiset.coe_le.2 (List.Sublist.subperm ?_)) _
    exact ((List.take_sublist k _).map _).map _
  rw [← datagrams_flight] at hle
  exact (leads_send pkt hmax hunused hfits).trans (Channel.Leads.lose hle)

/-- A packet whose fragments are to be sent on streams. -/
theorem quic_leads {tx : PacketTx} (pkt : UdpPayload) (hmax : tx.maxPktSize < 2 ^ b.usizeBits)
    (haddr : tx.addr.onWire.Encodable) (hunused : ¬ (self.channel model).Outstanding tx.key)
    (hfits : CountFits (tx.firstSize b) (tx.restSize b) pkt.1.length) :
    Channel.Leads b (self.channel model) (({ self.spawn ((tx.fragments b pkt).1.map datagram) with
      sends := (tx, pkt.1) :: self.sends } : Pipe).channel model) := by
  have hsum := sum_wires_datagrams (inMemory_of_udp tx pkt hmax) haddr pkt.2
    (tx.fragments b pkt).1 fun _ => id
  have hflight := self.spawn_flight ((tx.fragments b pkt).1.map datagram)
  rw [hsum] at hflight
  have hsend := leads_send (s := self.channel model) pkt hmax hunused hfits
  change Channel.Leads b _ { self.channel model with
    flight := self.flight + _
    sends := (tx.onWire, pkt.1) :: (self.channel model).sends } at hsend
  rw [← hflight] at hsend
  exact hsend

/-- The steps of a sender are steps of the channel to the other side. -/
theorem send_leads (q : Datagrams b σ) (self : Pipe) (sender receiver : UdpSessions (List UInt8))
    (side : Side) (a : SendStep σ)
    (hnative : ∀ conn pkt addr assocId max, a = .packetNative conn pkt addr assocId →
      q.maxDatagramSize conn = some max →
      let tx := (sender.sendPacket assocId addr max).2
      ¬ (self.channel receiver).Outstanding tx.key ∧
        CountFits (tx.firstSize b) (tx.restSize b) pkt.1.length)
    (hquic : ∀ pkt addr assocId, a = .packetQuic pkt addr assocId →
      let tx := (sender.sendPacket assocId addr 65535).2
      ¬ (self.channel receiver).Outstanding tx.key ∧
        CountFits (tx.firstSize b) (tx.restSize b) pkt.1.length) :
    Channel.Leads b (self.channel receiver) ((self.send q side sender a).2.channel receiver) := by
  cases a with
  | packetNative conn pkt addr assocId =>
    simp only [send]
    cases hmax : q.maxDatagramSize conn with
    | none =>
      have hsent : (packetNative q conn sender pkt addr assocId).2.sent = [] := by
        simp only [packetNative, hmax]
      rw [hsent, List.append_nil]
      exact .refl _
    | some max =>
      obtain ⟨hunused, hfits⟩ := hnative conn pkt addr assocId max rfl hmax
      obtain ⟨k, hk⟩ := packetNative_prefix q conn sender pkt addr assocId hmax
      rw [hk]
      exact native_leads pkt k max.2 addr.2 hunused hfits
  | packetQuic pkt addr assocId =>
    obtain ⟨hunused, hfits⟩ := hquic pkt addr assocId rfl
    have hbits : (2 : ℕ) ^ 32 ≤ 2 ^ b.usizeBits := Nat.pow_le_pow_right (by decide) b.bits_ge
    exact quic_leads pkt (Nat.lt_of_lt_of_le (show 65535 < 2 ^ 32 by decide) hbits) addr.2 hunused hfits
  | dissociate assocId =>
    simp only [send]
    split_ifs
    · have hstep := Channel.Leads.single (b := b) (s := self.channel receiver)
        (a := .sendDissociate assocId) trivial
      have hflight := self.spawn_flight [(Header.dissociate ⟨assocId⟩).write]
      simp only [List.map_cons, List.map_nil, List.sum_cons, List.sum_nil, add_zero, wires_dissociate] at hflight
      rw [add_comm, Multiset.singleton_add] at hflight
      change Channel.Leads b _ { self.channel receiver with flight := _ ::ₘ self.flight } at hstep
      rw [← hflight] at hstep
      exact hstep
    · exact .refl _
  | authenticate auth =>
    simp only [send]
    split_ifs
    · have hflight := self.spawn_flight [(Header.authenticate auth).write]
      simp only [List.map_cons, List.map_nil, List.sum_cons, List.sum_nil, add_zero, wires_authenticate] at hflight
      exact Channel.Leads.lose (s := self.channel receiver) (le_of_eq hflight)
    · exact .refl _
  | heartbeat =>
    simp only [send]
    split_ifs
    · have hflight := self.datagrams_flight [(Header.heartbeat ⟨⟩).write]
      simp only [List.map_cons, List.map_nil, List.sum_cons, List.sum_nil, add_zero, wires_heartbeat] at hflight
      exact Channel.Leads.lose (s := self.channel receiver) (le_of_eq hflight)
    · exact .refl _
  | openUni j =>
    rw [send, openUni_channel]
    exact .refl _
  | write j num =>
    rw [send, write_channel]
    exact .refl _
  | finish j =>
    rw [send, finish_channel]
    exact .refl _
  | abandon j => exact abandon_leads self j

/-- As a sender, a side leaves what it has stored of the other direction, or ends an
association. -/
theorem send_model_leads (q : Datagrams b σ) (self other : Pipe) (model : UdpSessions (List UInt8))
    (side : Side) (a : SendStep σ) :
    Channel.Leads b (other.channel model) (other.channel (self.send q side model a).1) := by
  cases a with
  | packetNative conn pkt addr assocId =>
    rw [send, channel_eq (packetNative_model q conn model pkt addr assocId)]
    exact .refl _
  | packetQuic pkt addr assocId =>
    rw [send, channel_eq (sendPacket_buffers model assocId addr 65535)]
    exact .refl _
  | dissociate assocId =>
    simp only [send]
    split_ifs
    · have hbuf : (model.sendDissociate assocId).1.buffers = model.buffers.dissociate assocId :=
        remove_buffers model assocId
      have hstep := Channel.Leads.single (b := b) (s := other.channel model) (a := .forget assocId) trivial
      simp only [channel, hbuf]
      exact hstep
    · exact .refl _
  | authenticate auth => exact .refl _
  | heartbeat => exact .refl _
  | openUni j => exact .refl _
  | write j num => exact .refl _
  | finish j => exact .refl _
  | abandon j => exact .refl _

end Pipe

/-! ### The receiver -/

theorem handsOn_accepted (res : Inserted (List UInt8)) :
    Pipe.handsOn (accepted res) = (Answer.assembled res).delivery.toList := by
  rcases res with (_ | asm) | e | p
  · rfl
  · simp only [accepted, Answer.delivery]
    cases asm.assemble with
    | ok out => rfl
    | err e => cases e
    | panic p => rfl
  · rfl
  · rfl

theorem wires_of_unmarshalAt {dg : List UInt8} {pkt : Tuic.Packet} {pos : ℕ}
    (hok : Header.unmarshalAt dg = .ok (.packet pkt, pos)) :
    wires dg = if pos + pkt.size.toNat ≤ dg.length then
      {.fragment (pkt, (dg.drop pos).take pkt.size.toNat)} else 0 := by
  obtain ⟨rest, rfl, he, rfl⟩ := unmarshalAt_iff.1 hok
  rw [wires_of_write he, carried, List.drop_left, List.length_append]
  simp only [Nat.add_le_add_iff_left]

/-- A datagram that carries a packet is accepted as the packet, and nothing is stored
yet. -/
theorem acceptDatagram_spec (side : Side) (model : UdpSessions (List UInt8)) (dg : List UInt8) :
    (acceptDatagram side model dg).1.buffers = model.buffers ∧
      ∀ pkt, (acceptDatagram side model dg).2 = .ok (.packet pkt) → pkt.wires = wires dg := by
  cases side with
  | client =>
    refine ⟨rfl, fun pkt hok => ?_⟩
    simp only [acceptDatagram] at hok
    cases hu : Header.unmarshalAt dg with
    | err e => simp [acceptDatagramClient, hu] at hok
    | panic p => simp [acceptDatagramClient, hu] at hok
    | ok x =>
      obtain ⟨h, pos⟩ := x
      cases h with
      | packet header =>
        by_cases hses : (model.sessions.get header.assocId).isSome = true
        · rw [client_packet hu hses] at hok
          rw [wires_of_unmarshalAt hu]
          split_ifs at hok ⊢
          cases hok
          rfl
        · have hnone : model.sessions.get header.assocId = none := by simpa using hses
          simp [acceptDatagramClient, hu, UdpSessions.recvPacket, hnone] at hok
      | authenticate _ => simp [acceptDatagramClient, hu] at hok
      | connect _ => simp [acceptDatagramClient, hu] at hok
      | dissociate _ => simp [acceptDatagramClient, hu] at hok
      | heartbeat _ => simp [acceptDatagramClient, hu] at hok
  | server =>
    simp only [acceptDatagram]
    cases hu : Header.unmarshalAt dg with
    | err e => simp [acceptDatagramServer, hu]
    | panic p => simp [acceptDatagramServer, hu]
    | ok x =>
      obtain ⟨h, pos⟩ := x
      cases h with
      | packet header =>
        refine ⟨?_, fun pkt hok => ?_⟩
        · simp only [acceptDatagramServer, hu]
          exact entry_buffers model header.assocId
        · rw [server_packet hu] at hok
          rw [wires_of_unmarshalAt hu]
          split_ifs at hok ⊢
          cases hok
          rfl
      | authenticate _ => simp [acceptDatagramServer, hu]
      | connect _ => simp [acceptDatagramServer, hu]
      | dissociate _ => simp [acceptDatagramServer, hu]
      | heartbeat _ => simp [acceptDatagramServer, hu]

/-- `Packet::accept` lets the message of the packet arrive. -/
theorem accept_leads {s : Channel} {model : UdpSessions (List UInt8)} (pkt : Packet) (now : Instant)
    {f : Multiset Wire} (hbuf : s.buffers = model.buffers) (hflight : s.flight = pkt.wires + f) :
    Channel.Leads b s
      { s with
        buffers := (pkt.accept b now model).1.buffers
        flight := f
        delivered := ↑(Pipe.handsOn (pkt.accept b now model).2) + s.delivered } := by
  simp only [Packet.wires, Packet.accept] at hflight ⊢
  cases hread : pkt.src.read pkt.model.size.toNat with
  | none =>
    have hle : f ≤ s.flight := by
      rw [hflight]
      exact Multiset.le_add_left f _
    have hlose := Channel.Leads.lose (b := b) hle
    simp only [Pipe.handsOn, Multiset.coe_nil, zero_add, ← hbuf]
    exact hlose
  | some payload =>
    rw [hread] at hflight
    obtain ⟨hstep, hres⟩ := assemble_buffers b now model pkt.model payload
    have harrive := Channel.Leads.arrive (b := b) (pkt.model, payload) hflight now
    simp only [hbuf, ← hstep, ← hres, ← handsOn_accepted] at harrive
    exact harrive

namespace UniStream

variable {meets rest : ByteStream} {unwritten unread : List UInt8}

/-- What a poll has left is what it did not read. -/
theorem polled_bytes (unread : List UInt8) (meets rest : ByteStream) (reader reader' : StreamReader) :
    ((⟨unwritten, unread, reader⟩ : UniStream).polled meets rest reader').unread ++ unwritten =
      rest.bytes ++ (unread.drop meets.bytes.length ++ unwritten) := by
  simp only [polled, List.append_assoc]

theorem header_wires {p : Async UnmarshalError Header} (h : meets.bytes <+: unread) :
    (⟨unwritten, unread, .header p⟩ : UniStream).wires =
      readWires (p.toReader (meets.bytes ++ (unread.drop meets.bytes.length ++ unwritten))) := by
  rw [← bytes_of_meets h]
  rfl

/-- A reader that is suspended reads the same. -/
theorem polled_header_wires {p q : Async UnmarshalError Header} (h : meets.bytes <+: unread)
    (hpoll : p.poll meets = (q, rest)) (hq : q ≠ .ready (.err eof)) :
    ((⟨unwritten, unread, .header p⟩ : UniStream).polled meets rest (.header q)).wires =
      (⟨unwritten, unread, .header p⟩ : UniStream).wires := by
  have hsame := p.poll_append meets (unread.drop meets.bytes.length ++ unwritten)
  rw [hpoll] at hsame
  rw [header_wires h, ← hsame.resolve_left hq, ← polled_bytes unread meets rest (.header p) (.header q)]
  rfl

/-- A reader that has its header leaves what the header carries. -/
theorem header_wires_of_ready {p : Async UnmarshalError Header} {header : Header}
    (h : meets.bytes <+: unread) (hpoll : p.poll meets = (.ready (.ok header), rest)) :
    (⟨unwritten, unread, .header p⟩ : UniStream).wires =
      carried header (rest.bytes ++ (unread.drop meets.bytes.length ++ unwritten)) := by
  have hsame := p.poll_append meets (unread.drop meets.bytes.length ++ unwritten)
  rw [hpoll] at hsame
  rw [header_wires h, ← hsame.resolve_left nofun]
  rfl

theorem payload_wires {pkt : PacketRx} {p : Async IoError (List UInt8)} (h : meets.bytes <+: unread) :
    (⟨unwritten, unread, .payload pkt p⟩ : UniStream).wires =
      match p.toReader (meets.bytes ++ (unread.drop meets.bytes.length ++ unwritten)) with
      | .ok (data, _) => {.fragment (pkt, data)}
      | _ => 0 := by
  rw [← bytes_of_meets h]
  rfl

theorem polled_payload_wires {pkt : PacketRx} {p q : Async IoError (List UInt8)}
    (h : meets.bytes <+: unread) (hpoll : p.poll meets = (q, rest)) (hq : q ≠ .ready (.err eof)) :
    ((⟨unwritten, unread, .payload pkt p⟩ : UniStream).polled meets rest (.payload pkt q)).wires =
      (⟨unwritten, unread, .payload pkt p⟩ : UniStream).wires := by
  have hsame := p.poll_append meets (unread.drop meets.bytes.length ++ unwritten)
  rw [hpoll] at hsame
  rw [payload_wires h, ← hsame.resolve_left hq, ← polled_bytes unread meets rest (.payload pkt p) (.payload pkt q)]
  rfl

theorem payload_wires_of_ready {pkt : PacketRx} {p : Async IoError (List UInt8)} {data : List UInt8}
    (h : meets.bytes <+: unread) (hpoll : p.poll meets = (.ready (.ok data), rest)) :
    (⟨unwritten, unread, .payload pkt p⟩ : UniStream).wires = {.fragment (pkt, data)} := by
  have hsame := p.poll_append meets (unread.drop meets.bytes.length ++ unwritten)
  rw [hpoll] at hsame
  rw [payload_wires h, ← hsame.resolve_left nofun]
  rfl

/-- The task that goes on to the payload carries what the header carried. -/
theorem readExact_wires (pkt : PacketRx) (reader : StreamReader) :
    ((⟨unwritten, unread, reader⟩ : UniStream).polled meets rest
        (.payload pkt (Async.readExact pkt.size.toNat))).wires =
      carried (.packet pkt) (rest.bytes ++ (unread.drop meets.bytes.length ++ unwritten)) := by
  simp only [UniStream.wires, polled, List.append_assoc, Async.toReader_readExact, readExact, carried]
  split_ifs <;> rfl

end UniStream

namespace Pipe

variable {self : Pipe} {model : UdpSessions (List UInt8)} {side : Side} {i : ℕ} {stream : UniStream}

theorem streams_flight (h : self.streams[i]? = some stream) (stream' : UniStream) :
    ({ self with streams := self.streams.modify i fun _ => stream' } : Pipe).flight + stream.wires =
      self.flight + stream'.wires := by
  have hsum := Pool.sum_map_modify h UniStream.wires fun _ => stream'
  calc
    _ = (self.senders.map StreamSender.wires).sum +
          (((self.streams.modify i fun _ => stream').map UniStream.wires).sum + stream.wires) +
        (self.datagrams.map wires).sum + (self.packets.map Packet.wires).sum := by
      simp only [flight]
      abel
    _ = _ := by
      rw [hsum]
      simp only [flight]
      abel

/-- A task that ends loses what it was reading. -/
theorem done_leads (h : self.streams[i]? = some stream) (stream' : UniStream)
    (hle : stream'.wires ≤ stream.wires) : Channel.Leads b (self.channel model)
      (({ self with streams := self.streams.modify i fun _ => stream' } : Pipe).channel model) := by
  refine Channel.Leads.lose (s := self.channel model) ?_
  have hsum := streams_flight h stream'
  have hflight : ({ self with streams := self.streams.modify i fun _ => stream' } : Pipe).flight +
      stream.wires ≤ self.flight + stream.wires := by
    rw [hsum]
    exact add_le_add_right hle _
  exact le_of_add_le_add_right hflight

theorem loseDatagram_le (self : Pipe) (i : ℕ) :
    ({ self with datagrams := self.datagrams.eraseIdx i } : Pipe).flight ≤ self.flight := by
  cases h : self.datagrams[i]? with
  | none => rw [List.eraseIdx_of_length_le (List.getElem?_eq_none_iff.1 h)]
  | some dg =>
    simp only [flight, ← Pool.sum_map_eraseIdx h wires]
    exact add_le_add_left (add_le_add_right (Multiset.le_add_left _ _) _) _

theorem acceptDatagram_leads (self : Pipe) (model : UdpSessions (List UInt8)) (side : Side) (i : ℕ) :
    Channel.Leads b (self.channel model)
      ((self.acceptDatagram side model i).2.channel (self.acceptDatagram side model i).1) := by
  unfold acceptDatagram
  cases hdg : self.datagrams[i]? with
  | none => exact .refl _
  | some dg =>
    simp only
    have hsum := Pool.sum_map_eraseIdx hdg wires
    have hless := self.loseDatagram_le i
    obtain ⟨hbuf, hpkt⟩ := acceptDatagram_spec side model dg
    cases hacc : Quinn.acceptDatagram side model dg with
    | mk model' res =>
      rw [hacc] at hbuf hpkt
      cases res with
      | ok task =>
        cases task with
        | packet pkt =>
          have hflight : ({ self with
              datagrams := self.datagrams.eraseIdx i
              packets := self.packets ++ [pkt] } : Pipe).flight = self.flight := by
            simp only [flight, List.map_append, List.sum_append, List.map_cons, List.map_nil, List.sum_cons,
              List.sum_nil, ← hsum, hpkt pkt rfl]
            abel
          have hlose := Channel.Leads.lose (b := b) (s := self.channel model) (le_of_eq hflight)
          simp only
          rw [channel_eq hbuf]
          exact hlose
        | heartbeat =>
          simp only
          rw [channel_eq hbuf]
          exact Channel.Leads.lose (s := self.channel model) hless
      | err e =>
        simp only
        rw [channel_eq hbuf]
        exact Channel.Leads.lose (s := self.channel model) hless
      | panic p =>
        simp only
        rw [channel_eq hbuf]
        exact Channel.Leads.lose (s := self.channel model) hless

/-- What the header of a stream sets off: the task goes on to the payload, an
association ends, or the task is over. -/
theorem headerRead_leads (h : self.streams[i]? = some stream) (side : Side) {header : Header}
    {rest more : List UInt8} (hwires : stream.wires = carried header (rest ++ more))
    (stream' : StreamReader → UniStream)
    (hpayload : ∀ pkt, (stream' (.payload pkt (Async.readExact pkt.size.toNat))).wires =
      carried (.packet pkt) (rest ++ more))
    (hdone : (stream' .done).wires = 0) :
    Channel.Leads b (self.channel model) (({ self with
      streams := self.streams.modify i fun _ => stream' (headerRead side model header).2 } : Pipe).channel
        (headerRead side model header).1) := by
  have hover : Channel.Leads b (self.channel model) (({ self with
      streams := self.streams.modify i fun _ => stream' .done } : Pipe).channel model) := by
    refine done_leads h _ ?_
    rw [hdone]
    exact Multiset.zero_le _
  have hgoes : ∀ (pkt : PacketRx) model', header = .packet pkt → model'.buffers = model.buffers →
      Channel.Leads b (self.channel model) (({ self with
        streams := self.streams.modify i fun _ => stream' (.payload pkt (Async.readExact pkt.size.toNat)) } :
        Pipe).channel model') := by
    intro pkt model' hpkt hbuf
    rw [channel_eq hbuf]
    refine done_leads h _ (le_of_eq ?_)
    rw [hpayload, hwires, hpkt]
  cases side with
  | client =>
    cases header with
    | packet pkt =>
      cases hses : model.sessions.get pkt.assocId with
      | none => simpa [headerRead, acceptUniHeader, UdpSessions.recvPacket, hses] using hover
      | some session =>
        simpa [headerRead, acceptUniHeader, UdpSessions.recvPacket, hses] using hgoes pkt model rfl rfl
    | authenticate _ => exact hover
    | connect _ => exact hover
    | dissociate _ => exact hover
    | heartbeat _ => exact hover
  | server =>
    cases header with
    | packet pkt => exact hgoes pkt _ rfl (entry_buffers model pkt.assocId)
    | dissociate dissoc =>
      have hsum := streams_flight h (stream' .done)
      rw [hdone, add_zero, hwires, carried, add_comm] at hsum
      have harrive := Channel.Leads.arrive_dissociate (b := b) (s := self.channel model) hsum.symm
      have hbuf : (model.recvDissociate dissoc).1.buffers = model.buffers.dissociate dissoc.assocId :=
        remove_buffers model dissoc.assocId
      simp only [headerRead, acceptUniHeader, channel, hbuf]
      exact harrive
    | authenticate _ => exact hover
    | connect _ => exact hover
    | heartbeat _ => exact hover

theorem pollHeader_leads (self : Pipe) (model : UdpSessions (List UInt8)) (side : Side) (i : ℕ)
    (meets : ByteStream) : Channel.Leads b (self.channel model)
      ((self.pollHeader side model i meets).2.channel (self.pollHeader side model i meets).1) := by
  unfold pollHeader
  split
  · rename_i unwritten unread p h
    simp only
    split_ifs with hmeets
    · cases hpoll : p.poll meets with
      | mk q rest =>
        cases q with
        | ready res =>
          cases res with
          | ok header =>
            exact headerRead_leads h side (UniStream.header_wires_of_ready hmeets hpoll)
              (fun reader => UniStream.polled _ meets rest reader)
              (fun pkt => UniStream.readExact_wires pkt _) rfl
          | err e => exact done_leads h _ (Multiset.zero_le _)
          | panic r => exact done_leads h _ (Multiset.zero_le _)
        | reading room got next =>
          exact done_leads h _ (le_of_eq (UniStream.polled_header_wires hmeets hpoll nofun))
    · exact .refl _
  · exact .refl _

theorem pollPayload_leads (self : Pipe) (model : UdpSessions (List UInt8)) (i : ℕ) (meets : ByteStream)
    (now : Instant) : Channel.Leads b (self.channel model)
      ((self.pollPayload b model i meets now).2.channel (self.pollPayload b model i meets now).1) := by
  unfold pollPayload
  split
  · rename_i unwritten unread pkt p h
    simp only
    split_ifs with hmeets
    · cases hpoll : p.poll meets with
      | mk q rest =>
        cases q with
        | ready res =>
          cases res with
          | ok data =>
            have hsum := streams_flight h ((⟨unwritten, unread, .payload pkt p⟩ : UniStream).polled meets rest .done)
            have hzero : ((⟨unwritten, unread, .payload pkt p⟩ : UniStream).polled meets rest .done).wires = 0 :=
              rfl
            rw [hzero, add_zero, UniStream.payload_wires_of_ready hmeets hpoll, add_comm] at hsum
            exact accept_leads (s := self.channel model) ⟨pkt, .native data⟩ now rfl hsum.symm
          | err e => exact done_leads h _ (Multiset.zero_le _)
          | panic r => exact done_leads h _ (Multiset.zero_le _)
        | reading room got next =>
          exact done_leads h _ (le_of_eq (UniStream.polled_payload_wires hmeets hpoll nofun))
    · exact .refl _
  · exact .refl _

theorem packets_flight {pkt : Packet} (h : self.packets[i]? = some pkt) :
    self.flight = pkt.wires + ({ self with packets := self.packets.eraseIdx i } : Pipe).flight := by
  simp only [flight, ← Pool.sum_map_eraseIdx h Packet.wires]
  abel

theorem dropPacket_le (self : Pipe) (i : ℕ) :
    ({ self with packets := self.packets.eraseIdx i } : Pipe).flight ≤ self.flight := by
  cases h : self.packets[i]? with
  | none => rw [List.eraseIdx_of_length_le (List.getElem?_eq_none_iff.1 h)]
  | some pkt =>
    rw [packets_flight h]
    exact Multiset.le_add_left _ _

/-- The steps of a receiver are steps of the channel to its side. -/
theorem receive_leads (self : Pipe) (model : UdpSessions (List UInt8)) (side : Side) (a : ReceiveStep) :
    Channel.Leads b (self.channel model)
      ((self.receive b side model a).2.channel (self.receive b side model a).1) := by
  cases a with
  | loseDatagram i => exact Channel.Leads.lose (s := self.channel model) (self.loseDatagram_le i)
  | acceptDatagram i => exact acceptDatagram_leads self model side i
  | accept i now =>
    simp only [receive, accept]
    cases h : self.packets[i]? with
    | none => exact .refl _
    | some pkt => exact accept_leads (s := self.channel model) pkt now rfl (packets_flight h)
  | drop i => exact Channel.Leads.lose (s := self.channel model) (self.dropPacket_le i)
  | pollHeader i meets => exact pollHeader_leads self model side i meets
  | pollPayload i meets now => exact pollPayload_leads self model i meets now
  | reset i =>
    refine Channel.Leads.lose (s := self.channel model) ?_
    have hle : ((self.streams.modify i fun stream => { stream with reader := .done }).map
        UniStream.wires).sum ≤ (self.streams.map UniStream.wires).sum :=
      Pool.sum_map_modify_le fun _ _ => Multiset.zero_le _
    exact add_le_add_left (add_le_add_left (add_le_add_right hle _) _) _
  | collectGarbage now timeout =>
    have hstep := Channel.Leads.single (b := b) (s := self.channel model)
      (a := .collectGarbage now timeout) trivial
    simp only [receive, channel, collectGarbage_buffers]
    exact hstep

end Pipe

/-! ### Both directions -/

theorem Side.other_ne (side : Side) : side.other ≠ side := by
  cases side <;> nofun

theorem Side.eq_or_eq_other (side side' : Side) : side = side' ∨ side = side'.other := by
  cases side <;> cases side' <;> simp [Side.other]

/-- A step of the link is steps of the channel in either direction. -/
theorem step_leads (q : Datagrams b σ) (c : Link) (a : LinkStep σ) (hsafe : a.Safe q c) (side : Side) :
    Channel.Leads b (c.channel side) ((c.step q a).channel side) := by
  cases a with
  | send sender a =>
    simp only [Link.step, Link.channel, Link.put]
    rcases side.eq_or_eq_other sender with rfl | rfl
    · -- the side itself sends, in the other direction
      rw [Function.update_self, Function.update_of_ne (Side.other_ne side).symm]
      exact Pipe.send_model_leads q _ _ _ side a
    · rw [Function.update_self, Function.update_of_ne (Side.other_ne sender)]
      refine Pipe.send_leads q _ _ _ sender a ?_ ?_
      · rintro conn pkt addr assocId max rfl hmax
        exact hsafe max hmax
      · rintro pkt addr assocId rfl
        exact hsafe
  | receive receiver a =>
    simp only [Link.step, Link.channel, Link.put]
    by_cases hside : side = receiver
    · subst hside
      rw [Function.update_self, Function.update_self]
      exact Pipe.receive_leads _ _ side a
    · rw [Function.update_of_ne hside, Function.update_of_ne hside]
      exact .refl _

/-- In either direction the link refines the channel. -/
theorem link_refines_channel (q : Datagrams b σ) (side : Side) :
    (link q).Refines (fun c a => a.Safe q c) (channel b) (fun s a => a.Safe b s)
      (fun c s => c.channel side = s) where
  init := rfl
  step := by
    rintro c _ a rfl hsafe
    obtain ⟨as, hkeeps, hexec⟩ := step_leads q c a hsafe side
    exact ⟨as, hkeeps, hexec.symm⟩

/-- So each direction stays fair. -/
theorem fair_step {q : Datagrams b σ} {c : Link} {a : LinkStep σ} (hsafe : a.Safe q c)
    (h : ∀ side, (c.channel side).Fair b) (side : Side) : ((c.step q a).channel side).Fair b := by
  obtain ⟨as, hkeeps, hexec⟩ := step_leads q c a hsafe side
  rw [← hexec]
  exact hkeeps.invariant (P := fun s => s.Fair b) (fun s a ha h => h.step ha) (h side)

theorem fair_of_keeps {q : Datagrams b σ} {steps : List (LinkStep σ)}
    (hsafe : (link q).Keeps (fun c a => a.Safe q c) .init steps) (side : Side) :
    (((link q).exec .init steps).channel side).Fair b :=
  hsafe.invariant (P := fun c => ∀ side, (c.channel side).Fair b) (fun _ _ ha h => fair_step ha h)
    (fun _ => Channel.fair_init) side

/-- What a packet that was sent is when it is handed on. -/
def delivered (x : PacketTx × List UInt8) : Delivery := (x.2, x.1.addr.onWire, x.1.assocId)

theorem delivered_subperm {c : Link} {side : Side} (h : (c.channel side).Fair b) :
    (c.pipe side).delivered.Subperm ((c.pipe side).sends.map delivered) := by
  have hle := h.delivered_le
  simp only [Link.channel, Pipe.channel, List.map_map] at hle
  exact Multiset.coe_le.1 hle

/-- Whatever happens to bytes, datagrams and tasks on a link on which every packet is
sent under a key of which nothing is left: each side hands on packets that the other
one has sent, byte for byte, and none of them more often than it was sent. -/
theorem handed_on_was_sent (q : Datagrams b σ) (steps : List (LinkStep σ))
    (hsafe : (link q).Keeps (fun c a => a.Safe q c) .init steps) (side : Side) :
    let c := (link q).exec .init steps
    (c.pipe side).delivered.Subperm ((c.pipe side).sends.map delivered) := by
  exact delivered_subperm (fair_of_keeps hsafe side)

/-- A packet in mode `quic` whose header is read in two polls. -/
def twoPolls : List (LinkStep Build.release64.Usize) :=
  [.send .client (.packetQuic ⟨[1, 2], by decide⟩ ⟨localhost, trivial⟩ 1), .send .client (.openUni 0),
    .send .client (.write 0 6),
    .receive .server (.pollHeader 0 [.chunk [5, 2, 0, 1, 0, 0] nofun, .pending]),
    .send .client (.write 0 100), .send .client (.finish 0),
    .receive .server (.pollHeader 0 [.chunk [1, 0, 0, 2, 1, 127, 0, 0, 1, 0, 53] nofun, .pending]),
    .receive .server (.pollPayload 0 [.chunk [1] nofun, .chunk [2] nofun] 7)]

theorem twoPolls_safe : (link (limited .release64)).Keeps (fun c a => a.Safe (limited .release64) c) .init twoPolls := by
  refine ⟨⟨?_, .inl (by decide)⟩, trivial, trivial, trivial, trivial, trivial, trivial, trivial, trivial⟩
  rintro (⟨frag, hf, -⟩ | hbuf)
  · exact absurd hf (Multiset.notMem_zero _)
  · exact hbuf rfl

theorem handed_on_twoPolls :
    let c := (link (limited .release64)).exec .init twoPolls
    (c.pipe .server).delivered = [([1, 2], localhost, 1)] ∧
      (c.pipe .server).delivered.Subperm ((c.pipe .server).sends.map delivered) :=
  ⟨by decide +kernel, handed_on_was_sent (limited .release64) twoPolls twoPolls_safe .server⟩

end Tuic.Quinn
