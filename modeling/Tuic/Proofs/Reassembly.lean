import Tuic.Sanity.Buffers
import Tuic.Spec.Quinn

/-! What any peer can make the reassembler do: the representation invariant of
the session table in every reachable state, and when a fragment makes it panic. -/

namespace Tuic.Model

open Lib Lib.Slots

variable {B : Type} [AsRef B] {b : Build}

omit [AsRef B] in
theorem recvPacketUnrestricted_buffers (s : UdpSessions B) (header : Packet) :
    (s.recvPacketUnrestricted header).1.buffers = s.buffers :=
  entry_buffers s header.assocId

/-- A stored buffer has no slot for a header that passes every check. -/
def NoSlot (s : UdpSessions B) (pkt : PacketRx) : Prop :=
  ∃ p, s.buffers.get pkt.key = some p ∧ pkt.WellPlaced ∧ p.fragTotal ≤ pkt.fragId

omit [AsRef B] in
theorem current_slot_iff (s : UdpSessions B) (now : Instant) (pkt : PacketRx) :
    (pkt.WellPlaced → pkt.fragId < (s.buffers.current now pkt).fragTotal) ↔ ¬ NoSlot s pkt := by
  unfold Buffers.current NoSlot
  cases hp : s.buffers.get pkt.key with
  | none =>
    simp only [Option.getD_none, reduceCtorEq, false_and, exists_false, not_false_iff, iff_true]
    exact fun h => h.1
  | some p => simp

theorem assemble_returns_iff {s : UdpSessions B} (hwf : s.buffers.WF) (now : Instant) (pkt : PacketRx)
    (data : B) (hsize : (asRef data).length = pkt.size.toNat) :
    (s.assemble b now pkt data).2.Returns ↔ ¬ NoSlot s pkt := by
  rw [assemble_res, insert_returns_iff (hwf.current now pkt), ← current_slot_iff s now pkt]
  simp [hsize]

/-- The calls of a run hand `assemble` payloads of the announced size. -/
def Sized (calls : List (Call B)) : Prop :=
  ∀ now pkt data, .assemble now pkt data ∈ calls → (asRef data).length = pkt.size.toNat

/-- In every reachable state, receiving and assembling a fragment of the announced
size returns exactly if no buffer of the key is too short for it; and a whole run
never panics exactly if this is so at each of its steps. The first fragment sizes
the buffer, also when it is refused; later ones are checked against their own
total only. -/
theorem recv_assemble_returns_iff :
    (∀ s, (connection b).Reachable s → ∀ (now : Instant) (header : Packet) (data : B),
      (asRef data).length = header.size.toNat →
      (((s.recvPacketUnrestricted header).1.assemble b now (s.recvPacketUnrestricted header).2
        data).2.Returns ↔ ¬ NoSlot s header)) ∧
    ∀ calls : List (Call B), Sized calls →
      ((∀ (i : ℕ) res, (connection b).outAt calls i = some (.assembled res) → res.Returns) ↔
        ∀ (i : ℕ) now pkt data, calls[i]? = some (.assemble now pkt data) →
          ¬ NoSlot ((connection b).stateAt calls i) pkt) := by
  refine ⟨fun s hs now header data hsize => ?_, fun calls hsized => ?_⟩
  · have hbuf := recvPacketUnrestricted_buffers s header
    have hwf : (s.recvPacketUnrestricted header).1.buffers.WF := hbuf ▸ reachable_wf hs
    refine (assemble_returns_iff hwf now header data hsize).trans ?_
    unfold NoSlot
    rw [hbuf]
  · have hstep : ∀ (i : ℕ) now pkt data, calls[i]? = some (.assemble now pkt data) →
        ((((connection b).stateAt calls i).assemble b now pkt data).2.Returns ↔
          ¬ NoSlot ((connection b).stateAt calls i) pkt) := fun i now pkt data hi =>
      assemble_returns_iff (reachable_wf ((connection b).stateAt_reachable calls i)) now pkt data
        (hsized now pkt data (List.mem_of_getElem? hi))
    constructor
    · intro h i now pkt data hi
      exact (hstep i now pkt data hi).1 (h i _ ((connection b).outAt_eq hi))
    · intro h i res hres
      obtain ⟨call, hi, hout⟩ := (connection b).outAt_some hres
      cases call with
      | assemble now pkt data =>
        obtain rfl : _ = res := Answer.assembled.inj hout
        exact (hstep i now pkt data hi).2 (h i now pkt data hi)
      | _ => cases hout

/-- A fragment of another total meets the buffer of the first of two. -/
theorem recv_assemble_returns_half :
    (∃ p, (halfReceived .debug64).buffers.get (1, 0) = some p ∧ p.fragTotal = 2) ∧
      (((halfReceived .debug64).recvPacketUnrestricted ⟨1, 0, 5, 1, 3, .none⟩).1.assemble
        .debug64 1 ⟨1, 0, 5, 1, 3, .none⟩ [7, 8, 9]).2.Returns := by
  refine ⟨⟨_, rfl, rfl⟩, (recv_assemble_returns_iff.1 _ (halfReceived_reachable _) 1
    ⟨1, 0, 5, 1, 3, .none⟩ [7, 8, 9] rfl).2 ?_⟩
  rintro ⟨p, hp, -, hle⟩
  cases hp
  exact absurd hle (by decide)

/-- A refused fragment of total 0 leaves a buffer without slots; the next fragment
of the key, of total 5, is past its end. -/
theorem recv_assemble_panics :
    let s := ((connection (B := List UInt8) .debug64).exec .new
      [.recvPacketUnrestricted ⟨1, 0, 0, 0, 0, .none⟩, .assemble 0 ⟨1, 0, 0, 0, 0, .none⟩ []])
    (connection .debug64).Reachable s ∧
      ((s.recvPacketUnrestricted ⟨1, 0, 5, 3, 1, .none⟩).1.assemble .debug64 0 ⟨1, 0, 5, 3, 1, .none⟩
        [7]).2 = .panic .outOfBounds :=
  ⟨⟨_, rfl⟩, rfl⟩

/-! ### The representation invariant -/

/-- The checks before the free slot are all that can panic. -/
theorem insert_panic {p : PacketBuffer B} (hwf : p.WF) {pkt : PacketRx} {data : B} {e : Panic}
    (h : (p.insertPkt b pkt data).2 = .panic e) : e = .assertFailed ∨ e = .outOfBounds := by
  by_cases hadm : p.Admits pkt data
  · rw [insert_admitted hwf hadm] at h
    split_ifs at h
  · have href := (insert_refused (b := b) hadm).2
    rw [h] at href
    cases href with
    | wrongSize => exact .inl rfl
    | noSlot => exact .inr rfl

theorem assemble_panic {s : UdpSessions B} (hwf : s.buffers.WF) {now : Instant} {pkt : PacketRx}
    {data : B} {e : Panic} (h : (s.assemble b now pkt data).2 = .panic e) :
    e = .assertFailed ∨ e = .outOfBounds := by
  rw [assemble_res] at h
  exact insert_panic (hwf.current now pkt) h

theorem assemble_some {s : UdpSessions B} (hwf : s.buffers.WF) {now : Instant} {pkt : PacketRx}
    {data : B} {asm : Assemblable B} (h : (s.assemble b now pkt data).2 = .ok (some asm)) :
    Full asm.buf ∧ asm.addr ≠ .none := by
  rw [(assemble_buffers b now s pkt data).2] at h
  obtain ⟨-, hfull, haddr, -⟩ := assemble_complete hwf h
  exact ⟨hfull, haddr⟩

theorem Assemblable.assemble_full {asm : Assemblable B} (h : Full asm.buf) :
    ∃ payload, asm.assemble = .ok (payload, asm.addr, asm.assocId) := by
  obtain ⟨data, hdata⟩ : ∃ data, (unwrapAll asm.buf : Outcome Empty _) = .ok data := h.unwrapAll
  exact ⟨data.flatMap asRef, by simp [Assemblable.assemble, hdata]⟩

omit [AsRef B] in
theorem sessions_wf {s : UdpSessions B} (hwf : s.buffers.WF) {assocId pktId : UInt16}
    {session : UdpSession B} {p : PacketBuffer B} (hs : s.sessions.get assocId = some session)
    (hp : session.pktBuf.get pktId = some p) : p.WF := by
  refine hwf (assocId, pktId) p ?_
  simp [UdpSessions.get_buffers, hs, hp]

/-- An answer of `assemble` that the invariant allows. -/
theorem accepted_outcome {res : Inserted (List UInt8)}
    (hsome : ∀ asm, res = .ok (some asm) → Full asm.buf ∧ asm.addr ≠ .none)
    (hpanic : ∀ e, res = .panic e → e = .assertFailed ∨ e = .outOfBounds) :
    (∀ payload addr assocId, Quinn.accepted res = .ok (some (payload, addr, assocId)) →
      addr ≠ .none) ∧ Quinn.accepted res ≠ .panic .unreachable := by
  rcases res with (_ | asm) | e | p
  · exact ⟨nofun, nofun⟩
  · obtain ⟨hfull, haddr⟩ := hsome asm rfl
    obtain ⟨bytes, hasm⟩ := Assemblable.assemble_full hfull
    simp only [Quinn.accepted, hasm]
    refine ⟨fun payload addr assocId h => ?_, nofun⟩
    cases h
    exact haddr
  · exact ⟨nofun, nofun⟩
  · refine ⟨nofun, fun h => ?_⟩
    cases h
    rcases hpanic _ rfl with h | h <;> cases h

theorem accept_outcome {s : UdpSessions (List UInt8)} (hwf : s.buffers.WF) (now : Instant)
    (pkt : Quinn.Packet) :
    (∀ payload addr assocId, (pkt.accept b now s).2 = .ok (some (payload, addr, assocId)) →
      addr ≠ .none) ∧ (pkt.accept b now s).2 ≠ .panic .unreachable := by
  unfold Quinn.Packet.accept
  cases pkt.src.read pkt.model.size.toNat with
  | none => exact ⟨nofun, nofun⟩
  | some payload => exact accepted_outcome (fun _ => assemble_some hwf) fun _ => assemble_panic hwf

/-- The `unreachable!()` of the client needs a packet without an address. -/
theorem handlePacket_reaches {s : UdpSessions (List UInt8)} (hwf : s.buffers.WF) (now : Instant)
    (logged : Bool) (pkt : Quinn.Packet) :
    (Quinn.handlePacket b now logged s pkt).2 ≠ .panic .unreachable := by
  obtain ⟨haddr, hpanic⟩ := accept_outcome (b := b) hwf now pkt
  unfold Quinn.handlePacket
  split
  · rename_i p hp
    cases logged with
    | false => cases hp
    | true =>
      simp only [if_true, Build.addU8] at hp
      split_ifs at hp
      cases hp
      simp
  · generalize pkt.accept b now s = r at haddr hpanic
    obtain ⟨s', (_ | ⟨payload, addr, assocId⟩) | e | p⟩ := r
    · simp
    · cases addr with
      | none => exact absurd rfl (haddr payload .none assocId rfl)
      | domainAddress domain port => simp
      | socketAddress addr => simp
    · simp
    · simpa using hpanic

/-- The representation invariant of the session table, in every state that calls
can reach from a new connection, and what it rules out: the counter does not
overflow, what is complete has every slot filled and an address, so taking it
apart does not panic, and the client never meets a packet without an address. -/
theorem reachable_representation :
    (∀ s : UdpSessions B, (connection b).Reachable s →
      (∀ assocId session pktId p, s.sessions.get assocId = some session →
        session.pktBuf.get pktId = some p →
        p.buf.length = p.fragTotal.toNat ∧ p.fragReceived.toNat = filled p.buf ∧
          (p.addr = .none ↔ p.buf[0]? = none ∨ p.buf[0]? = some none) ∧
          (0 < p.fragTotal → ¬ Full p.buf)) ∧
      ∀ now pkt data, (s.assemble b now pkt data).2 ≠ .panic .overflow ∧
        ∀ asm, (s.assemble b now pkt data).2 = .ok (some asm) →
          Full asm.buf ∧ asm.addr ≠ .none ∧ asm.assemble.Returns) ∧
    ∀ s : UdpSessions (List UInt8), (connection b).Reachable s →
      ∀ now logged pkt, (Quinn.handlePacket b now logged s pkt).2 ≠ .panic .unreachable := by
  refine ⟨fun s hs => ?_, fun s hs now logged pkt => handlePacket_reaches (reachable_wf hs) now logged pkt⟩
  have hwf := reachable_wf hs
  refine ⟨fun assocId session pktId p hses hp => ?_, fun now pkt data => ⟨fun h => ?_, fun asm h => ?_⟩⟩
  · have hp := sessions_wf hwf hses hp
    refine ⟨hp.len, hp.received, hp.addr, fun hpos => hp.unfinished fun h0 => ?_⟩
    rw [h0] at hpos
    exact absurd hpos (by decide)
  · rcases assemble_panic hwf h with h | h <;> cases h
  · obtain ⟨hfull, haddr⟩ := assemble_some hwf h
    obtain ⟨payload, hasm⟩ := Assemblable.assemble_full hfull
    exact ⟨hfull, haddr, hasm ▸ trivial⟩

theorem reachable_representation_half :
    (∃ session p, (halfReceived .release64).sessions.get 1 = some session ∧
      session.pktBuf.get 0 = some p ∧ p.buf = [some [7], none] ∧
      p.buf.length = p.fragTotal.toNat ∧ p.fragReceived.toNat = filled p.buf ∧
      (p.addr = .none ↔ p.buf[0]? = none ∨ p.buf[0]? = some none) ∧
      (0 < p.fragTotal → ¬ Full p.buf)) ∧
    ∃ asm, ((halfReceived .release64).assemble .release64 1 ⟨1, 0, 2, 1, 2, .none⟩ [8, 9]).2 =
        .ok (some asm) ∧
      Full asm.buf ∧ asm.addr ≠ .none ∧ asm.assemble.Returns := by
  obtain ⟨hstored, hdone⟩ := reachable_representation.1 _ (halfReceived_reachable .release64)
  exact ⟨⟨_, _, rfl, rfl, rfl, hstored 1 _ 0 _ rfl rfl⟩, _, rfl,
    (hdone 1 ⟨1, 0, 2, 1, 2, .none⟩ [8, 9]).2 _ rfl⟩

end Tuic.Model
