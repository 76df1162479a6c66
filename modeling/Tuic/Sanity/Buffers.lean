import Tuic.Sanity.Buffer

/-! The table of buffers: every stored buffer of every reachable connection is
well formed, and what `assemble` does to the table is decided by whether the
current buffer admits the fragment. -/

namespace Tuic.Model

open Lib Lib.Slots

variable {B : Type}

def Buffers.WF (t : Buffers B) : Prop := ∀ key p, t.get key = some p → p.WF

theorem empty_wf : Buffers.WF (Table.empty : Buffers B) := by
  intro key p h
  cases h

theorem Buffers.WF.dissociate {t : Buffers B} (h : t.WF) (assocId : UInt16) :
    (t.dissociate assocId).WF := by
  intro key p h'
  rw [Buffers.get_dissociate] at h'
  split_ifs at h'
  exact h key p h'

theorem get_collectGarbage {t : Buffers B} {now : Instant} {timeout : Duration} {key : Key}
    {p : PacketBuffer B} : (t.collectGarbage now timeout).get key = some p ↔
      t.get key = some p ∧ now - p.cTime < timeout := by
  simp [Buffers.collectGarbage, Option.filter_eq_some_iff]

theorem Buffers.WF.collectGarbage {t : Buffers B} (h : t.WF) (now : Instant) (timeout : Duration) :
    (t.collectGarbage now timeout).WF :=
  fun key p h' => h key p (get_collectGarbage.1 h').1

theorem Buffers.WF.current {t : Buffers B} (h : t.WF) (now : Instant) (pkt : PacketRx) :
    (t.current now pkt).WF := by
  unfold Buffers.current
  cases hp : t.get pkt.key with
  | none => exact new_wf now pkt.fragTotal
  | some p => exact h _ p hp

section

variable [AsRef B] {b : Build} {t : Buffers B} {now : Instant} {pkt : PacketRx} {data : B}

theorem assemble_admitted (hwf : t.WF) (hadm : (t.current now pkt).Admits pkt data) :
    t.assemble b now pkt data =
      if Full ((t.current now pkt).fill pkt data).buf then
        (t.remove pkt.key, .ok (some ⟨((t.current now pkt).fill pkt data).buf,
          ((t.current now pkt).fill pkt data).addr, pkt.assocId⟩))
      else (t.insert pkt.key ((t.current now pkt).fill pkt data), .ok none) := by
  have hins := insert_admitted (b := b) (hwf.current now pkt) hadm
  unfold PacketBuffer.insertPkt at hins
  unfold Buffers.assemble
  rw [hins]
  split_ifs <;> rfl

theorem assemble_refused (hadm : ¬ (t.current now pkt).Admits pkt data) :
    (t.assemble b now pkt data).1 = t.insert pkt.key (t.current now pkt) ∧
      (t.current now pkt).Refuses pkt data (t.assemble b now pkt data).2 := by
  obtain ⟨hbuf, href⟩ := insert_refused (b := b) hadm
  unfold PacketBuffer.insertPkt at hbuf href
  unfold Buffers.assemble
  generalize (t.current now pkt).insert b pkt.assocId pkt.fragTotal pkt.fragId pkt.size pkt.addr data
    = r at hbuf href
  obtain ⟨buf, res⟩ := r
  obtain rfl : buf = t.current now pkt := hbuf
  rcases res with o | e | p
  · exact absurd rfl (href.not_ok o)
  · exact ⟨rfl, href⟩
  · exact ⟨rfl, href⟩

/-- What is stored after `assemble`: what was, but for the buffer of the key, which
is the filled one or the current one. -/
theorem get_assemble (hwf : t.WF) {key : Key} {p : PacketBuffer B}
    (h : (t.assemble b now pkt data).1.get key = some p) :
    key ≠ pkt.key ∧ t.get key = some p ∨ key = pkt.key ∧
      ((t.current now pkt).Admits pkt data ∧ ¬ Full ((t.current now pkt).fill pkt data).buf ∧
          p = (t.current now pkt).fill pkt data ∨
        ¬ (t.current now pkt).Admits pkt data ∧ p = t.current now pkt) := by
  by_cases hadm : (t.current now pkt).Admits pkt data
  · rw [assemble_admitted hwf hadm] at h
    split_ifs at h with hfull
    · rw [Table.get_remove] at h
      split_ifs at h with hkey
      exact .inl ⟨hkey, h⟩
    · rw [Table.get_insert] at h
      split_ifs at h with hkey
      · exact .inr ⟨hkey, .inl ⟨hadm, hfull, (Option.some.inj h).symm⟩⟩
      · exact .inl ⟨hkey, h⟩
  · rw [(assemble_refused hadm).1, Table.get_insert] at h
    split_ifs at h with hkey
    · exact .inr ⟨hkey, .inr ⟨hadm, (Option.some.inj h).symm⟩⟩
    · exact .inl ⟨hkey, h⟩

/-- A fragment is accepted with `Ok` exactly if the current buffer admits it. -/
theorem assemble_ok_iff (hwf : t.WF) :
    (∃ o, (t.assemble b now pkt data).2 = .ok o) ↔ (t.current now pkt).Admits pkt data := by
  constructor
  · rintro ⟨o, ho⟩
    by_contra hadm
    exact (assemble_refused hadm).2.not_ok o ho
  · intro hadm
    rw [assemble_admitted hwf hadm]
    split_ifs <;> exact ⟨_, rfl⟩

/-- What `assemble` returns as complete is complete. -/
theorem assemble_complete (hwf : t.WF) {asm : Assemblable B}
    (h : (t.assemble b now pkt data).2 = .ok (some asm)) :
    (t.current now pkt).Admits pkt data ∧ Full asm.buf ∧ asm.addr ≠ .none ∧
      asm = ⟨((t.current now pkt).fill pkt data).buf, ((t.current now pkt).fill pkt data).addr,
        pkt.assocId⟩ := by
  have hadm := (assemble_ok_iff hwf).1 ⟨_, h⟩
  rw [assemble_admitted hwf hadm] at h
  split_ifs at h with hfull
  · have heq := Option.some.inj (Outcome.ok.inj h)
    subst heq
    refine ⟨hadm, hfull, fun hnone => ?_, rfl⟩
    -- an empty address would leave slot 0 empty
    rcases (fill_slot_zero (hwf.current now pkt) hadm).1 hnone with h0 | h0
    · have hlt := (List.getElem?_eq_some_iff.1 hadm.free).1
      have hlen : ((t.current now pkt).fill pkt data).buf.length = (t.current now pkt).buf.length := by
        simp [PacketBuffer.fill]
      have := List.getElem?_eq_none_iff.1 h0
      omega
    · cases hfull none (List.mem_of_getElem? h0)
  · cases Outcome.ok.inj h

theorem Buffers.WF.assemble (hwf : t.WF) : Buffers.WF (t.assemble b now pkt data).1 := by
  intro key p h
  rcases get_assemble hwf h with ⟨-, hold⟩ | ⟨-, ⟨hadm, hfull, rfl⟩ | ⟨-, rfl⟩⟩
  · exact hwf key p hold
  · exact fill_wf (hwf.current now pkt) hadm hfull
  · exact hwf.current now pkt

theorem Buffers.WF.step (hwf : t.WF) (call : Call B) : (t.step b call).WF := by
  cases call with
  | sendPacket assocId addr max => exact hwf
  | recvPacket header => exact hwf
  | recvPacketUnrestricted header => exact hwf
  | assemble now pkt data => exact hwf.assemble
  | sendDissociate assocId => exact hwf.dissociate assocId
  | recvDissociate header => exact hwf.dissociate header.assocId
  | collectGarbage now timeout => exact hwf.collectGarbage now timeout

theorem assemble_res (s : UdpSessions B) (now : Instant) (pkt : PacketRx) (data : B) :
    (s.assemble b now pkt data).2 =
      ((s.buffers.current now pkt).insertPkt b pkt data).2 := by
  rw [(assemble_buffers b now s pkt data).2, Buffers.assemble]
  unfold PacketBuffer.insertPkt
  generalize (s.buffers.current now pkt).insert b pkt.assocId pkt.fragTotal pkt.fragId pkt.size
    pkt.addr data = r
  obtain ⟨buf, res⟩ := r
  rcases res with (_ | _) | _ | _ <;> rfl

theorem outAt_of_assemble {calls : List (Call B)} {i : ℕ}
    (h : calls[i]? = some (.assemble now pkt data)) :
    (connection b).outAt calls i =
      some (.assembled (((connection b).stateAt calls i).assemble b now pkt data).2) :=
  (connection b).outAt_eq h

theorem assemble_wrong_size (s : UdpSessions B) (now : Instant)
    (hsize : (asRef data).length ≠ pkt.size.toNat) :
    (s.assemble b now pkt data).2 = .panic .assertFailed := by
  rw [assemble_res, PacketBuffer.insertPkt, PacketBuffer.insert, if_pos hsize]

/-- Also when some of the calls panicked. -/
theorem reachable_wf {s : UdpSessions B} (hs : (connection b).Reachable s) : s.buffers.WF := by
  refine hs.invariant (P := fun s => s.buffers.WF) empty_wf fun s call hwf => ?_
  change (Model.step b s call).1.buffers.WF
  rw [step_buffers]
  exact hwf.step call

end

/-! ### A packet half received -/

/-- The first of two fragments has arrived. -/
def halfReceived (b : Build) : UdpSessions (List UInt8) :=
  let first : Packet := ⟨1, 0, 2, 0, 1, .socketAddress (.v4 ⟨127, 0, 0, 1⟩ 53)⟩
  (connection b).exec .new [.recvPacketUnrestricted first, .assemble 0 first [7]]

theorem halfReceived_reachable (b : Build) : (connection b).Reachable (halfReceived b) := ⟨_, rfl⟩

end Tuic.Model
