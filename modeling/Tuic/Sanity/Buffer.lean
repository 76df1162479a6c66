import Mathlib.Tactic.SplitIfs
import Tuic.Spec.Buffers

/-! One packet buffer: the invariant that every stored buffer satisfies, when a
fragment is admitted, and what an admitted fragment does. The received counter
is a count of filled slots, so that completion is `Slots.Full`. -/

namespace Tuic.Model

open Lib Lib.Slots

variable {B : Type}

structure PacketBuffer.WF (p : PacketBuffer B) : Prop where
  len : p.buf.length = p.fragTotal.toNat
  received : p.fragReceived.toNat = filled p.buf
  addr : p.addr = .none ↔ p.buf[0]? = none ∨ p.buf[0]? = some none
  unfinished : p.fragTotal ≠ 0 → ¬ Full p.buf

/-- The fragment passes every check of `insert` and its slot is free. -/
structure PacketBuffer.Admits [AsRef B] (p : PacketBuffer B) (pkt : PacketRx) (data : B) : Prop where
  size : (asRef data).length = pkt.size.toNat
  id : pkt.fragId < pkt.fragTotal
  addr : pkt.addr = .none ↔ pkt.fragId ≠ 0
  free : p.buf[pkt.fragId.toNat]? = some none

/-- The buffer with an admitted fragment in its slot. -/
def PacketBuffer.fill (p : PacketBuffer B) (pkt : PacketRx) (data : B) : PacketBuffer B :=
  { p with
    buf := p.buf.set pkt.fragId.toNat (some data)
    fragReceived := p.fragReceived + 1
    addr := if pkt.fragId = 0 then pkt.addr else p.addr }

/-- `insert` on the fields of a packet. -/
abbrev PacketBuffer.insertPkt [AsRef B] (b : Build) (p : PacketBuffer B) (pkt : PacketRx) (data : B) :
    PacketBuffer B × Inserted B :=
  p.insert b pkt.assocId pkt.fragTotal pkt.fragId pkt.size pkt.addr data

theorem uint8_eq_zero {x : UInt8} : x = 0 ↔ x.toNat = 0 := by
  rw [← UInt8.toNat_inj]
  rfl

theorem new_wf (now : Instant) (fragTotal : UInt8) : (PacketBuffer.new now fragTotal : PacketBuffer B).WF where
  len := by simp [PacketBuffer.new]
  received := by simp [PacketBuffer.new, filled_replicate]
  addr := by
    simp only [PacketBuffer.new, true_iff]
    cases h : fragTotal.toNat with
    | zero => exact .inl rfl
    | succ n => exact .inr rfl
  unfinished := by
    intro hne hfull
    have hpos : fragTotal.toNat ≠ 0 := fun h => hne (uint8_eq_zero.2 h)
    have := hfull none (by simp [PacketBuffer.new, hpos])
    cases this

section

variable [AsRef B] {b : Build} {p : PacketBuffer B} {pkt : PacketRx} {data : B}

theorem PacketBuffer.WF.received_lt (hwf : p.WF) (hadm : p.Admits pkt data) :
    p.fragReceived.toNat + 1 ≤ p.fragTotal.toNat := by
  rw [hwf.received, ← hwf.len]
  exact filled_lt hadm.free

/-- The counter does not wrap on an admitted fragment. -/
theorem fill_received (hwf : p.WF) (hadm : p.Admits pkt data) :
    (p.fill pkt data).fragReceived.toNat = p.fragReceived.toNat + 1 := by
  have hlt := hwf.received_lt hadm
  have ht := p.fragTotal.toNat_lt
  simp only [PacketBuffer.fill, UInt8.toNat_add]
  change (p.fragReceived.toNat + 1) % 256 = _
  omega

theorem fill_complete_iff (hwf : p.WF) (hadm : p.Admits pkt data) :
    (p.fill pkt data).fragReceived = p.fragTotal ↔ Full (p.fill pkt data).buf := by
  rw [← filled_eq_length, ← UInt8.toNat_inj, fill_received hwf hadm, hwf.received, ← hwf.len]
  simp only [PacketBuffer.fill, filled_set hadm.free, List.length_set]

theorem fill_slot_zero (hwf : p.WF) (hadm : p.Admits pkt data) :
    (p.fill pkt data).addr = .none ↔
      (p.fill pkt data).buf[0]? = none ∨ (p.fill pkt data).buf[0]? = some none := by
  obtain ⟨hlt, -⟩ := List.getElem?_eq_some_iff.1 hadm.free
  by_cases h0 : pkt.fragId = 0
  · have hz := uint8_eq_zero.1 h0
    have hset : (p.fill pkt data).buf[0]? = some (some data) := by
      rw [hz] at hlt
      simp [PacketBuffer.fill, hz, List.getElem?_set_self hlt]
    have haddr : (p.fill pkt data).addr ≠ .none := by
      rw [PacketBuffer.fill, if_pos h0]
      exact fun h => hadm.addr.1 h h0
    simp [hset, haddr]
  · have hz : pkt.fragId.toNat ≠ 0 := fun h => h0 (uint8_eq_zero.2 h)
    simp only [PacketBuffer.fill, h0, if_false, List.getElem?_set_ne hz]
    exact hwf.addr

theorem fill_wf (hwf : p.WF) (hadm : p.Admits pkt data) (hfull : ¬ Full (p.fill pkt data).buf) :
    (p.fill pkt data).WF where
  len := by simpa [PacketBuffer.fill] using hwf.len
  received := by
    rw [fill_received hwf hadm, hwf.received]
    exact (filled_set hadm.free data).symm
  addr := fill_slot_zero hwf hadm
  unfinished := fun _ => hfull

/-- What an admitted fragment does: it completes the packet or fills its slot. -/
theorem insert_admitted (hwf : p.WF) (hadm : p.Admits pkt data) :
    p.insertPkt b pkt data =
      if Full (p.fill pkt data).buf then
        ({ p.fill pkt data with buf := [], addr := .none },
          .ok (some ⟨(p.fill pkt data).buf, (p.fill pkt data).addr, pkt.assocId⟩))
      else (p.fill pkt data, .ok none) := by
  have hadd : p.fragReceived.toNat + (1 : UInt8).toNat < 256 := by
    have hlt := hwf.received_lt hadm
    have ht := p.fragTotal.toNat_lt
    change p.fragReceived.toNat + 1 < 256
    omega
  have haddr0 : ¬ (pkt.fragId = 0 ∧ pkt.addr.isNone = true) := fun h =>
    hadm.addr.1 (Address.isNone_iff.1 h.2) h.1
  have haddr1 : ¬ (pkt.fragId ≠ 0 ∧ ¬ pkt.addr.isNone = true) := fun h =>
    h.2 (Address.isNone_iff.2 (hadm.addr.2 h.1))
  have hacc : p.insertPkt b pkt data =
      p.accept b pkt.assocId pkt.fragId pkt.addr data := by
    unfold PacketBuffer.insertPkt PacketBuffer.insert
    rw [if_neg (not_not.2 hadm.size), if_neg (UInt8.not_le.2 hadm.id), if_neg haddr0, if_neg haddr1,
      hadm.free]
  rw [hacc]
  unfold PacketBuffer.accept
  simp only [b.addU8_of_lt hadd]
  change (if (p.fill pkt data).fragReceived = p.fragTotal then _ else _) = _
  simp only [fill_complete_iff hwf hadm]
  by_cases hf : Full (p.fill pkt data).buf
  · rw [if_pos hf, if_pos hf]
    rfl
  · rw [if_neg hf, if_neg hf]
    rfl

/-- The checks on the header alone. -/
def PacketRx.WellPlaced (pkt : PacketRx) : Prop :=
  pkt.fragId < pkt.fragTotal ∧ (pkt.addr = .none ↔ pkt.fragId ≠ 0)

/-- Why a fragment is not admitted, and what `insert` answers to it. -/
inductive PacketBuffer.Refuses [AsRef B] (p : PacketBuffer B) (pkt : PacketRx) (data : B) :
    Inserted B → Prop
  | wrongSize (h : (asRef data).length ≠ pkt.size.toNat) : Refuses p pkt data (.panic .assertFailed)
  | misplaced (hsize : (asRef data).length = pkt.size.toNat) (h : ¬ pkt.WellPlaced)
      (e : AssembleError) : Refuses p pkt data (.err e)
  | noSlot (hsize : (asRef data).length = pkt.size.toNat) (hplaced : pkt.WellPlaced)
      (h : p.buf[pkt.fragId.toNat]? = none) : Refuses p pkt data (.panic .outOfBounds)
  | duplicate (hsize : (asRef data).length = pkt.size.toNat) (hplaced : pkt.WellPlaced) (x : B)
      (h : p.buf[pkt.fragId.toNat]? = some (some x)) :
      Refuses p pkt data (.err (.duplicatedFragment pkt.fragId))

/-- A fragment that is not admitted leaves the buffer as it was. -/
theorem insert_refused (hadm : ¬ p.Admits pkt data) :
    (p.insertPkt b pkt data).1 = p ∧ p.Refuses pkt data (p.insertPkt b pkt data).2 := by
  unfold PacketBuffer.insertPkt PacketBuffer.insert
  split_ifs with h1 h2 h3 h4
  · exact ⟨rfl, .wrongSize h1⟩
  · exact ⟨rfl, .misplaced (not_not.1 h1) (fun h => absurd h.1 (UInt8.not_lt.2 h2)) _⟩
  · exact ⟨rfl, .misplaced (not_not.1 h1) (fun h => h.2.1 (Address.isNone_iff.1 h3.2) h3.1) _⟩
  · exact ⟨rfl, .misplaced (not_not.1 h1) (fun h => h4.2 (Address.isNone_iff.2 (h.2.2 h4.1))) _⟩
  · have hplaced : pkt.WellPlaced := by
      refine ⟨UInt8.not_le.1 h2, ?_⟩
      by_cases h0 : pkt.fragId = 0
      · simpa [h0] using h3
      · simpa [h0] using h4
    cases hslot : p.buf[pkt.fragId.toNat]? with
    | none => exact ⟨rfl, .noSlot (not_not.1 h1) hplaced hslot⟩
    | some x =>
      cases x with
      | some x => exact ⟨rfl, .duplicate (not_not.1 h1) hplaced x hslot⟩
      | none => exact absurd ⟨not_not.1 h1, hplaced.1, hplaced.2, hslot⟩ hadm

theorem PacketBuffer.Refuses.not_ok {res : Inserted B} (h : p.Refuses pkt data res)
    (o : Option (Assemblable B)) : res ≠ .ok o := by
  cases h <;> exact nofun

/-- `insert` returns unless the payload does not have the announced size, or the
header passes its checks and the buffer has no slot for it. -/
theorem insert_returns_iff (hwf : p.WF) :
    (p.insertPkt b pkt data).2.Returns ↔
      (asRef data).length = pkt.size.toNat ∧ (pkt.WellPlaced → pkt.fragId < p.fragTotal) := by
  have hlen : pkt.fragId < p.fragTotal ↔ pkt.fragId.toNat < p.buf.length := by
    rw [UInt8.lt_iff_toNat_lt, hwf.len]
  rw [hlen]
  by_cases hadm : p.Admits pkt data
  · have hlt := (List.getElem?_eq_some_iff.1 hadm.free).1
    rw [insert_admitted hwf hadm]
    split_ifs <;> simp [hadm.size, hlt]
  · obtain ⟨-, href⟩ := insert_refused (b := b) hadm
    generalize (p.insertPkt b pkt data).2 = res at href
    cases href with
    | wrongSize h => simp [h]
    | misplaced hsize h e => simp [hsize, h]
    | noSlot hsize hplaced h => simpa [hsize, hplaced] using List.getElem?_eq_none_iff.1 h
    | duplicate hsize hplaced x h => simpa [hsize, hplaced] using (List.getElem?_eq_some_iff.1 h).1

end

end Tuic.Model
