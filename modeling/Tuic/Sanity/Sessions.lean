import Mathlib.Data.FinEnum
import Tuic.Lib.Keys
import Tuic.Spec.Model

/-! Which associations have a session. A call adds or removes at most the session
of its own association, and the registers count the sessions. -/

namespace Tuic.Model

open Lib

variable {B : Type}

/-- What a call does to the set of associations that have a session. -/
def stepKeys (k : Set UInt16) : Call B → Set UInt16
  | .sendPacket assocId _ _ => insert assocId k
  | .recvPacketUnrestricted header => insert header.assocId k
  | .assemble _ pkt _ => insert pkt.assocId k
  | .sendDissociate assocId => k \ {assocId}
  | .recvDissociate header => k \ {header.assocId}
  | .recvPacket _ | .collectGarbage _ _ => k

theorem entry_keys (s : UdpSessions B) (assocId : UInt16) :
    (s.entry assocId).1.sessions.keys = insert assocId s.sessions.keys := by
  unfold UdpSessions.entry
  cases h : s.sessions.get assocId with
  | some session => exact (Set.insert_eq_of_mem (Table.mem_keys_of_some h)).symm
  | none => exact Table.keys_insert _ _ _

theorem put_keys {s : UdpSessions B} {assocId : UInt16} (h : assocId ∈ s.sessions.keys)
    (session : UdpSession B) : (s.put assocId session).sessions.keys = s.sessions.keys :=
  Table.keys_insert_of_mem h session

theorem remove_keys (s : UdpSessions B) (assocId : UInt16) :
    (s.remove assocId).sessions.keys = s.sessions.keys \ {assocId} := by
  unfold UdpSessions.remove
  cases h : s.sessions.get assocId with
  | some session => exact Table.keys_remove _ _
  | none => exact (Set.sdiff_singleton_eq_self (Table.notMem_keys.2 h)).symm

theorem mem_entry_keys (s : UdpSessions B) (assocId : UInt16) :
    assocId ∈ (s.entry assocId).1.sessions.keys := by
  rw [entry_keys]
  exact Set.mem_insert _ _

theorem step_keys [AsRef B] (b : Build) (s : UdpSessions B) (call : Call B) :
    (step b s call).1.sessions.keys = stepKeys s.sessions.keys call := by
  cases call with
  | sendPacket assocId addr max =>
    exact (put_keys (mem_entry_keys s assocId) _).trans (entry_keys s assocId)
  | recvPacket header => rfl
  | recvPacketUnrestricted header => exact entry_keys s header.assocId
  | assemble now pkt data =>
    exact (put_keys (mem_entry_keys s pkt.assocId) _).trans (entry_keys s pkt.assocId)
  | sendDissociate assocId => exact remove_keys s assocId
  | recvDissociate header => exact remove_keys s header.assocId
  | collectGarbage now timeout => exact Table.keys_mapValues _ _

/-- Every session holds one register. -/
def UdpSessions.Counted (s : UdpSessions B) : Prop := s.taskAssociateCount = s.sessions.keys.ncard

theorem new_counted : (UdpSessions.new : UdpSessions B).Counted := by
  simp [UdpSessions.Counted, UdpSessions.new]

theorem entry_counted {s : UdpSessions B} (h : s.Counted) (assocId : UInt16) :
    (s.entry assocId).1.Counted := by
  unfold UdpSessions.entry
  cases hs : s.sessions.get assocId with
  | some session => exact h
  | none =>
    have hcard := Table.ncard_keys_insert (Table.notMem_keys.2 hs) (UdpSession.new : UdpSession B)
    rw [UdpSessions.Counted, hcard, ← h]

theorem put_counted {s : UdpSessions B} (h : s.Counted) {assocId : UInt16}
    (hk : assocId ∈ s.sessions.keys) (session : UdpSession B) : (s.put assocId session).Counted := by
  rw [UdpSessions.Counted, put_keys hk]
  exact h

theorem remove_counted {s : UdpSessions B} (h : s.Counted) (assocId : UInt16) :
    (s.remove assocId).Counted := by
  unfold UdpSessions.remove
  cases hs : s.sessions.get assocId with
  | some session =>
    have hcard := Table.ncard_keys_remove (Table.mem_keys_of_some hs)
    rw [UdpSessions.Counted, hcard, ← h]
  | none => exact h

theorem step_counted [AsRef B] (b : Build) {s : UdpSessions B} (h : s.Counted) (call : Call B) :
    (step b s call).1.Counted := by
  cases call with
  | sendPacket assocId addr max => exact put_counted (entry_counted h assocId) (mem_entry_keys s assocId) _
  | recvPacket header => exact h
  | recvPacketUnrestricted header => exact entry_counted h header.assocId
  | assemble now pkt data =>
    exact put_counted (entry_counted h pkt.assocId) (mem_entry_keys s pkt.assocId) _
  | sendDissociate assocId => exact remove_counted h assocId
  | recvDissociate header => exact remove_counted h header.assocId
  | collectGarbage now timeout => exact h.trans (congrArg Set.ncard (Table.keys_mapValues _ _)).symm

theorem reachable_counted [AsRef B] {b : Build} {s : UdpSessions B} (h : (connection b).Reachable s) :
    s.Counted :=
  h.invariant (P := UdpSessions.Counted) new_counted fun _ call hs => step_counted b hs call

end Tuic.Model
