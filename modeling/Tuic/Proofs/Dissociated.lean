import Tuic.Sanity.Sessions
import Tuic.Spec.Client

/-! When a dissociated association stays dissociated on the client. A packet that
was received before the association ended and is assembled after it brings the
session back. -/

namespace Tuic.Model

open Lib

variable {B : Type} {calls : List (Call B)}

theorem open_succ {assocId : UInt16} {n : ℕ} {call : Call B} (h : calls[n]? = some call) :
    Open calls assocId (n + 1) ↔ (∃ addr max, call = .sendPacket assocId addr max) ∨
      (Open calls assocId n ∧ call ≠ .sendDissociate assocId) := by
  unfold Open
  rw [since_succ]
  simp only [SendsAt, DissociatesAt, h, Option.some.injEq, ne_eq]

/-- The packets of a run are assembled on open associations. -/
def AssemblesOpen (calls : List (Call B)) : Prop :=
  ∀ j now pkt data, calls[j]? = some (.assemble now pkt data) → Open calls pkt.assocId j

/-- On the open associations a client's call acts as on the sessions. -/
theorem stepKeys_open {n : ℕ} {call : Call B} (h : calls[n]? = some call) (hclient : call.FromClient)
    (hopen : ∀ now pkt data, call = .assemble now pkt data → Open calls pkt.assocId n) :
    stepKeys {assocId | Open calls assocId n} call = {assocId | Open calls assocId (n + 1)} := by
  ext assocId
  rw [Set.mem_ofPred_eq, open_succ h]
  cases call with
  | sendPacket assocId' addr max =>
    by_cases heq : assocId = assocId'
    · simp [stepKeys, heq]
    · simp [stepKeys, heq, Ne.symm heq]
  | recvPacket header => simp [stepKeys]
  | recvPacketUnrestricted header => cases hclient
  | assemble now pkt data =>
    by_cases heq : assocId = pkt.assocId
    · simp [stepKeys, heq, hopen now pkt data rfl]
    · simp [stepKeys, heq]
  | sendDissociate assocId' => simp [stepKeys, eq_comm]
  | recvDissociate header => cases hclient
  | collectGarbage now timeout => simp [stepKeys]

variable [AsRef B] {b : Build}

/-- While packets are assembled on open associations only, the sessions are those
of the open associations. -/
theorem keys_open (hrun : ClientCalls b calls) (hopen : AssemblesOpen calls) :
    ∀ n ≤ calls.length,
      ((connection b).stateAt calls n).sessions.keys = {assocId | Open calls assocId n} := by
  intro n
  induction n with
  | zero =>
    intro _
    ext assocId
    simp [Open, Machine.stateAt, Machine.exec, connection, UdpSessions.new]
  | succ n ih =>
    intro hn
    have hcall : calls[n]? = some calls[n] := List.getElem?_eq_getElem hn
    have hstep : ((connection b).stateAt calls (n + 1)).sessions.keys =
        stepKeys ((connection b).stateAt calls n).sessions.keys calls[n] := by
      rw [(connection b).stateAt_succ hcall]
      exact step_keys b _ _
    rw [hstep, ih (Nat.le_of_lt hn)]
    apply stepKeys_open hcall (hrun.fromClient _ (List.getElem_mem hn))
    intro now pkt data heq
    exact hopen n now pkt data (heq ▸ hcall)

/-- On every run of a client, a dissociated association stays dissociated exactly
if every packet is assembled while its association is open. -/
theorem stays_dissociated_iff (b : Build) (calls : List (Call B)) (hrun : ClientCalls b calls) :
    StaysDissociated b calls ↔ AssemblesOpen calls := by
  constructor
  · intro h j now pkt data hj
    have hj1 : j + 1 ≤ calls.length := (List.getElem?_eq_some_iff.1 hj).1
    have hmem : pkt.assocId ∈ ((connection b).stateAt calls (j + 1)).sessions.keys := by
      rw [(connection b).stateAt_succ hj]
      have hstep := step_keys b ((connection b).stateAt calls j) (.assemble now pkt data)
      exact hstep.symm ▸ Set.mem_insert _ _
    rcases (open_succ hj).1 ((h (j + 1) hj1).1 _ hmem) with ⟨addr, max, hsend⟩ | ⟨hopen, -⟩
    · cases hsend
    · exact hopen
  · intro hopen n hn
    have hkeys := keys_open hrun hopen n hn
    refine ⟨fun assocId hs => ?_, fun header hclosed => ?_, ?_⟩
    · exact hkeys.subset hs
    · have hnone : header.assocId ∉ ((connection b).stateAt calls n).sessions.keys := by
        rw [hkeys]
        exact hclosed
      simp [UdpSessions.recvPacket, Table.notMem_keys.1 hnone]
    · rw [← hkeys]
      exact reachable_counted ((connection b).stateAt_reachable calls n)

/-- The header of the examples: a packet of one fragment on association 1. -/
def oneFragment : Packet := ⟨1, 0, 1, 0, 1, .socketAddress (.v4 ⟨127, 0, 0, 1⟩ 53)⟩

/-- A packet that is assembled while its association is open. -/
def inTime : List (Call (List UInt8)) :=
  [.sendPacket 1 oneFragment.addr 1200, .recvPacket oneFragment, .assemble 0 oneFragment [7],
    .sendDissociate 1]

theorem inTime_client : ClientCalls .release64 inTime := by
  refine ⟨by simp [inTime, Call.FromClient], fun j now pkt data hj => ?_⟩
  rcases j with _ | _ | _ | _ | j <;> cases hj
  exact ⟨1, by decide, rfl⟩

theorem inTime_stays : StaysDissociated .release64 inTime := by
  refine (stays_dissociated_iff .release64 inTime inTime_client).2 fun j now pkt data hj => ?_
  rcases j with _ | _ | _ | _ | j <;> cases hj
  refine ⟨0, by decide, ⟨_, _, rfl⟩, fun k hk hk2 => ?_⟩
  obtain rfl : k = 1 := by omega
  exact nofun

/-- The association ends between the header of a packet and its payload. -/
def tooLate : List (Call (List UInt8)) :=
  [.sendPacket 1 oneFragment.addr 1200, .recvPacket oneFragment, .sendDissociate 1,
    .assemble 0 oneFragment [7]]

theorem tooLate_resurrects : ClientCalls .release64 tooLate ∧ ¬ StaysDissociated .release64 tooLate ∧
    ((connection .release64).stateAt tooLate 4).taskAssociateCount = 1 := by
  refine ⟨⟨by simp [tooLate, Call.FromClient], fun j now pkt data hj => ?_⟩, fun h => ?_, rfl⟩
  · rcases j with _ | _ | _ | _ | j <;> cases hj
    exact ⟨1, by decide, rfl⟩
  · obtain ⟨i, hi, ⟨addr, max, hsend⟩, hq⟩ := (h 4 (by decide)).1 1 (by decide)
    rcases i with _ | _ | _ | _ | i
    · exact hq 2 (by decide) (by decide) rfl
    · cases hsend
    · cases hsend
    · cases hsend
    · omega

end Tuic.Model
