import Tuic.Lib.Pool
import Tuic.Sanity.Sessions
import Tuic.Spec.Associate

/-! When an association of the client stays closed: when its forward tasks have finished
by the time it is dissociated. -/

namespace Tuic.Client

open Lib Model

/-- The session of the association has been given up. -/
def Associating.Ended (s : Associating) : Prop := s.tail = .dissociated ∨ s.tail = .returned

/-- What holds along a run whose forward tasks finish first. -/
structure Associating.Kept (assocId : UInt16) (s : Associating) : Prop where
  ended : s.Ended → s.AllDone ∧ assocId ∉ s.model.sessions.keys
  returned : .dissociate assocId ∈ s.sent → s.tail = .returned
  order : ∀ (i j : ℕ) pkt, s.sent[i]? = some (.dissociate assocId) → s.sent[j]? = some (.packet pkt) → j < i
  counted : s.model.Counted

section

variable {b : Build} {assocId : UInt16} {s s' : Associating}

theorem Associating.Kept.not_sent (h : s.Kept assocId) (htail : s.tail ≠ .returned) :
    .dissociate assocId ∉ s.sent := fun hmem => htail (h.returned hmem)

/-- Before the association has ended nothing but packets is sent. -/
theorem Associating.Kept.running (h : s.Kept assocId) (hrunning : ¬ s.Ended) (hrunning' : ¬ s'.Ended)
    (hsent : ∀ command ∈ s'.sent, command ∈ s.sent ∨ ∃ pkt, command = .packet pkt)
    (hcounted : s'.model.Counted) : s'.Kept assocId := by
  have hnone : .dissociate assocId ∉ s'.sent := by
    intro hmem
    rcases hsent _ hmem with hold | ⟨pkt, hpkt⟩
    · exact hrunning (.inr (h.returned hold))
    · cases hpkt
  exact ⟨fun hended => absurd hended hrunning', fun hmem => absurd hmem hnone,
    fun i j pkt hi _ => absurd (List.mem_of_getElem? hi) hnone, hcounted⟩

/-- A forward task that has not finished runs before the end. -/
theorem Associating.Kept.forward_running (h : s.Kept assocId) {k : ℕ} {forward : Forward}
    (hk : s.forwards[k]? = some forward) (hdone : forward ≠ .done) : ¬ s.Ended := fun hended =>
  hdone ((h.ended hended).1 forward (List.mem_of_getElem? hk))

/-- A step of a forward task leaves the tail alone. -/
theorem Associating.Kept.enter (h : s.Kept assocId) {k : ℕ} {forward : Forward}
    (hk : s.forwards[k]? = some forward) (hdone : forward ≠ .done) (next : Forward) :
    (s.enter k next).Kept assocId :=
  h.running (h.forward_running hk hdone) (h.forward_running hk hdone) (fun _ hmem => .inl hmem) h.counted

/-- A call about another association does not give this one a session. -/
theorem other_notMem {call : Call (List UInt8)} (hcall : Associating.about call ≠ some assocId)
    (h : assocId ∉ s.model.sessions.keys) : assocId ∉ (Model.step b s.model call).1.sessions.keys := by
  have hinsert : ∀ id, some id ≠ some assocId → assocId ∉ insert id s.model.sessions.keys := by
    intro id hid hmem
    rcases Set.mem_insert_iff.1 hmem with rfl | hold
    · exact hid rfl
    · exact h hold
  rw [step_keys]
  cases call with
  | sendPacket id addr max => exact hinsert id hcall
  | recvPacketUnrestricted header => exact hinsert header.assocId hcall
  | assemble now pkt data => exact hinsert pkt.assocId hcall
  | sendDissociate id => exact fun hmem => h hmem.1
  | recvDissociate header => exact fun hmem => h hmem.1
  | recvPacket header => exact h
  | collectGarbage now timeout => exact h

/-- Only a `send_packet` gives the association a session. -/
theorem notMem_step {a : AssociateStep} (h : assocId ∉ s.model.sessions.keys) (hsilent : ¬ SendsPacket s a) :
    assocId ∉ (s.step b assocId a).model.sessions.keys := by
  cases a with
  | packet k addr maxPktSize frags =>
    simp only [Associating.step, Associating.packet]
    split
    · rename_i hk
      exact absurd ⟨k, addr, maxPktSize, frags, rfl, hk⟩ hsilent
    · exact h
  | dissociate =>
    simp only [Associating.step, Associating.dissociate]
    split_ifs
    · change assocId ∉ (s.model.remove assocId).sessions.keys
      rw [remove_keys]
      exact fun hmem => h hmem.1
    · exact h
  | other call =>
    simp only [Associating.step, Associating.other]
    split_ifs with hcall
    · exact h
    · exact other_notMem hcall h
  | receive | getConn | refuse | sendFragment =>
    simp only [Associating.step, Associating.receive, Associating.getConn, Associating.refuse,
      Associating.sendFragment, Associating.enter]
    split <;> try split
    all_goals exact h
  | stop | remove | tailGetConn | sendDissociate =>
    simp only [Associating.step, Associating.advance, Associating.sendDissociate]
    split_ifs <;> exact h

theorem notMem_of_silent {steps : List AssociateStep} : ∀ n ≤ steps.length,
    (∀ j < n, ¬ (associating b assocId).At steps SendsPacket j) →
      assocId ∉ ((associating b assocId).stateAt steps n).model.sessions.keys := by
  refine Machine.run_invariant (m := associating b assocId) steps
    (P := fun n s => (∀ j < n, ¬ (associating b assocId).At steps SendsPacket j) → assocId ∉ s.model.sessions.keys)
    (fun _ => Table.notMem_keys.2 rfl) fun i a ha hs hsilent => ?_
  exact notMem_step (hs fun j hj => hsilent j (hj.trans (Nat.lt_succ_self i))) fun hsends =>
    hsilent i (Nat.lt_succ_self i) ⟨a, ha, hsends⟩

/-- The tail goes on before it has ended the association. -/
theorem Associating.Kept.advance (h : s.Kept assocId) {start next : Tail} (hstart : start ≠ .dissociated)
    (hstart' : start ≠ .returned) (hnext : next ≠ .dissociated) (hnext' : next ≠ .returned) :
    (s.advance start next).Kept assocId := by
  unfold Associating.advance
  split_ifs with htail
  · refine h.running ?_ ?_ (fun _ hmem => .inl hmem) h.counted
    · rintro (hended | hended)
      · exact hstart (htail.symm.trans hended)
      · exact hstart' (htail.symm.trans hended)
    · rintro (hended | hended)
      · exact hnext hended
      · exact hnext' hended
  · exact h

theorem Associating.Kept.dissociate (h : s.Kept assocId) (hdone : s.tail = .connected → s.AllDone) :
    (s.dissociate assocId).Kept assocId := by
  unfold Associating.dissociate
  split_ifs with htail
  · have hnone := h.not_sent (by simp [htail])
    refine ⟨fun _ => ⟨hdone htail, ?_⟩, fun hmem => absurd hmem hnone,
      fun i j pkt hi _ => absurd (List.mem_of_getElem? hi) hnone, remove_counted h.counted assocId⟩
    change assocId ∉ (s.model.remove assocId).sessions.keys
    rw [remove_keys]
    exact fun hmem => hmem.2 rfl
  · exact h

/-- The dissociation is the last command. -/
theorem Associating.Kept.sendDissociate (h : s.Kept assocId) (sent : Bool) :
    (s.sendDissociate assocId sent).Kept assocId := by
  unfold Associating.sendDissociate
  split_ifs with htail hsent
  · have hnone := h.not_sent (by simp [htail])
    refine ⟨fun _ => h.ended (.inl htail), fun _ => rfl, fun i j pkt hi hj => ?_, h.counted⟩
    rcases Pool.concat_eq_some.1 hi with hold | ⟨rfl, -⟩
    · exact absurd (List.mem_of_getElem? hold) hnone
    · rcases Pool.concat_eq_some.1 hj with hold | ⟨-, hpkt⟩
      · exact Pool.lt_of_eq_some hold
      · cases hpkt
  · exact ⟨fun _ => h.ended (.inl htail), fun _ => rfl, h.order, h.counted⟩
  · exact h

theorem Associating.Kept.step {a : AssociateStep} (h : s.Kept assocId)
    (hdissociates : CallsDissociate s a → s.AllDone)
    (hmisses : MissesConn s a → s.AllDone ∧ s.model.sessions.get assocId = none) :
    (s.step b assocId a).Kept assocId := by
  cases a with
  | receive =>
    simp only [Associating.step, Associating.receive]
    split
    · rename_i htail
      have hrunning : ¬ s.Ended := by simp [Associating.Ended, htail]
      exact h.running hrunning hrunning (fun _ hmem => .inl hmem) h.counted
    · exact h
  | getConn k yields =>
    simp only [Associating.step, Associating.getConn]
    split
    · rename_i hk
      exact h.enter hk nofun _
    · exact h
  | refuse k =>
    simp only [Associating.step, Associating.refuse]
    split
    · rename_i hk
      exact h.enter hk nofun _
    · exact h
  | packet k addr maxPktSize frags =>
    simp only [Associating.step, Associating.packet]
    split
    · rename_i hk
      have hrunning := h.forward_running hk nofun
      exact h.running hrunning hrunning (fun _ hmem => .inl hmem)
        (step_counted b h.counted (.sendPacket assocId addr maxPktSize))
    · exact h
  | sendFragment k sent =>
    simp only [Associating.step, Associating.sendFragment]
    split
    · rename_i pkt more hk
      have hrunning := h.forward_running hk nofun
      split_ifs
      · refine h.running hrunning hrunning (fun command hmem => ?_) h.counted
        rcases List.mem_append.1 hmem with hold | hnew
        · exact .inl hold
        · exact .inr ⟨pkt, List.mem_singleton.1 hnew⟩
      · exact h.enter hk nofun _
    · exact h
  | stop => exact h.advance nofun nofun nofun nofun
  | remove => exact h.advance nofun nofun nofun nofun
  | tailGetConn yields =>
    cases yields with
    | true => exact h.advance nofun nofun nofun nofun
    | false =>
      change (s.advance .removed .returned).Kept assocId
      unfold Associating.advance
      split_ifs with htail
      · obtain ⟨hdone, hget⟩ := hmisses ⟨rfl, htail⟩
        exact ⟨fun _ => ⟨hdone, Table.notMem_keys.2 hget⟩, fun _ => rfl, h.order, h.counted⟩
      · exact h
  | dissociate => exact h.dissociate fun htail => hdissociates ⟨rfl, htail⟩
  | sendDissociate sent => exact h.sendDissociate sent
  | other call =>
    simp only [Associating.step, Associating.other]
    split_ifs with hcall
    · exact h
    · exact ⟨fun hended => ⟨(h.ended hended).1, other_notMem hcall (h.ended hended).2⟩, h.returned, h.order,
        step_counted b h.counted call⟩

/-- An association that has been kept is closed when it has returned. -/
theorem Associating.Kept.closed (h : s.Kept assocId) : s.Closed assocId where
  order := h.order
  session htail := Table.notMem_keys.1 (h.ended (.inr htail)).2
  count htail := by
    rw [Set.sdiff_singleton_eq_self (h.ended (.inr htail)).2]
    exact h.counted

end

/-- In a run whose forward tasks finish before the tail ends, nothing follows the
dissociation, and the session is gone for good. -/
theorem closed_of_forwardsFirst (b : Build) (assocId : UInt16) (steps : List AssociateStep)
    (h : ForwardsFirst b assocId steps) :
    ∀ n ≤ steps.length, ((associating b assocId).stateAt steps n).Closed assocId := by
  have hkept := Machine.run_invariant (m := associating b assocId) steps
    (P := fun _ s => Associating.Kept assocId s) ⟨?_, nofun, fun _ _ _ hi => ?_, new_counted⟩
    fun i a ha hs => hs.step (fun hcalls => h.dissociates i ⟨a, ha, hcalls⟩) fun hmiss => by
      obtain ⟨hdone, hsilent⟩ := h.misses i ⟨a, ha, hmiss⟩
      exact ⟨hdone, Table.notMem_keys.1 (notMem_of_silent i (List.getElem?_eq_some_iff.1 ha).1.le hsilent)⟩
  · exact fun n hn => (hkept n hn).closed
  · rintro (hended | hended) <;> cases hended
  · cases hi

/-- The packets of the examples go here. -/
def target : Address := .socketAddress (.v4 ⟨127, 0, 0, 1⟩ 53)

/-- One packet is forwarded, and then the association ends. -/
def forwardFirst : List AssociateStep :=
  [.receive, .getConn 0 true, .packet 0 target 65535 1, .sendFragment 0 true, .stop, .remove,
    .tailGetConn true, .dissociate, .sendDissociate true]

theorem forwardFirst_closed :
    ((associating .release64 1).stateAt forwardFirst 9).Closed 1 := by
  refine closed_of_forwardsFirst .release64 1 forwardFirst ⟨fun i hcalls => ?_, fun i hmiss => ?_⟩ 9
    (by decide)
  · obtain ⟨a, ha, rfl, -⟩ := hcalls
    rcases i with _ | _ | _ | _ | _ | _ | _ | _ | _ | i <;> cases ha
    change ∀ forward ∈ _, forward = Forward.done
    decide
  · obtain ⟨a, ha, rfl, -⟩ := hmiss
    rcases i with _ | _ | _ | _ | _ | _ | _ | _ | _ | i <;> cases ha

/-- The forward task is slower than the tail. -/
def forwardLast : List AssociateStep :=
  [.receive, .stop, .remove, .tailGetConn true, .dissociate, .sendDissociate true, .getConn 0 true,
    .packet 0 target 65535 1, .sendFragment 0 true]

theorem forwardLast_relays : ¬ ((associating .release64 1).stateAt forwardLast 9).Closed 1 ∧
    ((associating .release64 1).stateAt forwardLast 9).sent =
      [.dissociate 1, .packet ⟨1, 0, target, 65535⟩] ∧
    ((associating .release64 1).stateAt forwardLast 9).model.taskAssociateCount = 1 := by
  refine ⟨fun h => ?_, by decide, by decide⟩
  exact absurd (h.order 0 1 ⟨1, 0, target, 65535⟩ (by decide) (by decide)) (by decide)

end Tuic.Client
