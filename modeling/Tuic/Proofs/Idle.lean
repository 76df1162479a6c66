import Tuic.Lib.Pool
import Tuic.Spec.Idle

/-! When only idle sessions time out: when every packet that a client sends is answered
in time. Nothing but what the listen task receives resets its timer. -/

namespace Tuic.Server

open Lib Model

/-! ### One step -/

namespace TimedSession

variable {timeout : Duration} {s : TimedSession}

inductive TimedEffect (timeout : Duration) (s : TimedSession) : TimedStep → TimedSession → Prop
  | began : TimedEffect timeout s .begin (s.reset timeout)
  | elapsed (d : Duration) : TimedEffect timeout s (.elapse d) { s with clock := s.clock + d }
  | arrived : TimedEffect timeout s .arrive { s with unread := s.unread + 1 }
  | received (receives : s.receives = true) :
      TimedEffect timeout s .recv { s.reset timeout with unread := s.unread - 1 }
  | recvFailed (listening : s.listening = true) : TimedEffect timeout s .recvFails (s.reset timeout)
  | ticked (listening : s.listening = true) : TimedEffect timeout s .timeout
      { s with session := s.session.close, deadline := s.deadline.map (· + timeout) }
  | dissociated : TimedEffect timeout s .dissociate { s with session := s.session.close }
  | left (listening : s.listening = true) (closed : s.session.closeTx = false) :
      TimedEffect timeout s .leave { s with session := { s.session with listen := .leaving } }
  | idle (a : TimedStep) : TimedEffect timeout s a s

theorem step_timedEffect (timeout : Duration) (s : TimedSession) (a : TimedStep) :
    TimedEffect timeout s a (s.step timeout a) := by
  cases a with
  | begin =>
    simp only [step, begin]
    split_ifs
    · exact .began
    · exact .idle _
  | elapse d => exact .elapsed d
  | arrive => exact .arrived
  | send => exact .idle _
  | dissociate => exact .dissociated
  | recv =>
    simp only [step, recv]
    split_ifs with hreceives
    · exact .received hreceives
    · exact .idle _
  | recvFails =>
    simp only [step, recvFails]
    split_ifs with hlistening
    · exact .recvFailed hlistening
    · exact .idle _
  | timeout =>
    simp only [step, tick]
    split_ifs with hexpired
    · exact .ticked (Bool.and_eq_true_iff.1 hexpired).1
    · exact .idle _
  | leave =>
    simp only [step, leave]
    split_ifs with hleaves
    · exact .left (Bool.and_eq_true_iff.1 hleaves).1 (by simpa using (Bool.and_eq_true_iff.1 hleaves).2)
    · exact .idle _

/-- What a step does to the clock and to the deadline. -/
structure Moves (timeout : Duration) (s s' : TimedSession) : Prop where
  clock : s.clock ≤ s'.clock
  later : ∀ d, s.deadline = some d → ∃ d', s'.deadline = some d' ∧ (d ≤ d' ∨ s.clock + timeout ≤ d')
  first : s.deadline = none → ∀ d, s'.deadline = some d → s.clock + timeout ≤ d

theorem step_moves (timeout : Duration) (s : TimedSession) (a : TimedStep) :
    Moves timeout s (s.step timeout a) := by
  have hkeeps : ∀ s' : TimedSession, s.clock ≤ s'.clock → s'.deadline = s.deadline → Moves timeout s s' :=
    fun s' hclock hsame => ⟨hclock, fun d hd => ⟨d, hsame.trans hd, .inl (Nat.le_refl d)⟩,
      fun hnone d hd => by cases hnone.symm.trans (hsame.symm.trans hd)⟩
  have hresets : ∀ s' : TimedSession, s.clock ≤ s'.clock → s'.deadline = some (s.clock + timeout) →
      Moves timeout s s' := fun s' hclock hreset =>
    ⟨hclock, fun d _ => ⟨_, hreset, .inr (Nat.le_refl _)⟩,
      fun _ d hd => Nat.le_of_eq (Option.some.inj (hreset.symm.trans hd))⟩
  have he := step_timedEffect timeout s a
  generalize s.step timeout a = s' at he ⊢
  cases he with
  | began => exact hresets _ (Nat.le_refl _) rfl
  | elapsed d => exact hkeeps _ (Nat.le_add_right _ d) rfl
  | arrived => exact hkeeps _ (Nat.le_refl _) rfl
  | received receives => exact hresets _ (Nat.le_refl _) rfl
  | recvFailed listening => exact hresets _ (Nat.le_refl _) rfl
  | ticked listening =>
    refine ⟨Nat.le_refl _, fun d hd => ⟨d + timeout, by simp [hd], .inl (Nat.le_add_right d _)⟩, ?_⟩
    intro hnone d hd
    simp [hnone] at hd
  | dissociated => exact hkeeps _ (Nat.le_refl _) rfl
  | left listening closed => exact hkeeps _ (Nat.le_refl _) rfl
  | idle => exact hkeeps _ (Nat.le_refl _) rfl

/-- A reset lets the timer run for the whole timeout again. -/
theorem deadline_of_resets {a : TimedStep} (h : Resets s a) :
    (s.step timeout a).deadline = some (s.clock + timeout) := by
  rcases h with ⟨rfl, hreceives⟩ | ⟨rfl, hlistening⟩
  · simp only [step, recv, if_pos hreceives]
    rfl
  · simp only [step, recvFails, if_pos hlistening]
    rfl

/-- Packets are taken from the sockets by `recv` alone. -/
theorem unread_step (timeout : Duration) (s : TimedSession) (a : TimedStep) (h : ¬ Resets s a) :
    s.unread ≤ (s.step timeout a).unread := by
  have he := step_timedEffect timeout s a
  generalize s.step timeout a = s' at he ⊢
  cases he with
  | arrived => exact Nat.le_succ _
  | received receives => exact absurd (.inl ⟨rfl, receives⟩) h
  | began => exact Nat.le_refl _
  | elapsed d => exact Nat.le_refl _
  | recvFailed listening => exact Nat.le_refl _
  | ticked listening => exact Nat.le_refl _
  | dissociated => exact Nat.le_refl _
  | left listening closed => exact Nat.le_refl _
  | idle => exact Nat.le_refl _

end TimedSession

/-! ### Along a run -/

section

variable {streamTimeout : Duration} {assocId : UInt16} {steps : List TimedStep} {i j : ℕ}

theorem timed_succ {a : TimedStep} (ha : steps[i]? = some a) :
    (timedSession streamTimeout assocId).stateAt steps (i + 1) =
      ((timedSession streamTimeout assocId).stateAt steps i).step streamTimeout a :=
  (timedSession streamTimeout assocId).stateAt_succ ha

/-- The timer never ends before an instant that lies ahead of it and no more than one
timeout ahead of the clock. -/
theorem deadline_from {t : Instant} (hij : i ≤ j) (hj : j ≤ steps.length)
    (ht : t ≤ ((timedSession streamTimeout assocId).stateAt steps i).clock + streamTimeout)
    (hstart : ∀ d, ((timedSession streamTimeout assocId).stateAt steps i).deadline = some d → t ≤ d) :
    ((timedSession streamTimeout assocId).stateAt steps i).clock ≤
        ((timedSession streamTimeout assocId).stateAt steps j).clock ∧
      ∀ d, ((timedSession streamTimeout assocId).stateAt steps j).deadline = some d → t ≤ d := by
  refine Machine.run_induction (P := fun k =>
    ((timedSession streamTimeout assocId).stateAt steps i).clock ≤
        ((timedSession streamTimeout assocId).stateAt steps k).clock ∧
      ∀ d, ((timedSession streamTimeout assocId).stateAt steps k).deadline = some d → t ≤ d)
    ⟨Nat.le_refl _, hstart⟩ (fun k a _ ha ih => ?_) hij hj
  obtain ⟨hclock, hdeadline⟩ := ih
  have hmoves := TimedSession.step_moves streamTimeout
    ((timedSession streamTimeout assocId).stateAt steps k) a
  rw [timed_succ ha]
  refine ⟨Nat.le_trans hclock hmoves.clock, fun d' hd' => ?_⟩
  have hahead : t ≤ ((timedSession streamTimeout assocId).stateAt steps k).clock + streamTimeout :=
    Nat.le_trans ht (Nat.add_le_add_right hclock _)
  cases hd : ((timedSession streamTimeout assocId).stateAt steps k).deadline with
  | none => exact Nat.le_trans hahead (hmoves.first hd d' hd')
  | some d =>
    obtain ⟨d'', hd'', hlater⟩ := hmoves.later d hd
    obtain rfl : d' = d'' := Option.some.inj (hd'.symm.trans hd'')
    rcases hlater with hle | hle
    · exact Nat.le_trans (hdeadline d hd) hle
    · exact Nat.le_trans hahead hle

theorem clock_mono (streamTimeout : Duration) (assocId : UInt16) (hij : i ≤ j) (hj : j ≤ steps.length) :
    ((timedSession streamTimeout assocId).stateAt steps i).clock ≤
      ((timedSession streamTimeout assocId).stateAt steps j).clock :=
  (deadline_from (t := 0) hij hj (Nat.zero_le _) fun _ _ => Nat.zero_le _).1

/-- After a reset the timer runs for the whole timeout. -/
theorem deadline_of_reset {k : ℕ} (hk : (timedSession streamTimeout assocId).At steps Resets k) (hkj : k < j)
    (hj : j ≤ steps.length) {d : Instant}
    (hd : ((timedSession streamTimeout assocId).stateAt steps j).deadline = some d) :
    ((timedSession streamTimeout assocId).stateAt steps k).clock + streamTimeout ≤ d := by
  obtain ⟨a, ha, hresets⟩ := hk
  have hclock := clock_mono streamTimeout assocId (Nat.le_succ k)
    (Nat.le_trans hkj hj)
  refine (deadline_from hkj hj (Nat.add_le_add_right hclock _) fun d' hd' => ?_).2 d hd
  rw [timed_succ ha, TimedSession.deadline_of_resets hresets] at hd'
  exact Nat.le_of_eq (Option.some.inj hd')

/-- Between an arrival and a state with nothing to read lies a reset. -/
theorem exists_reset (hij : i ≤ j) (hj : j ≤ steps.length)
    (hsome : 0 < ((timedSession streamTimeout assocId).stateAt steps i).unread)
    (hnone : ((timedSession streamTimeout assocId).stateAt steps j).unread = 0) :
    ∃ k, i ≤ k ∧ k < j ∧ (timedSession streamTimeout assocId).At steps Resets k := by
  by_contra hno
  have hrun := Machine.run_induction (P := fun k => k ≤ j →
    0 < ((timedSession streamTimeout assocId).stateAt steps k).unread)
    (fun _ => hsome) (fun k a hik ha ih hkj => ?_) hij hj (Nat.le_refl j)
  · omega
  · have hresets : ¬ Resets ((timedSession streamTimeout assocId).stateAt steps k) a := fun h =>
      hno ⟨k, hik, hkj, a, ha, h⟩
    rw [timed_succ ha]
    exact Nat.lt_of_lt_of_le (ih (Nat.le_of_succ_le hkj)) (TimedSession.unread_step _ _ _ hresets)

end

/-- Where the listen task reads in time and packets that a client sends are answered in
time, only idle sessions are closed by the timeout. -/
theorem onlyIdle (streamTimeout : Duration) (assocId : UInt16) (steps : List TimedStep)
    (h : Answered streamTimeout assocId steps) : OnlyIdle streamTimeout assocId steps := by
  intro i j hij hbusy hexpires
  obtain ⟨a, ha, hbusy⟩ := hbusy
  have hread := h.read j hexpires
  obtain ⟨_, hb, rfl, hexpired, hopen⟩ := hexpires
  have hj := (List.getElem?_eq_some_iff.1 hb).1
  obtain ⟨d', hd', hdue⟩ : ∃ d', ((timedSession streamTimeout assocId).stateAt steps j).deadline = some d' ∧
      d' ≤ ((timedSession streamTimeout assocId).stateAt steps j).clock := by
    simpa [TimedSession.expired, Option.any_eq_true] using (Bool.and_eq_true_iff.1 hexpired).2
  have hreset : ∀ k, i ≤ k → k < j → (timedSession streamTimeout assocId).At steps Resets k →
      ((timedSession streamTimeout assocId).stateAt steps i).clock + streamTimeout ≤ d' := by
    intro k hik hkj hk
    have hclock := clock_mono streamTimeout assocId hik
      (Nat.le_of_lt (Nat.lt_trans hkj hj))
    exact Nat.le_trans (Nat.add_le_add_right hclock _) (deadline_of_reset hk hkj (Nat.le_of_lt hj) hd')
  refine Nat.le_trans ?_ hdue
  rcases hbusy with rfl | ⟨rfl, hreceives⟩ | rfl
  · have hsome : 0 < ((timedSession streamTimeout assocId).stateAt steps (i + 1)).unread := by
      rw [timed_succ ha]
      exact Nat.succ_pos _
    obtain ⟨k, hik, hkj, hk⟩ := exists_reset hij (Nat.le_of_lt hj) hsome hread
    exact hreset k (Nat.le_of_succ_le hik) hkj hk
  · exact hreset i (Nat.le_refl i) hij ⟨_, ha, .inl ⟨rfl, hreceives⟩⟩
  · by_cases hlate : ∃ d, ((timedSession streamTimeout assocId).stateAt steps i).deadline = some d ∧
        d < ((timedSession streamTimeout assocId).stateAt steps i).clock + streamTimeout
    · -- the timer that runs at the send ends before the expiry, so an answer comes first
      obtain ⟨d, hd, hlt⟩ := hlate
      have hle := (deadline_from (Nat.le_of_lt hij) (Nat.le_of_lt hj) (Nat.le_of_lt hlt) fun d₁ hd₁ =>
        Nat.le_of_eq (Option.some.inj (hd.symm.trans hd₁))).2 d' hd'
      obtain ⟨k, hik, hkj, hk⟩ := h.answered i ha d hd hlt j hij hj hopen (Nat.le_trans hle hdue)
      exact hreset k (Nat.le_of_lt hik) hkj hk
    · refine (deadline_from (Nat.le_of_lt hij) (Nat.le_of_lt hj) (Nat.le_refl _) fun d hd => ?_).2 d' hd'
      exact Nat.le_of_not_lt fun hlt => hlate ⟨d, hd, hlt⟩

/-- A packet is sent, and the answer comes before the timer ends. -/
theorem onlyIdle_answered :
    OnlyIdle 10 7 [.begin, .elapse 1, .send, .elapse 1, .arrive, .recv, .elapse 10, .timeout] := by
  refine onlyIdle 10 7 _ ⟨?_, ?_⟩
  · rintro j ⟨a, ha, rfl, -⟩
    rcases j with _ | _ | _ | _ | _ | _ | _ | _ | j
    all_goals cases ha
    rfl
  · intro i hi d hd hlt j hij hj _ hdue
    rcases i with _ | _ | _ | _ | _ | _ | _ | _ | i
    all_goals cases hi
    cases hd
    have hlen : j < 8 := hj
    obtain rfl : j = 7 := by
      rcases j with _ | _ | _ | _ | _ | _ | _ | _ | j
      all_goals first | rfl | omega | exact absurd hdue (by decide)
    exact ⟨5, by decide, by decide, .recv, rfl, .inl ⟨rfl, by decide⟩⟩

/-! ### Packets without an answer -/

/-- A client that sends one packet after the other. -/
def sending (n : ℕ) : List TimedStep := (List.replicate n [.send, .elapse 1]).flatten

/-- It sends ten packets, one each second, and the session is closed after ten seconds,
one second after the last. -/
theorem onlyIdle_not :
    let steps := .begin :: sending 10 ++ [.timeout]
    ((timedSession 10 7).stateAt steps 19).clock = 9 ∧ steps[19]? = some .send ∧
      ((timedSession 10 7).stateAt steps 21).clock = 10 ∧
      ((timedSession 10 7).stateAt steps 22).session.closeTx = false ∧ ¬ OnlyIdle 10 7 steps := by
  refine ⟨by decide, by decide, by decide, by decide, fun h => ?_⟩
  have hle := h 19 21 (by decide) ⟨.send, by decide, .inr (.inr rfl)⟩
    ⟨.timeout, by decide, rfl, by decide, by decide⟩
  revert hle
  decide

section

variable {streamTimeout : Duration} {assocId : UInt16} (steps : List TimedStep)

theorem step_at_append (rest : List TimedStep) {a : TimedStep} {j : ℕ} (ha : rest[j]? = some a)
    {P : TimedSession → TimedStep → Prop}
    (h : P ((timedSession streamTimeout assocId).exec
      ((timedSession streamTimeout assocId).stateAt steps steps.length) (rest.take j)) a) :
    (timedSession streamTimeout assocId).At (steps ++ rest) P (steps.length + j) := by
  refine ⟨a, ?_, ?_⟩
  · rw [List.getElem?_append_right (Nat.le_add_right _ _), Nat.add_sub_cancel_left, ha]
  · rw [Machine.stateAt_append]
    exact h

/-- So it is after every run, if a packet is sent later than the last reset and nothing
is received before the timer ends. -/
theorem onlyIdle_not_of_send {s : TimedSession} {d : Instant}
    (hs : (timedSession streamTimeout assocId).stateAt steps steps.length = s)
    (hlistening : s.listening = true) (hopen : s.session.closeTx = true) (hd : s.deadline = some d)
    (hnow : s.clock ≤ d) (hlate : d < s.clock + streamTimeout) :
    ¬ OnlyIdle streamTimeout assocId (steps ++ [.send, .elapse (d - s.clock), .timeout]) := by
  intro h
  have hclock : s.clock + (d - s.clock) = d := Nat.add_sub_cancel' hnow
  have hexpired : ({ s with clock := s.clock + (d - s.clock) } : TimedSession).expired = true := by
    rw [hclock]
    simp only [TimedSession.expired, hd, Option.any_some, Nat.le_refl, decide_true, Bool.and_true]
    simpa only [TimedSession.listening, hd] using hlistening
  have hle := h (steps.length + 0) (steps.length + 2) (Nat.add_lt_add_left (by decide) _)
    (step_at_append steps _ rfl (.inr (.inr rfl)))
    (step_at_append steps _ rfl ⟨rfl, hs ▸ hexpired, hs ▸ hopen⟩)
  rw [Machine.stateAt_append, Machine.stateAt_append, hs] at hle
  change s.clock + streamTimeout ≤ s.clock + (d - s.clock) at hle
  rw [hclock] at hle
  exact absurd hle (Nat.not_le.2 hlate)

/-- Or if a packet comes in when the timer has ended, and the tick is seen first. -/
theorem onlyIdle_not_of_arrive {s : TimedSession}
    (hs : (timedSession streamTimeout assocId).stateAt steps steps.length = s)
    (hexpired : s.expired = true) (hopen : s.session.closeTx = true) (hpos : 0 < streamTimeout) :
    ¬ OnlyIdle streamTimeout assocId (steps ++ [.arrive, .timeout]) := by
  intro h
  have hle := h (steps.length + 0) (steps.length + 1) (Nat.add_lt_add_left (by decide) _)
    (step_at_append steps _ rfl (.inl rfl)) (step_at_append steps _ rfl ⟨rfl, hs ▸ hexpired, hs ▸ hopen⟩)
  rw [Machine.stateAt_append, Machine.stateAt_append, hs] at hle
  change s.clock + streamTimeout ≤ s.clock at hle
  exact absurd hle (Nat.not_le.2 (Nat.lt_add_of_pos_right hpos))

end

end Tuic.Server
