import Tuic.Lib.Machine

/-! Tasks that sleep for a fixed time, do something and sleep again, in a machine with a
clock. A sleep is over no earlier than its deadline; where it is over by then or soon
after, the task has woken up within any time that is long enough. -/

namespace Lib

variable {σ α ω : Type}

/-- `deadline` is when the sleep of the task is over, as long as there is a task. -/
structure Timer (m : Machine σ α ω) where
  clock : σ → ℕ
  deadline : σ → Option ℕ
  Wakes : σ → α → Prop
  interval : ℕ
  starts : ∀ d, deadline m.init = some d → d ≤ clock m.init + interval
  advances : ∀ s a, clock s ≤ clock (m.step s a).1
  sleeps : ∀ s a, ¬ Wakes s a → ∀ d, deadline (m.step s a).1 = some d → deadline s = some d
  resets : ∀ s a, Wakes s a → ∀ d, deadline (m.step s a).1 = some d → d ≤ clock (m.step s a).1 + interval

namespace Timer

variable {m : Machine σ α ω} (t : Timer m)

/-- No sleep takes longer than it should by more than `late`. -/
def OnTime (late : ℕ) (as : List α) : Prop :=
  ∀ i ≤ as.length, ∀ d, t.deadline (m.stateAt as i) = some d → t.clock (m.stateAt as i) ≤ d + late

theorem onTime_of_all {late : ℕ} {as : List α}
    (h : ∀ i ∈ List.range (as.length + 1),
      ((t.deadline (m.stateAt as i)).all fun d => decide (t.clock (m.stateAt as i) ≤ d + late)) = true) :
    t.OnTime late as := by
  intro i hi d hd
  have := h i (List.mem_range.2 (Nat.lt_succ_of_le hi))
  rw [hd] at this
  exact of_decide_eq_true this

theorem clock_mono {as : List α} {i j : ℕ} (hij : i ≤ j) (hj : j ≤ as.length) :
    t.clock (m.stateAt as i) ≤ t.clock (m.stateAt as j) := by
  refine Machine.run_induction (P := fun j => t.clock (m.stateAt as i) ≤ t.clock (m.stateAt as j))
    (Nat.le_refl _) (fun k a _ ha ih => ?_) hij hj
  rw [m.stateAt_succ ha]
  exact Nat.le_trans ih (t.advances _ a)

/-- The task begins to sleep at the start and when it has been awake. -/
def Begins (as : List α) (k : ℕ) : Prop := k = 0 ∨ ∃ i, k = i + 1 ∧ m.At as t.Wakes i

/-- The deadline is that of a sleep that has begun. -/
theorem deadline_le {as : List α} {i : ℕ} (hi : i ≤ as.length) {d : ℕ}
    (hd : t.deadline (m.stateAt as i) = some d) :
    ∃ k ≤ i, t.Begins as k ∧ d ≤ t.clock (m.stateAt as k) + t.interval := by
  refine Machine.run_induction (k := 0)
    (P := fun i => ∀ d, t.deadline (m.stateAt as i) = some d →
      ∃ k ≤ i, t.Begins as k ∧ d ≤ t.clock (m.stateAt as k) + t.interval)
    (fun d hd => ⟨0, Nat.le_refl _, .inl rfl, t.starts d hd⟩) (fun i a _ ha ih d hd => ?_) (Nat.zero_le i) hi d hd
  by_cases hwakes : t.Wakes (m.stateAt as i) a
  · refine ⟨i + 1, Nat.le_refl _, .inr ⟨i, rfl, a, ha, hwakes⟩, ?_⟩
    rw [m.stateAt_succ ha] at hd ⊢
    exact t.resets _ a hwakes d hd
  · rw [m.stateAt_succ ha] at hd
    obtain ⟨k, hk, hbegins, hle⟩ := ih d (t.sleeps _ a hwakes d hd)
    exact ⟨k, Nat.le_succ_of_le hk, hbegins, hle⟩

/-- As long as there is a task, its last sleep has begun not long ago. -/
theorem OnTime.begun {late : ℕ} {as : List α} (h : t.OnTime late as) {i : ℕ} (hi : i ≤ as.length)
    (htask : (t.deadline (m.stateAt as i)).isSome) :
    ∃ k ≤ i, t.Begins as k ∧ t.clock (m.stateAt as i) ≤ t.clock (m.stateAt as k) + t.interval + late := by
  obtain ⟨d, hd⟩ := Option.isSome_iff_exists.1 htask
  obtain ⟨k, hk, hbegins, hle⟩ := t.deadline_le hi hd
  have := h i hi d hd
  exact ⟨k, hk, hbegins, by omega⟩

/-- Within any longer time the task wakes up. -/
theorem OnTime.wakes_between {late : ℕ} {as : List α} (h : t.OnTime late as) {i j : ℕ} (hj : j ≤ as.length)
    (hi : i ≤ as.length) (htask : (t.deadline (m.stateAt as j)).isSome)
    (hlong : t.clock (m.stateAt as i) + t.interval + late < t.clock (m.stateAt as j)) :
    ∃ k, i ≤ k ∧ k < j ∧ m.At as t.Wakes k := by
  obtain ⟨k, hkj, hbegins, hle⟩ := h.begun t hj htask
  have hik : i < k := by
    by_contra hki
    have := t.clock_mono (Nat.le_of_not_lt hki) hi
    omega
  rcases hbegins with rfl | ⟨k, rfl, hwakes⟩
  · exact absurd hik (Nat.not_lt_zero i)
  · exact ⟨k, Nat.le_of_lt_succ hik, hkj, hwakes⟩

end Timer

end Lib
