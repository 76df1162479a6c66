import Mathlib.Data.Nat.Notation
import Mathlib.Data.List.Basic

/-! Deterministic machines that answer every action with an output, and what
holds along their runs. A run is the list of its actions; `stateAt` and `outAt`
read it at a position. -/

namespace Lib

structure Machine (σ α ω : Type) where
  init : σ
  step : σ → α → σ × ω

namespace Machine

variable {σ α ω : Type} (m : Machine σ α ω)

def exec (s : σ) (as : List α) : σ := as.foldl (fun s a => (m.step s a).1) s

/-- The state in which action number `i` is taken. -/
def stateAt (as : List α) (i : ℕ) : σ := m.exec m.init (as.take i)

/-- The output of action number `i`. -/
def outAt (as : List α) (i : ℕ) : Option ω := as[i]?.map fun a => (m.step (m.stateAt as i) a).2

/-- All outputs of the actions taken from `s`. -/
def outputs (s : σ) : List α → List ω
  | [] => []
  | a :: as => (m.step s a).2 :: outputs (m.step s a).1 as

def Reachable (s : σ) : Prop := ∃ as, m.exec m.init as = s

theorem exec_concat (s : σ) (as : List α) (a : α) :
    m.exec s (as ++ [a]) = (m.step (m.exec s as) a).1 := by
  simp [exec]

theorem exec_append (s : σ) (as bs : List α) : m.exec s (as ++ bs) = m.exec (m.exec s as) bs :=
  List.foldl_append

/-- A run that goes on. -/
theorem stateAt_append (as bs : List α) (j : ℕ) :
    m.stateAt (as ++ bs) (as.length + j) = m.exec (m.stateAt as as.length) (bs.take j) := by
  rw [stateAt, List.take_length_add_append, stateAt, List.take_length, exec_append]

theorem stateAt_succ {as : List α} {i : ℕ} {a : α} (h : as[i]? = some a) :
    m.stateAt as (i + 1) = (m.step (m.stateAt as i) a).1 := by
  simp [stateAt, exec, List.take_add_one, h, List.foldl_append]

theorem outAt_eq {as : List α} {i : ℕ} {a : α} (h : as[i]? = some a) :
    m.outAt as i = some (m.step (m.stateAt as i) a).2 := by
  simp [outAt, h]

theorem outAt_some {as : List α} {i : ℕ} {o : ω} (h : m.outAt as i = some o) :
    ∃ a, as[i]? = some a ∧ (m.step (m.stateAt as i) a).2 = o := by
  simpa [outAt] using h

/-- Action number `i` is taken, and `P` holds of it and the state before it. -/
def At (as : List α) (P : σ → α → Prop) (i : ℕ) : Prop :=
  ∃ a, as[i]? = some a ∧ P (m.stateAt as i) a

theorem at_iff {as : List α} {i : ℕ} {a : α} (h : as[i]? = some a) {P : σ → α → Prop} :
    m.At as P i ↔ P (m.stateAt as i) a := by
  simp [At, h]

theorem stateAt_reachable (as : List α) (i : ℕ) : m.Reachable (m.stateAt as i) :=
  ⟨as.take i, rfl⟩

theorem reachable_init : m.Reachable m.init := ⟨[], rfl⟩

theorem reachable_step {s : σ} (h : m.Reachable s) (a : α) : m.Reachable (m.step s a).1 := by
  obtain ⟨as, rfl⟩ := h
  exact ⟨as ++ [a], m.exec_concat m.init as a⟩

variable {m}

/-- What holds at one position of a run and is kept by every action from there on. -/
theorem run_induction {as : List α} {P : ℕ → Prop} {k : ℕ} (hk : P k)
    (hs : ∀ i a, k ≤ i → as[i]? = some a → P i → P (i + 1)) {i : ℕ} (hki : k ≤ i)
    (hi : i ≤ as.length) : P i := by
  induction hki with
  | refl => exact hk
  | step hki ih => exact hs _ _ hki (List.getElem?_eq_getElem hi) (ih (Nat.le_of_succ_le hi))

/-- What holds along a run, with the number of actions taken so far. -/
theorem run_invariant (as : List α) {P : ℕ → σ → Prop} (h0 : P 0 m.init)
    (hs : ∀ i a, as[i]? = some a → P i (m.stateAt as i) →
      P (i + 1) (m.step (m.stateAt as i) a).1) :
    ∀ i, i ≤ as.length → P i (m.stateAt as i) := by
  intro i hi
  refine run_induction (P := fun i => P i (m.stateAt as i)) h0 (fun i a _ ha ih => ?_) (Nat.zero_le i) hi
  rw [m.stateAt_succ ha]
  exact hs i a ha ih

/-- What every step preserves holds in every reachable state. -/
theorem Reachable.invariant {P : σ → Prop} (h0 : P m.init)
    (hs : ∀ s a, P s → P (m.step s a).1) {s : σ} (h : m.Reachable s) : P s := by
  obtain ⟨as, rfl⟩ := h
  have := run_invariant as (P := fun _ s => P s) h0 (fun i a _ hp => hs _ a hp)
    as.length (Nat.le_refl _)
  simpa [stateAt] using this

end Machine

end Lib
