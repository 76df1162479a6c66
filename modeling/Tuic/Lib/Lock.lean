import Tuic.Lib.Pool

/-! Locks over a pool of tasks. The lock knows the number of its holder, and a task
shows by where it is whether it holds the lock. -/

namespace Lib

variable {α : Type}

/-- The tasks that hold the lock are the one that the lock knows. -/
structure Held (holds : α → Prop) (tasks : List α) (holder : Option ℕ) : Prop where
  only : ∀ x v, tasks[x]? = some v → holds v → holder = some x
  live : ∀ x, holder = some x → ∃ v, tasks[x]? = some v ∧ holds v

namespace Held

variable {holds : α → Prop} {tasks : List α} {holder : Option ℕ} {x : ℕ} {u v : α}

theorem nil : Held holds [] none := ⟨nofun, nofun⟩

theorem unique (h : Held holds tasks holder) {y : ℕ} (hx : tasks[x]? = some u) (hy : tasks[y]? = some v)
    (hu : holds u) (hv : holds v) : x = y :=
  Option.some.inj ((h.only x u hx hu).symm.trans (h.only y v hy hv))

/-- A new task does not hold the lock. -/
theorem concat (h : Held holds tasks holder) (hv : ¬ holds v) : Held holds (tasks ++ [v]) holder where
  only y w hy hw := by
    rcases Pool.concat_eq_some.1 hy with hold | ⟨-, rfl⟩
    · exact h.only y w hold hw
    · exact absurd hw hv
  live y hy := by
    obtain ⟨w, hw, hholds⟩ := h.live y hy
    exact ⟨w, Pool.concat_eq_some.2 (.inl hw), hholds⟩

/-- A task goes on and neither takes nor gives back the lock. -/
theorem keep (h : Held holds tasks holder) (hx : tasks[x]? = some u) (hv : holds v ↔ holds u) :
    Held holds (tasks.modify x fun _ => v) holder where
  only y w hy hw := by
    obtain ⟨w', hw', rfl⟩ := Pool.modify_eq_some.1 hy
    split_ifs at hw with hxy
    · subst hxy
      exact h.only x u hx (hv.1 hw)
    · exact h.only y w' hw' hw
  live y hy := by
    obtain ⟨w, hw, hholds⟩ := h.live y hy
    refine ⟨_, Pool.modify_eq_some.2 ⟨w, hw, rfl⟩, ?_⟩
    split_ifs with hxy
    · subst hxy
      rw [hx] at hw
      cases hw
      exact hv.2 hholds
    · exact hholds

/-- A task takes the lock while nobody has it. -/
theorem acquire (h : Held holds tasks none) (hx : tasks[x]? = some u) (hv : holds v) :
    Held holds (tasks.modify x fun _ => v) (some x) where
  only y w hy hw := by
    obtain ⟨w', hw', rfl⟩ := Pool.modify_eq_some.1 hy
    split_ifs at hw with hxy
    · rw [hxy]
    · cases h.only y w' hw' hw
  live y hy := by
    cases hy
    exact ⟨v, Pool.modify_eq_some.2 ⟨u, hx, (if_pos rfl).symm⟩, hv⟩

/-- The holder gives the lock back. -/
theorem release (h : Held holds tasks holder) (hx : tasks[x]? = some u) (hu : holds u) (hv : ¬ holds v) :
    Held holds (tasks.modify x fun _ => v) none where
  only y w hy hw := by
    obtain ⟨w', hw', rfl⟩ := Pool.modify_eq_some.1 hy
    split_ifs at hw with hxy
    · exact absurd hw hv
    · exact absurd (h.unique hx hw' hu hw) hxy
  live _ hy := nomatch hy

/-- A task ends and gives back the lock if it has it. -/
theorem drop (h : Held holds tasks holder) (hx : tasks[x]? = some u) (hv : ¬ holds v) :
    Held holds (tasks.modify x fun _ => v) (if holder = some x then none else holder) := by
  split_ifs with hholder
  · obtain ⟨u', hu', hholds⟩ := h.live x hholder
    rw [hx] at hu'
    cases hu'
    exact h.release hx hholds hv
  · exact h.keep hx (iff_of_false hv fun hu => hholder (h.only x u hx hu))

end Held

end Lib
