import Mathlib.Order.Basic

/-! What happened before a point of a run. Events are predicates on the positions
of the run. -/

namespace Lib

/-- Some `p` happened before `n`, and no `q` since. -/
def Since (p q : ℕ → Prop) (n : ℕ) : Prop := ∃ i < n, p i ∧ ∀ k, i < k → k < n → ¬ q k

variable {p q : ℕ → Prop}

@[simp] theorem not_since_zero : ¬ Since p q 0 := by
  rintro ⟨i, hi, -⟩
  exact Nat.not_lt_zero i hi

theorem since_succ {n : ℕ} : Since p q (n + 1) ↔ p n ∨ (Since p q n ∧ ¬ q n) := by
  constructor
  · rintro ⟨i, hi, hp, hq⟩
    rcases Nat.lt_succ_iff_lt_or_eq.1 hi with h | rfl
    · exact .inr ⟨⟨i, h, hp, fun k hk hkn => hq k hk (by omega)⟩, hq n h (by omega)⟩
    · exact .inl hp
  · rintro (hp | ⟨⟨i, hi, hp, hq⟩, hn⟩)
    · exact ⟨n, by omega, hp, fun k hk hkn => by omega⟩
    · refine ⟨i, by omega, hp, fun k hk hkn => ?_⟩
      rcases Nat.lt_succ_iff_lt_or_eq.1 hkn with h | rfl
      · exact hq k hk h
      · exact hn

end Lib
