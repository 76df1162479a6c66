import Mathlib.Order.WellFounded
import Tuic.Lib.Refinement

/-! How far a machine comes by itself. Some of its steps do something in a state; runs of
them end when each makes a measure smaller, and then what matters is where none of them
is left. -/

namespace Lib.Machine

variable {σ α ω : Type} {m : Machine σ α ω} {works : σ → α → Prop}

/-- A step that works leads from the second state to the first. -/
def Next (m : Machine σ α ω) (works : σ → α → Prop) (t s : σ) : Prop := ∃ a, works s a ∧ (m.step s a).1 = t

/-- No run of such steps from here goes on for ever. -/
def Terminates (m : Machine σ α ω) (works : σ → α → Prop) (s : σ) : Prop := Acc (m.Next works) s

/-- No such step is left. -/
def Still (works : σ → α → Prop) (s : σ) : Prop := ∀ a, ¬ works s a

/-- A measure that every such step makes smaller, as long as an invariant holds. -/
theorem terminates_of_measure {β : Type} {r : β → β → Prop} (hr : WellFounded r) (f : σ → β) {P : σ → Prop}
    (hkeep : ∀ s a, P s → works s a → P (m.step s a).1)
    (hless : ∀ s a, P s → works s a → r (f (m.step s a).1) (f s)) {s : σ} (hs : P s) : m.Terminates works s := by
  induction hb : f s using hr.induction generalizing s with
  | _ b ih =>
    refine Acc.intro s fun t ⟨a, ha, ht⟩ => ?_
    subst ht
    exact ih _ (hb ▸ hless s a hs ha) (hkeep s a hs ha) rfl

/-- Then some run comes to where none is left. -/
theorem Terminates.exists_still {s : σ} (h : m.Terminates works s) :
    ∃ as, m.Keeps works s as ∧ Still works (m.exec s as) := by
  induction h with
  | intro s _ ih =>
    by_cases hs : Still works s
    · exact ⟨[], trivial, hs⟩
    · obtain ⟨a, ha⟩ := not_forall_not.1 hs
      obtain ⟨as, has, hstill⟩ := ih _ ⟨a, ha, rfl⟩
      exact ⟨a :: as, ⟨ha, has⟩, hstill⟩

end Lib.Machine
