import Mathlib.Data.Nat.Notation
import Tuic.Lib.Outcome

/-! Rows of slots that are filled one by one: how many are filled, and taking
the contents out once all of them are. -/

namespace Lib.Slots

variable {α ε : Type}

/-- The number of filled slots. -/
def filled (s : List (Option α)) : ℕ := s.countP Option.isSome

/-- Every slot is filled. -/
def Full (s : List (Option α)) : Prop := ∀ x ∈ s, x.isSome = true

instance (s : List (Option α)) : Decidable (Full s) :=
  inferInstanceAs (Decidable (∀ x ∈ s, x.isSome = true))

/-- The contents of all slots; an empty slot panics. -/
def unwrapAll : List (Option α) → Outcome ε (List α)
  | [] => .ok []
  | none :: _ => .panic .unwrapNone
  | some x :: s => do
    let xs ← unwrapAll s
    pure (x :: xs)

theorem filled_replicate (n : ℕ) : filled (List.replicate n (none : Option α)) = 0 := by
  simp [filled, List.countP_replicate]

theorem filled_le_length (s : List (Option α)) : filled s ≤ s.length := List.countP_le_length

theorem filled_eq_length {s : List (Option α)} : filled s = s.length ↔ Full s :=
  List.countP_eq_length

theorem filled_set {s : List (Option α)} {i : ℕ} (h : s[i]? = some none) (x : α) :
    filled (s.set i (some x)) = filled s + 1 := by
  obtain ⟨hi, he⟩ := List.getElem?_eq_some_iff.1 h
  simp [filled, List.countP_set hi, he]

theorem filled_lt {s : List (Option α)} {i : ℕ} (h : s[i]? = some none) : filled s < s.length := by
  have := filled_set h
  have hle := fun x => filled_le_length (s.set i (some x))
  refine Nat.lt_of_le_of_ne (filled_le_length s) fun heq => ?_
  have hfull := filled_eq_length.1 heq none (List.mem_of_getElem? h)
  cases hfull

theorem unwrapAll_map_some (xs : List α) : (unwrapAll (xs.map some) : Outcome ε _) = .ok xs := by
  induction xs with
  | nil => rfl
  | cons x xs ih => simp [unwrapAll, ih]

theorem Full.exists_map {s : List (Option α)} (h : Full s) : ∃ xs : List α, s = xs.map some := by
  induction s with
  | nil => exact ⟨[], rfl⟩
  | cons x s ih =>
    obtain ⟨y, rfl⟩ := Option.isSome_iff_exists.1 (h x (by simp))
    obtain ⟨ys, rfl⟩ := ih fun z hz => h z (by simp [hz])
    exact ⟨y :: ys, rfl⟩

/-- Full rows are exactly those whose contents can be taken out. -/
theorem Full.unwrapAll {s : List (Option α)} (h : Full s) :
    ∃ xs, (unwrapAll s : Outcome ε _) = .ok xs := by
  obtain ⟨xs, rfl⟩ := h.exists_map
  exact ⟨xs, unwrapAll_map_some xs⟩

end Lib.Slots
