import Mathlib.Data.Nat.Notation
import Mathlib.Data.List.Basic

/-! Cutting a list at a sequence of positions, and comparing two lists part by part. -/

namespace Lib

variable {α : Type}

theorem extract_length (xs : List α) {start stop : ℕ} (h : stop ≤ xs.length) :
    (xs.extract start stop).length = stop - start := by
  simp only [List.extract_eq_take_drop, List.length_take, List.length_drop]
  omega

theorem take_append_extract (xs : List α) {start stop : ℕ} (h : start ≤ stop) :
    xs.take start ++ xs.extract start stop = xs.take stop := by
  have hstop : stop = start + (stop - start) := by omega
  rw [hstop, List.take_add, List.extract_eq_take_drop, Nat.add_sub_cancel_left]

/-- Consecutive segments join up to what they were cut from. -/
theorem flatMap_extract (xs : List α) {f : ℕ → ℕ} (h0 : f 0 = 0) (hf : ∀ i, f i ≤ f (i + 1)) (k : ℕ) :
    (List.range k).flatMap (fun i => xs.extract (f i) (f (i + 1))) = xs.take (f k) := by
  induction k with
  | zero => simp [h0]
  | succ k ih =>
    rw [List.range_succ, List.flatMap_append, ih, List.flatMap_singleton,
      take_append_extract xs (hf k)]

/-- Prefixes are compared part by part where the first parts are equally long. -/
theorem append_prefix_append {xs ys us vs : List α} (h : xs.length = ys.length) :
    xs ++ us <+: ys ++ vs ↔ xs = ys ∧ us <+: vs := by
  constructor
  · rintro ⟨ts, ht⟩
    rw [List.append_assoc] at ht
    obtain ⟨hxs, hus⟩ := List.append_inj ht h
    exact ⟨hxs, ts, hus⟩
  · rintro ⟨rfl, hus⟩
    exact (List.prefix_append_right_inj xs).2 hus

end Lib
