import Mathlib.Algebra.Group.Basic
import Mathlib.Algebra.Order.Monoid.Defs
import Mathlib.Algebra.GroupWithZero.Nat
import Mathlib.Data.List.Basic
import Mathlib.Data.Multiset.ZeroCons

/-! Pools: lists whose entries keep their number. An entry is added at the end and
changed in place, never removed. -/

namespace Lib.Pool

variable {α : Type}

/-- An entry of a pool after `f` changed entry number `x`. -/
theorem modify_eq_some {l : List α} {x y : ℕ} {f : α → α} {v : α} :
    (l.modify x f)[y]? = some v ↔ ∃ u, l[y]? = some u ∧ v = if x = y then f u else u := by
  rw [List.getElem?_modify]
  cases l[y]? with
  | none => simp
  | some u => simp [eq_comm]

/-- An entry of a pool after `a` was added. -/
theorem concat_eq_some {l : List α} {a v : α} {y : ℕ} :
    (l ++ [a])[y]? = some v ↔ l[y]? = some v ∨ (y = l.length ∧ v = a) := by
  rw [List.getElem?_append]
  by_cases hlt : y < l.length
  · have hne : y ≠ l.length := by omega
    simp [hlt, hne]
  · have hnone : l[y]? = none := List.getElem?_eq_none (by omega)
    rw [if_neg hlt, List.getElem?_singleton]
    by_cases heq : y = l.length
    · simp [heq, eq_comm]
    · have hne : y - l.length ≠ 0 := by omega
      simp [heq, hnone, hne]

/-- What holds of every entry, and of one after its change. -/
theorem forall_mem_modify {P : α → Prop} {l : List α} {x : ℕ} {f : α → α} (h : ∀ u ∈ l, P u)
    (hf : ∀ u, l[x]? = some u → P (f u)) : ∀ v ∈ l.modify x f, P v := by
  intro v hv
  obtain ⟨y, hy⟩ := List.mem_iff_getElem?.1 hv
  obtain ⟨u, hu, rfl⟩ := modify_eq_some.1 hy
  split_ifs with hxy
  · subst hxy
    exact hf u hu
  · exact h u (List.mem_of_getElem? hu)

theorem lt_of_eq_some {l : List α} {y : ℕ} {v : α} (h : l[y]? = some v) : y < l.length :=
  (List.getElem?_eq_some_iff.1 h).1

/-- Changing an entry changes a count by what it changes for the entry. -/
theorem countP_modify {p : α → Bool} {l : List α} {x : ℕ} {u : α} (h : l[x]? = some u) (f : α → α) :
    (l.modify x f).countP p + (if p u then 1 else 0) = l.countP p + if p (f u) then 1 else 0 := by
  induction l generalizing x with
  | nil => simp at h
  | cons a l ih =>
    cases x with
    | zero =>
      obtain rfl : a = u := by simpa using h
      simp only [List.modify_zero_cons, List.countP_cons]
      omega
    | succ x =>
      have := ih (x := x) (by simpa using h)
      simp only [List.modify_succ_cons, List.countP_cons]
      omega

/-- An entry that stays in or out of a count does not change it. -/
theorem countP_modify_same {p : α → Bool} {l : List α} {x : ℕ} {u : α} (h : l[x]? = some u)
    {f : α → α} (hf : p (f u) = p u) : (l.modify x f).countP p = l.countP p := by
  have := countP_modify (p := p) h f
  rw [hf] at this
  omega

/-- Changing an entry changes a sum by what it changes for the entry. -/
theorem sum_modify {l : List α} {x : ℕ} {u : α} (h : l[x]? = some u) (g : α → ℕ) (f : α → α) :
    ((l.modify x f).map g).sum + g u = (l.map g).sum + g (f u) := by
  induction l generalizing x with
  | nil => simp at h
  | cons a l ih =>
    cases x with
    | zero =>
      obtain rfl : a = u := by simpa using h
      simp only [List.modify_zero_cons, List.map_cons, List.sum_cons]
      omega
    | succ x =>
      have := ih (x := x) (by simpa using h)
      simp only [List.modify_succ_cons, List.map_cons, List.sum_cons]
      omega

/-- The same of a sum in any commutative monoid. -/
theorem sum_map_modify {M : Type} [AddCommMonoid M] {l : List α} {x : ℕ} {u : α} (h : l[x]? = some u)
    (g : α → M) (f : α → α) : ((l.modify x f).map g).sum + g u = (l.map g).sum + g (f u) := by
  induction l generalizing x with
  | nil => simp at h
  | cons a l ih =>
    cases x with
    | zero =>
      obtain rfl : a = u := by simpa using h
      simp only [List.modify_zero_cons, List.map_cons, List.sum_cons]
      rw [add_right_comm, add_right_comm (g a), add_comm (g a)]
    | succ x =>
      have := ih (x := x) (by simpa using h)
      simp only [List.modify_succ_cons, List.map_cons, List.sum_cons]
      rw [add_assoc, this, add_assoc]

/-- A change that `f` does not see does not change a map by `f`. -/
theorem map_modify_same {β : Type} {f : α → β} {g : α → α} {l : List α} {x : ℕ}
    (h : ∀ u, l[x]? = some u → f (g u) = f u) : (l.modify x g).map f = l.map f := by
  apply List.ext_getElem?
  intro y
  rw [List.getElem?_map, List.getElem?_modify, List.getElem?_map]
  by_cases hxy : x = y
  · subst hxy
    cases hu : l[x]? with
    | none => rfl
    | some u => simp [h u hu]
  · cases l[y]? <;> simp [hxy]

/-- A change that makes no summand larger makes no sum larger. -/
theorem sum_map_modify_le {M : Type} [AddCommMonoid M] [PartialOrder M] [IsOrderedAddMonoid M]
    {l : List α} {x : ℕ} {g : α → M} {f : α → α} (h : ∀ u, l[x]? = some u → g (f u) ≤ g u) :
    ((l.modify x f).map g).sum ≤ (l.map g).sum := by
  induction l generalizing x with
  | nil => simp
  | cons a l ih =>
    cases x with
    | zero =>
      simp only [List.modify_zero_cons, List.map_cons, List.sum_cons]
      exact add_le_add_left (h a rfl) _
    | succ x =>
      simp only [List.modify_succ_cons, List.map_cons, List.sum_cons]
      exact add_le_add_right (ih fun u hu => h u (by simpa using hu)) _

/-- Taking an element out of a list takes its summand out of a sum. -/
theorem sum_map_eraseIdx {M : Type} [AddCommMonoid M] {l : List α} {x : ℕ} {u : α}
    (h : l[x]? = some u) (g : α → M) : g u + ((l.eraseIdx x).map g).sum = (l.map g).sum := by
  induction l generalizing x with
  | nil => simp at h
  | cons a l ih =>
    cases x with
    | zero =>
      obtain rfl : a = u := by simpa using h
      simp
    | succ x =>
      have := ih (x := x) (by simpa using h)
      simp only [List.eraseIdx_cons_succ, List.map_cons, List.sum_cons]
      rw [add_left_comm, this]

theorem countP_eraseIdx {l : List α} {x : ℕ} {u : α} (h : l[x]? = some u) (p : α → Bool) :
    (l.eraseIdx x).countP p + (if p u then 1 else 0) = l.countP p := by
  obtain ⟨hlt, rfl⟩ := List.getElem?_eq_some_iff.1 h
  rw [← List.countP_cons]
  exact (List.getElem_cons_eraseIdx_perm hlt).countP_eq p

/-- Taking an element out of a list, with the order forgotten. -/
theorem coe_map_eraseIdx {β : Type} {l : List α} {x : ℕ} {u : α} (h : l[x]? = some u) (g : α → β) :
    (↑(l.map g) : Multiset β) = g u ::ₘ ↑((l.eraseIdx x).map g) := by
  obtain ⟨hlt, rfl⟩ := List.getElem?_eq_some_iff.1 h
  have hperm := (List.getElem_cons_eraseIdx_perm hlt).symm.map g
  exact Multiset.coe_eq_coe.2 hperm

/-- Changing an entry before or after a map. -/
theorem map_modify {β : Type} {f : α → β} {g : α → α} {g' : β → β} {l : List α} {x : ℕ}
    (h : ∀ u, l[x]? = some u → f (g u) = g' (f u)) : (l.modify x g).map f = (l.map f).modify x g' := by
  apply List.ext_getElem?
  intro y
  rw [List.getElem?_map, List.getElem?_modify, List.getElem?_modify, List.getElem?_map]
  cases hy : l[y]? with
  | none => rfl
  | some u =>
    by_cases hxy : x = y
    · subst hxy
      simp [h u hy]
    · simp [hxy]

end Lib.Pool
