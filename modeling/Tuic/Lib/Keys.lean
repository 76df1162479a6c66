import Mathlib.Data.Set.Card
import Tuic.Lib.Table

/-! The keys of a table, and how many there are. -/

namespace Lib.Table

variable {κ σ : Type}

/-- The keys that have an entry. -/
def keys (t : Table κ σ) : Set κ := {k | t.get k ≠ none}

theorem mem_keys {t : Table κ σ} {k : κ} : k ∈ t.keys ↔ t.get k ≠ none := Iff.rfl

theorem mem_keys_of_some {t : Table κ σ} {k : κ} {v : σ} (h : t.get k = some v) : k ∈ t.keys := by
  simp [mem_keys, h]

theorem notMem_keys {t : Table κ σ} {k : κ} : k ∉ t.keys ↔ t.get k = none := not_not

@[simp] theorem keys_empty : (empty : Table κ σ).keys = ∅ := by
  ext k
  simp [mem_keys]

@[simp] theorem keys_mapValues (t : Table κ σ) (f : σ → σ) : (t.mapValues f).keys = t.keys := by
  ext k
  simp [mem_keys]

@[simp] theorem keys_map {τ : Type} (t : Table κ σ) (f : σ → τ) : (t.map f).keys = t.keys := by
  ext k
  simp [mem_keys]

variable [DecidableEq κ]

theorem keys_insert (t : Table κ σ) (k : κ) (v : σ) : (t.insert k v).keys = Insert.insert k t.keys := by
  ext k'
  by_cases h : k' = k
  · simp [mem_keys, h]
  · simp [mem_keys, get_insert_ne t v h, h]

theorem keys_insert_of_mem {t : Table κ σ} {k : κ} (h : k ∈ t.keys) (v : σ) :
    (t.insert k v).keys = t.keys := by
  rw [keys_insert, Set.insert_eq_of_mem h]

theorem keys_remove (t : Table κ σ) (k : κ) : (t.remove k).keys = t.keys \ {k} := by
  ext k'
  by_cases h : k' = k
  · simp [mem_keys, h]
  · simp [mem_keys, get_remove_ne t h, h]

theorem ncard_keys_insert [Finite κ] {t : Table κ σ} {k : κ} (h : k ∉ t.keys) (v : σ) :
    (t.insert k v).keys.ncard = t.keys.ncard + 1 := by
  rw [keys_insert, Set.ncard_insert_of_notMem h]

theorem ncard_keys_remove [Finite κ] {t : Table κ σ} {k : κ} (h : k ∈ t.keys) :
    (t.remove k).keys.ncard = t.keys.ncard - 1 := by
  rw [keys_remove, Set.ncard_sdiff_singleton_of_mem h]

end Lib.Table
