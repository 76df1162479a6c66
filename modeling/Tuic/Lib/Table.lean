import Mathlib.Logic.Basic

/-! Keyed tables: what a hash map holds at each key, up to iteration order. -/

namespace Lib

/-- A table from `κ` to `σ`; an absent key reads as `none`. -/
def Table (κ σ : Type) := κ → Option σ

namespace Table

variable {κ σ : Type}

def empty : Table κ σ := fun _ => none

def get (t : Table κ σ) (k : κ) : Option σ := t k

/-- Keeps the entries whose value passes `p`. -/
def retain (t : Table κ σ) (p : σ → Bool) : Table κ σ := fun k => (t k).filter p

def mapValues (t : Table κ σ) (f : σ → σ) : Table κ σ := fun k => (t k).map f

def map {τ : Type} (t : Table κ σ) (f : σ → τ) : Table κ τ := fun k => (t k).map f

@[ext] theorem ext {t u : Table κ σ} (h : ∀ k, t.get k = u.get k) : t = u := funext h

@[simp] theorem get_empty (k : κ) : (empty : Table κ σ).get k = none := rfl

@[simp] theorem get_retain (t : Table κ σ) (p : σ → Bool) (k : κ) :
    (t.retain p).get k = (t.get k).filter p := rfl

@[simp] theorem get_mapValues (t : Table κ σ) (f : σ → σ) (k : κ) :
    (t.mapValues f).get k = (t.get k).map f := rfl

@[simp] theorem get_map {τ : Type} (t : Table κ σ) (f : σ → τ) (k : κ) :
    (t.map f).get k = (t.get k).map f := rfl

variable [DecidableEq κ]

def insert (t : Table κ σ) (k : κ) (v : σ) : Table κ σ := fun k' => if k' = k then some v else t k'

def remove (t : Table κ σ) (k : κ) : Table κ σ := fun k' => if k' = k then none else t k'

theorem get_insert (t : Table κ σ) (k k' : κ) (v : σ) :
    (t.insert k v).get k' = if k' = k then some v else t.get k' := rfl

theorem get_remove (t : Table κ σ) (k k' : κ) :
    (t.remove k).get k' = if k' = k then none else t.get k' := rfl

@[simp] theorem get_insert_self (t : Table κ σ) (k : κ) (v : σ) :
    (t.insert k v).get k = some v := by simp [get_insert]

@[simp] theorem get_remove_self (t : Table κ σ) (k : κ) : (t.remove k).get k = none := by
  simp [get_remove]

theorem get_insert_ne (t : Table κ σ) {k k' : κ} (v : σ) (h : k' ≠ k) :
    (t.insert k v).get k' = t.get k' := by simp [get_insert, h]

/-- Writing back what is there changes nothing. -/
theorem insert_get {t : Table κ σ} {k : κ} {v : σ} (h : t.get k = some v) : t.insert k v = t := by
  ext1 k'
  by_cases hk : k' = k
  · subst hk
    rw [get_insert_self, h]
  · exact get_insert_ne t v hk

theorem get_remove_ne (t : Table κ σ) {k k' : κ} (h : k' ≠ k) :
    (t.remove k).get k' = t.get k' := by simp [get_remove, h]

end Table

end Lib
