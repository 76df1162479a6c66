import Tuic.Lib.Machine

/-! Refinement between machines. Every action of the concrete machine is matched by
a run of the abstract one, and whole runs are matched by induction. Guards say
which actions a run may take where. -/

namespace Lib.Machine

variable {σ α ω σ' α' ω' : Type}

/-- Every action of the run passes the guard in the state in which it is taken. -/
def Keeps (m : Machine σ α ω) (guard : σ → α → Prop) (s : σ) : List α → Prop
  | [] => True
  | a :: as => guard s a ∧ m.Keeps guard (m.step s a).1 as

section

variable {m : Machine σ α ω} {guard : σ → α → Prop}

@[simp] theorem keeps_nil (s : σ) : m.Keeps guard s [] := trivial

@[simp] theorem keeps_cons (s : σ) (a : α) (as : List α) :
    m.Keeps guard s (a :: as) ↔ guard s a ∧ m.Keeps guard (m.step s a).1 as := Iff.rfl

@[simp] theorem exec_nil (s : σ) : m.exec s [] = s := rfl

@[simp] theorem exec_cons (s : σ) (a : α) (as : List α) :
    m.exec s (a :: as) = m.exec (m.step s a).1 as := rfl

theorem keeps_append (s : σ) (as bs : List α) :
    m.Keeps guard s (as ++ bs) ↔ m.Keeps guard s as ∧ m.Keeps guard (m.exec s as) bs := by
  induction as generalizing s with
  | nil => simp
  | cons a as ih => simp only [List.cons_append, keeps_cons, ih, exec_cons, and_assoc]

/-- Two guards along one run. -/
theorem Keeps.and {guard' : σ → α → Prop} {as : List α} : ∀ {s : σ}, m.Keeps guard s as →
    m.Keeps guard' s as → m.Keeps (fun s a => guard s a ∧ guard' s a) s as := by
  induction as with
  | nil => exact fun _ _ => trivial
  | cons a as ih => exact fun h h' => ⟨⟨h.1, h'.1⟩, ih h.2 h'.2⟩

theorem Keeps.mono {guard' : σ → α → Prop} (h : ∀ s a, guard s a → guard' s a) {as : List α} :
    ∀ {s : σ}, m.Keeps guard s as → m.Keeps guard' s as := by
  induction as with
  | nil => exact fun _ => trivial
  | cons a as ih => exact fun has => ⟨h _ _ has.1, ih has.2⟩

/-- What guarded actions preserve holds at the end of a guarded run. -/
theorem Keeps.invariant {P : σ → Prop} (hstep : ∀ s a, guard s a → P s → P (m.step s a).1)
    {as : List α} : ∀ {s : σ}, m.Keeps guard s as → P s → P (m.exec s as) := by
  induction as with
  | nil => exact fun _ hs => hs
  | cons a as ih => exact fun has hs => ih has.2 (hstep _ _ has.1 hs)

end

/-- Every action that passes the guard of `m` is matched, from related states, by a
run of `n` that passes the guard of `n`. -/
structure Refines (m : Machine σ α ω) (guard : σ → α → Prop) (n : Machine σ' α' ω')
    (guard' : σ' → α' → Prop) (rel : σ → σ' → Prop) : Prop where
  init : rel m.init n.init
  step : ∀ s s' a, rel s s' → guard s a →
    ∃ as, n.Keeps guard' s' as ∧ rel (m.step s a).1 (n.exec s' as)

namespace Refines

variable {m : Machine σ α ω} {n : Machine σ' α' ω'} {guard : σ → α → Prop} {guard' : σ' → α' → Prop}
  {rel : σ → σ' → Prop}

/-- A run from related states is matched action by action. -/
theorem run_from (h : Refines m guard n guard' rel) :
    ∀ (as : List α) (s : σ) (s' : σ'), rel s s' → m.Keeps guard s as →
      ∃ as', n.Keeps guard' s' as' ∧ rel (m.exec s as) (n.exec s' as') := by
  intro as
  induction as with
  | nil => exact fun s s' hrel _ => ⟨[], trivial, hrel⟩
  | cons a as ih =>
    intro s s' hrel hkeeps
    obtain ⟨bs, hbs, hstep⟩ := h.step s s' a hrel hkeeps.1
    obtain ⟨cs, hcs, hrun⟩ := ih _ _ hstep hkeeps.2
    refine ⟨bs ++ cs, (n.keeps_append _ _ _).2 ⟨hbs, hcs⟩, ?_⟩
    rw [exec_append]
    exact hrun

theorem run (h : Refines m guard n guard' rel) {as : List α} (hkeeps : m.Keeps guard m.init as) :
    ∃ as', n.Keeps guard' n.init as' ∧ rel (m.exec m.init as) (n.exec n.init as') :=
  h.run_from as _ _ h.init hkeeps

end Refines

end Lib.Machine
