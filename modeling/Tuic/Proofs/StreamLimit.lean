import Tuic.Lib.Pool
import Tuic.Spec.StreamLimit

/-! When the limit on the streams keeps up with them: when every stream is checked in
its turn. A handler compares for equality, so it misses a limit that others have
stepped over before its check, but never one that only its own stream has reached. -/

namespace Tuic.Server

open Lib

/-- Its check doubles the limit `max` if it finds as many streams. -/
def StreamHandler.isDue (max : UInt32) : StreamHandler → Bool
  | .spawned => true
  | .loaded max' => max' = max
  | .doubling max' => max.toNat < 2 * max'.toNat
  | .serving | .done => false

/-- How many handlers would double the limit. -/
def StreamLimit.due (s : StreamLimit) : ℕ := s.handlers.countP (StreamHandler.isDue s.max)

/-- What holds along a run whose checks are in turn: for each stream from the limit on
there is a handler that would double it. -/
structure StreamLimit.Kept (s : StreamLimit) : Prop where
  count : s.count < s.max.toNat + s.due
  positive : 0 < s.max.toNat
  doubling : ∀ max, .doubling max ∈ s.handlers → max.toNat < 2 ^ 31
  few : s.count < 2 ^ 31

namespace StreamLimit

variable {b : Build} {s : StreamLimit} {x : ℕ}

theorem mem_goOn {handler handler' : StreamHandler} (h : handler' ∈ (s.goOn x handler).handlers) :
    handler' = handler ∨ handler' ∈ s.handlers := by
  obtain ⟨y, hy⟩ := List.mem_iff_getElem?.1 h
  obtain ⟨u, hu, rfl⟩ := Pool.modify_eq_some.1 hy
  split_ifs
  · exact .inl rfl
  · exact .inr (List.mem_of_getElem? hu)

/-- A stream stays registered until its handler is done. -/
theorem count_goOn {handler : StreamHandler} (hx : s.handlers[x]? = some handler)
    (handler' : StreamHandler) (h : handler ≠ .done) (h' : handler' ≠ .done) : (s.goOn x handler').count = s.count := by
  apply Pool.countP_modify_same hx
  simp [h, h']

theorem count_goOn_done {handler : StreamHandler} (hx : s.handlers[x]? = some handler) :
    (s.goOn x .done).count ≤ s.count := by
  have h := Pool.countP_modify (p := fun h => decide (h ≠ .done)) hx fun _ => StreamHandler.done
  rw [if_neg (show ¬ decide (StreamHandler.done ≠ .done) = true by decide)] at h
  exact Nat.le.intro h

theorem count_accept (s : StreamLimit) : s.accept.count = s.count + 1 := by
  simp [count, accept, List.countP_append]

theorem mulU32_two {max : UInt32} (h : max.toNat < 2 ^ 31) :
    (max * 2).toNat = 2 * max.toNat ∧ (b.mulU32 max 2 : Outcome Empty UInt32) = .ok (max * 2) := by
  have hfits : max.toNat * (2 : UInt32).toNat < 2 ^ 32 := by
    change max.toNat * 2 < 2 ^ 32
    omega
  refine ⟨?_, b.mulU32_of_lt hfits⟩
  rw [UInt32.toNat_mul, Nat.mod_eq_of_lt hfits]
  exact Nat.mul_comm _ 2

theorem due_goOn {handler : StreamHandler} (hx : s.handlers[x]? = some handler) (handler' : StreamHandler) :
    (s.goOn x handler').due + (if handler.isDue s.max then 1 else 0) =
      s.due + if handler'.isDue s.max then 1 else 0 :=
  Pool.countP_modify (p := StreamHandler.isDue s.max) hx fun _ => handler'

/-- A handler that checks alone is the only one that would. -/
theorem ChecksAlone.due_le (h : s.ChecksAlone x) {handler : StreamHandler}
    (hx : s.handlers[x]? = some handler) : s.due = if handler.isDue s.max then 1 else 0 := by
  have hothers : (s.handlers.eraseIdx x).countP (StreamHandler.isDue s.max) = 0 := by
    rw [List.countP_eq_zero]
    intro other hother hdue
    have hchecking := h other hother
    cases other <;> simp [StreamHandler.isChecking, StreamHandler.isDue] at hchecking hdue
  rw [due, ← Pool.countP_eraseIdx hx, hothers, Nat.zero_add]

theorem kept_new : StreamLimit.new.Kept := ⟨by decide, by decide, nofun, by decide⟩

/-- A step that takes no handler away that would double the limit. -/
theorem Kept.goOn (h : s.Kept) {handler : StreamHandler} (hle : (s.goOn x handler).count ≤ s.count)
    (hcount : (s.goOn x handler).count < s.max.toNat + (s.goOn x handler).due)
    (hdouble : ∀ max, handler = .doubling max → max.toNat < 2 ^ 31) : (s.goOn x handler).Kept := by
  refine ⟨hcount, h.positive, fun max hmax => ?_, Nat.lt_of_le_of_lt hle h.few⟩
  rcases mem_goOn hmax with heq | hold
  · exact hdouble max heq.symm
  · exact h.doubling max hold

theorem Kept.accept (h : s.Kept) (hturn : s.InTurn .accept) : s.accept.Kept := by
  have hcount := count_accept s
  have hdue : s.accept.due = s.due + 1 := List.countP_append
  refine ⟨?_, h.positive, fun max hmax => ?_, hcount ▸ hturn⟩
  · rw [hcount, hdue]
    exact Nat.add_lt_add_right h.count 1
  · rcases List.mem_append.1 hmax with hold | hnew
    · exact h.doubling max hold
    · cases List.mem_singleton.1 hnew

theorem Kept.load (h : s.Kept) (x : ℕ) : (s.load x).Kept := by
  unfold StreamLimit.load
  split
  · rename_i hx
    have hcount := count_goOn hx (.loaded s.max) nofun nofun
    have hdue : (s.goOn x (.loaded s.max)).due = s.due := by
      simpa [StreamHandler.isDue] using due_goOn hx (.loaded s.max)
    exact h.goOn hcount.le (by rw [hcount, hdue]; exact h.count) nofun
  · exact h

/-- A comparison in turn finds the streams within the limit. -/
theorem Kept.count_le (h : s.Kept) (hturn : s.InTurn (.compare x)) {max : UInt32}
    (hx : s.handlers[x]? = some (.loaded max)) : s.count ≤ s.max.toNat := by
  rcases hturn with halone | hle
  · have hcount := h.count
    rw [halone.due_le hx] at hcount
    split_ifs at hcount <;> omega
  · exact hle

theorem Kept.compare (h : s.Kept) (hturn : s.InTurn (.compare x)) : (s.compare x).Kept := by
  unfold StreamLimit.compare
  split
  · rename_i max hx
    have hle := h.count_le hturn hx
    have hcount := h.count
    have hfew := h.few
    have hsame : UInt32.ofNat s.count = max ↔ s.count = max.toNat := by
      rw [← UInt32.toNat_inj, UInt32.toNat_ofNat', Nat.mod_eq_of_lt (by omega)]
    have hpositive := h.positive
    split_ifs with heq
    · have hkept := count_goOn hx (.doubling max) nofun nofun
      have hdue := due_goOn hx (.doubling max)
      rw [hsame] at heq
      refine h.goOn hkept.le ?_ fun max' hmax' => by cases hmax'; omega
      -- the double of the limit is above it
      simp only [StreamHandler.isDue, decide_eq_true_eq] at hdue
      split_ifs at hdue with hcurrent hlt
      · omega
      · subst hcurrent
        omega
      · omega
      · omega
    · have hkept := count_goOn hx .serving nofun nofun
      have hdue := due_goOn hx .serving
      rw [hsame] at heq
      refine h.goOn hkept.le ?_ nofun
      simp only [StreamHandler.isDue, decide_eq_true_eq, Bool.false_eq_true, if_false] at hdue
      split_ifs at hdue with hcurrent
      · subst hcurrent
        omega
      · omega
  · exact h

/-- So does a store in turn. -/
theorem Kept.count_lt (h : s.Kept) (hturn : s.InTurn (.store x)) {max : UInt32}
    (hx : s.handlers[x]? = some (.doubling max)) : s.count < 2 * max.toNat := by
  rcases hturn _ hx max rfl with ⟨halone, hraised⟩ | hlt
  · have hcount := h.count
    rw [halone.due_le hx] at hcount
    simp only [StreamHandler.isDue, decide_eq_true_eq] at hcount
    split_ifs at hcount <;> omega
  · exact hlt

theorem Kept.store_eq (h : s.Kept) (b : Build) {max : UInt32} (hx : s.handlers[x]? = some (.doubling max)) :
    s.store b x = { s.goOn x .serving with max := max * 2 } ∧ (max * 2).toNat = 2 * max.toNat := by
  obtain ⟨hdouble, hok⟩ := mulU32_two (b := b) (h.doubling max (List.mem_of_getElem? hx))
  exact ⟨by simp only [StreamLimit.store, hx, hok], hdouble⟩

theorem Kept.store (h : s.Kept) (b : Build) (hturn : s.InTurn (.store x)) : (s.store b x).Kept := by
  by_cases hx : ∃ max, s.handlers[x]? = some (.doubling max)
  · obtain ⟨max, hx⟩ := hx
    obtain ⟨hstore, hdouble⟩ := h.store_eq b hx
    have hcount : (s.goOn x .serving).count = s.count := count_goOn hx .serving nofun nofun
    have hlt : (s.goOn x .serving).count < (max * 2).toNat := by
      rw [hcount, hdouble]
      exact h.count_lt hturn hx
    rw [hstore]
    refine ⟨Nat.lt_add_right _ hlt, Nat.zero_lt_of_lt hlt, fun max' hmax' => ?_, hcount ▸ h.few⟩
    rcases mem_goOn hmax' with hnew | hold
    · cases hnew
    · exact h.doubling max' hold
  · unfold StreamLimit.store
    split
    · rename_i max hmax
      exact absurd ⟨max, hmax⟩ hx
    · exact h

theorem Kept.finish (h : s.Kept) (x : ℕ) : (s.finish x).Kept := by
  unfold StreamLimit.finish
  split
  · rename_i hx
    have hle := count_goOn_done hx
    have hdue : (s.goOn x .done).due = s.due := by
      simpa [StreamHandler.isDue] using due_goOn hx .done
    exact h.goOn hle (by rw [hdue]; exact Nat.lt_of_le_of_lt hle h.count) nofun
  · exact h

theorem Kept.step (h : s.Kept) (b : Build) {a : StreamAccess} (hturn : s.InTurn a) : (s.step b a).Kept := by
  cases a with
  | accept => exact h.accept hturn
  | load x => exact h.load x
  | compare x => exact h.compare hturn
  | store x => exact h.store b hturn
  | finish x => exact h.finish x

theorem goOn_checked {y : ℕ} {handler : StreamHandler} (h : (s.goOn y handler).Checked x)
    (hne : handler ≠ .serving) : s.Checked x := by
  obtain ⟨u, hu, heq⟩ := Pool.modify_eq_some.1 h
  split_ifs at heq with hxy
  · exact absurd heq.symm hne
  · exact hu.trans (congrArg some heq.symm)

/-- A check that ends in turn leaves the limit at the streams or above. -/
theorem Kept.count_le_of_checked (h : s.Kept) (b : Build) {a : StreamAccess} (hturn : s.InTurn a)
    (hbefore : ¬ s.Checked x) (hafter : (s.step b a).Checked x) :
    (s.step b a).count ≤ (s.step b a).max.toNat := by
  cases a with
  | accept =>
    rcases Pool.concat_eq_some.1 hafter with hold | ⟨-, hnew⟩
    · exact absurd hold hbefore
    · cases hnew
  | load y =>
    simp only [StreamLimit.step, StreamLimit.load] at hafter
    split at hafter
    · exact absurd (goOn_checked hafter nofun) hbefore
    · exact absurd hafter hbefore
  | compare y =>
    simp only [StreamLimit.step, StreamLimit.compare] at hafter ⊢
    split at hafter
    · rename_i max hy
      split_ifs at hafter ⊢ with heq
      · exact absurd (goOn_checked hafter nofun) hbefore
      · exact (count_goOn hy .serving nofun nofun).trans_le (h.count_le hturn hy)
    · exact absurd hafter hbefore
  | store y =>
    by_cases hy : ∃ max, s.handlers[y]? = some (.doubling max)
    · obtain ⟨max, hy⟩ := hy
      obtain ⟨hstore, hdouble⟩ := h.store_eq b hy
      simp only [StreamLimit.step, hstore]
      have hcount : (s.goOn y .serving).count = s.count := count_goOn hy .serving nofun nofun
      refine hcount.trans_le ?_
      rw [hdouble]
      exact (h.count_lt hturn hy).le
    · simp only [StreamLimit.step, StreamLimit.store] at hafter
      split at hafter
      · rename_i max hmax
        exact absurd ⟨max, hmax⟩ hy
      · exact absurd hafter hbefore
  | finish y =>
    simp only [StreamLimit.step, StreamLimit.finish] at hafter
    split at hafter
    · exact absurd (goOn_checked hafter nofun) hbefore
    · exact absurd hafter hbefore

end StreamLimit

section

variable {b : Build} {steps : List StreamStep}

theorem stateAt_succ_kind {i : ℕ} {a : StreamStep} (ha : steps[i]? = some a) (kind : StreamKind) :
    (streamLimits b).stateAt steps (i + 1) kind =
      if kind = a.kind then ((streamLimits b).stateAt steps i a.kind).step b a.access
      else (streamLimits b).stateAt steps i kind := by
  rw [(streamLimits b).stateAt_succ ha]
  exact Function.update_apply _ _ _ _

theorem kept_of_checksInTurn (h : ChecksInTurn b steps) {n : ℕ} (hn : n ≤ steps.length)
    (kind : StreamKind) : ((streamLimits b).stateAt steps n kind).Kept := by
  refine Machine.run_induction (k := 0) (P := fun n => ((streamLimits b).stateAt steps n kind).Kept)
    StreamLimit.kept_new (fun i a _ ha ih => ?_) (Nat.zero_le n) hn
  rw [stateAt_succ_kind ha]
  split_ifs with hkind
  · subst hkind
    exact ih.step b (h i a ha)
  · exact ih

end

section

variable {b : Build}

/-- A run that goes on with steps of one kind. -/
theorem stateAt_stepsOf (steps : List StreamStep) (kind : StreamKind) (accesses : List StreamAccess) (j : ℕ) :
    (streamLimits b).stateAt (steps ++ stepsOf kind accesses) (steps.length + j) kind =
      (accesses.take j).foldl (StreamLimit.step b) ((streamLimits b).stateAt steps steps.length kind) := by
  have hexec : ∀ (as : List StreamAccess) (s : StreamKind → StreamLimit),
      (streamLimits b).exec s (stepsOf kind as) kind = as.foldl (StreamLimit.step b) (s kind) := by
    intro as
    induction as with
    | nil => exact fun _ => rfl
    | cons a as ih =>
      intro s
      refine (ih _).trans ?_
      simp [streamLimits]
  have htake : (stepsOf kind accesses).take j = stepsOf kind (accesses.take j) := List.map_take.symm
  rw [Machine.stateAt_append, htake, hexec]

/-- No run keeps up whose next step ends a check at too low a limit. -/
theorem keepsUp_not_of_checked (steps : List StreamStep) (kind : StreamKind) {x : ℕ} {a : StreamAccess}
    {s' : StreamLimit} (hbefore : ¬ ((streamLimits b).stateAt steps steps.length kind).Checked x)
    (hs' : ((streamLimits b).stateAt steps steps.length kind).step b a = s') (hafter : s'.Checked x)
    (hmax : s'.max.toNat < s'.count) : ¬ KeepsUp b (steps ++ stepsOf kind [a]) := by
  intro h
  have hstate := stateAt_stepsOf (b := b) steps kind [a]
  have hnext := (hstate 1).trans hs'
  have hle := h (steps.length + 0) kind x (by rw [hstate 0]; exact hbefore) (by rw [hnext]; exact hafter)
  rw [hnext] at hle
  omega

/-- A handler that compares above the limit misses it, unless it finds another limit
that it has loaded before. -/
theorem keepsUp_not_of_compare (steps : List StreamStep) (kind : StreamKind) {x : ℕ} {max : UInt32}
    (hx : ((streamLimits b).stateAt steps steps.length kind).handlers[x]? = some (.loaded max))
    (hmax : ((streamLimits b).stateAt steps steps.length kind).max.toNat <
      ((streamLimits b).stateAt steps steps.length kind).count)
    (hne : UInt32.ofNat ((streamLimits b).stateAt steps steps.length kind).count ≠ max) :
    ¬ KeepsUp b (steps ++ stepsOf kind [.compare x]) := by
  generalize hs : (streamLimits b).stateAt steps steps.length kind = s at hx hmax hne
  have hcompare : ((streamLimits b).stateAt steps steps.length kind).step b (.compare x) = s.goOn x .serving := by
    simp only [hs, StreamLimit.step, StreamLimit.compare, hx, if_neg hne]
  have hcount : (s.goOn x .serving).count = s.count := StreamLimit.count_goOn hx .serving nofun nofun
  refine keepsUp_not_of_checked (x := x) steps kind ?_ hcompare ?_ ?_
  · rw [hs]
    exact fun hchecked => by cases hx.symm.trans hchecked
  · exact Pool.modify_eq_some.2 ⟨_, hx, by simp⟩
  · rw [hcount]
    exact hmax

/-- So does one that stores a double below the streams. -/
theorem keepsUp_not_of_store (steps : List StreamStep) (kind : StreamKind) {x : ℕ} {max : UInt32}
    (hx : ((streamLimits b).stateAt steps steps.length kind).handlers[x]? = some (.doubling max))
    (hmax : 2 * max.toNat < ((streamLimits b).stateAt steps steps.length kind).count)
    (hfits : max.toNat < 2 ^ 31) : ¬ KeepsUp b (steps ++ stepsOf kind [.store x]) := by
  generalize hs : (streamLimits b).stateAt steps steps.length kind = s at hx hmax
  obtain ⟨hdouble, hok⟩ := StreamLimit.mulU32_two (b := b) hfits
  have hstore : ((streamLimits b).stateAt steps steps.length kind).step b (.store x) =
      { s.goOn x .serving with max := max * 2 } := by
    simp only [hs, StreamLimit.step, StreamLimit.store, hx, hok]
  have hcount : (s.goOn x .serving).count = s.count := StreamLimit.count_goOn hx .serving nofun nofun
  refine keepsUp_not_of_checked (x := x) steps kind ?_ hstore ?_ ?_
  · rw [hs]
    exact fun hchecked => by cases hx.symm.trans hchecked
  · exact Pool.modify_eq_some.2 ⟨_, hx, by simp⟩
  · rw [hdouble]
    exact hmax.trans_eq hcount.symm

end

/-- Streams that are accepted and checked one after the other. -/
def oneByOne (n : ℕ) : List StreamAccess :=
  (List.range n).flatMap fun x => [.accept, .load x, .compare x]

theorem stateAt_new (b : Build) (kind : StreamKind) (accesses : List StreamAccess) (n : ℕ) :
    (streamLimits b).stateAt (stepsOf kind accesses) n kind =
      (accesses.take n).foldl (StreamLimit.step b) .new := by
  have h := stateAt_stepsOf (b := b) [] kind accesses n
  rwa [List.nil_append, List.length_nil, Nat.zero_add] at h

/-- Every check is in turn from a state on. -/
def StreamLimit.inTurnFrom (b : Build) : StreamLimit → List StreamAccess → Bool
  | _, [] => true
  | s, a :: accesses => decide (s.InTurn a) && (s.step b a).inTurnFrom b accesses

theorem inTurn_of_inTurnFrom {b : Build} {accesses : List StreamAccess} : ∀ {s : StreamLimit} {i : ℕ} {a : StreamAccess},
    s.inTurnFrom b accesses = true → accesses[i]? = some a →
      ((accesses.take i).foldl (StreamLimit.step b) s).InTurn a := by
  induction accesses with
  | nil => exact fun _ ha => by cases ha
  | cons access accesses ih =>
    intro s i a h ha
    obtain ⟨hturn, hrest⟩ := Bool.and_eq_true_iff.1 h
    cases i with
    | zero =>
      cases ha
      exact of_decide_eq_true hturn
    | succ i => exact ih hrest ha

theorem checksInTurn_stepsOf {b : Build} {kind : StreamKind} {accesses : List StreamAccess}
    (h : StreamLimit.new.inTurnFrom b accesses = true) : ChecksInTurn b (stepsOf kind accesses) := by
  intro i a ha
  obtain ⟨access, haccess, rfl⟩ := Option.map_eq_some_iff.1 (List.getElem?_map ▸ ha)
  rw [stateAt_new]
  exact inTurn_of_inTurnFrom h haccess

/-- The handlers of 31 streams have not returned when two more are accepted, but one
returns before their checks, and then they find the limit. -/
def backInTime : List StreamAccess :=
  oneByOne 31 ++ [.accept, .accept, .finish 0, .load 31, .load 32, .compare 31, .compare 32,
    .store 31, .store 32, .accept, .load 33, .compare 33]

end Tuic.Server
