import Tuic.Proofs.StreamLimit
import Tuic.Spec.AcceptLoop

/-! The limit of a client keeps up with its streams. Only the loop accepts, and it compares
between any two streams of a kind, so it never steps over the limit. -/

namespace Tuic.Client

open Lib
open Server (StreamKind)

namespace AcceptLimit

/-- `peak` is a number of streams that have been registered at once. -/
structure Kept (peak : ℕ) (s : AcceptLimit) : Prop where
  count : s.count ≤ s.max.toNat
  few : s.count < 2 ^ 31
  positive : 0 < s.max.toNat
  loaded : ∀ max, s.branch = .loaded max → max = s.max
  doubling : ∀ max, s.branch = .doubling max → max = s.max ∧ max.toNat < 2 ^ 31 ∧ max.toNat ≤ peak
  waiting : s.branch = .waiting → s.count < s.max.toNat
  needed : s.max = defaultConcurrentStreams ∨ s.max.toNat ≤ 2 * peak

variable {b : Build} {peak : ℕ} {s : AcceptLimit}

theorem kept_new : new.Kept 0 :=
  ⟨by decide, by decide, by decide, by simp [new], by simp [new], by simp [new], .inl rfl⟩

theorem Kept.mono (h : s.Kept peak) {peak' : ℕ} (hle : peak ≤ peak') : s.Kept peak' := by
  refine ⟨h.count, h.few, h.positive, h.loaded, fun max hmax => ?_, h.waiting, ?_⟩
  · obtain ⟨heq, hlt, hpeak⟩ := h.doubling max hmax
    exact ⟨heq, hlt, hpeak.trans hle⟩
  · exact h.needed.imp_right fun hpeak => hpeak.trans (Nat.mul_le_mul_left 2 hle)

theorem Kept.poll (h : s.Kept peak) : s.poll.Kept peak := by
  unfold AcceptLimit.poll
  split
  · exact ⟨h.count, h.few, h.positive, fun max heq => (by cases heq; rfl), by simp, by simp, h.needed⟩
  · exact h

/-- The comparison for equality is enough, as the count has not gone past the limit. -/
theorem Kept.compare (h : s.Kept peak) (hpeak : s.count ≤ peak) : s.compare.Kept peak := by
  unfold AcceptLimit.compare
  split
  · rename_i max hbranch
    obtain rfl := h.loaded max hbranch
    have hfew := h.few
    have hcount : (UInt32.ofNat s.count).toNat = s.count := by
      rw [UInt32.toNat_ofNat']
      omega
    split_ifs with heq
    · have hmax : s.max.toNat = s.count := by rw [← heq, hcount]
      refine ⟨h.count, hfew, h.positive, by simp, fun max heq => ?_, by simp, h.needed⟩
      cases heq
      exact ⟨rfl, hmax ▸ hfew, hmax ▸ hpeak⟩
    · refine ⟨h.count, hfew, h.positive, by simp, by simp, fun _ => ?_, h.needed⟩
      refine Nat.lt_of_le_of_ne h.count fun hsame => heq ?_
      rw [← UInt32.toNat_inj, hcount, hsame]
  · exact h

theorem Kept.store (h : s.Kept peak) (b : Build) : (s.store b).Kept peak := by
  unfold AcceptLimit.store
  split
  · rename_i max hbranch
    obtain ⟨rfl, hlt, hpeak⟩ := h.doubling max hbranch
    obtain ⟨hdouble, hok⟩ := Server.StreamLimit.mulU32_two (b := b) hlt
    rw [hok]
    have hcount := h.count
    have hpositive := h.positive
    refine ⟨?_, h.few, ?_, by simp, by simp, fun _ => ?_, .inr ?_⟩
    · change s.count ≤ (s.max * 2).toNat
      omega
    · change 0 < (s.max * 2).toNat
      omega
    · change s.count < (s.max * 2).toNat
      omega
    · change (s.max * 2).toNat ≤ 2 * peak
      omega
  · exact h

theorem Kept.goRound (h : s.Kept peak) : s.goRound.Kept peak := by
  unfold AcceptLimit.goRound
  split
  · exact h
  · exact ⟨h.count, h.few, h.positive, by simp, by simp, by simp, h.needed⟩

/-- There is room for the stream that has been waited for. -/
theorem Kept.register (h : s.Kept peak) (hwaiting : s.branch = .waiting) (hfew : s.count + 1 < 2 ^ 31) :
    s.register.goRound.Kept peak := by
  have hround : s.register.goRound = { s.register with branch := .idle } := by
    simp [AcceptLimit.goRound, AcceptLimit.register, hwaiting]
  rw [hround]
  exact ⟨h.waiting hwaiting, hfew, h.positive, by simp, by simp, by simp, h.needed⟩

theorem Kept.finish (h : s.Kept peak) : s.finish.Kept peak := by
  have hle : s.finish.count ≤ s.count := Nat.sub_le _ _
  exact ⟨hle.trans h.count, Nat.lt_of_le_of_lt hle h.few, h.positive, h.loaded, h.doubling,
    fun hwaiting => Nat.lt_of_le_of_lt hle (h.waiting hwaiting), h.needed⟩

end AcceptLimit

section

variable {b : Build} {steps : List AcceptStep}

theorem AcceptLoop.on_apply (s : AcceptLoop) (kind other : StreamKind) (f : AcceptLimit → AcceptLimit) :
    s.on kind f other = if other = kind then f (s other) else s other := by
  by_cases h : other = kind
  · subst h
    simp [AcceptLoop.on]
  · simp [AcceptLoop.on, h]

/-- What each step keeps of each kind. -/
theorem AcceptLoop.step_kept {s : AcceptLoop} (a : AcceptStep) {kind : StreamKind} {peak : ℕ}
    (h : (s kind).Kept peak) (hpeak : (s kind).count ≤ peak)
    (hfew : a = .accept kind → (s kind).count + 1 < 2 ^ 31) : (s.step b a kind).Kept peak := by
  have hon (kind' : StreamKind) {f : AcceptLimit → AcceptLimit} (hf : (f (s kind)).Kept peak) :
      (s.on kind' f kind).Kept peak := by
    rw [on_apply]
    split_ifs
    · exact hf
    · exact h
  cases a with
  | poll kind' => exact hon kind' h.poll
  | compare kind' => exact hon kind' (h.compare hpeak)
  | store kind' => exact hon kind' (h.store b)
  | acceptDatagram => exact h.goRound
  | finish kind' => exact hon kind' h.finish
  | accept kind' =>
    simp only [AcceptLoop.step, AcceptLoop.accept]
    split_ifs with hwaiting
    · rw [AcceptLoop.goRound, on_apply]
      split_ifs with hkind
      · subst hkind
        exact h.register hwaiting (hfew rfl)
      · exact h.goRound
    · exact h

theorem kept_at (h : FewStreams b steps) {n : ℕ} (hn : n ≤ steps.length) (kind : StreamKind) :
    ∃ j ≤ n, ((acceptLoop b).stateAt steps n kind).Kept ((acceptLoop b).stateAt steps j kind).count := by
  refine Machine.run_induction (k := 0) (P := fun n => ∃ j ≤ n,
      ((acceptLoop b).stateAt steps n kind).Kept ((acceptLoop b).stateAt steps j kind).count)
    ⟨0, Nat.le_refl 0, AcceptLimit.kept_new⟩ (fun i a _ ha ih => ?_) (Nat.zero_le n) hn
  -- the highest count so far may be the one of now
  have hpeak : ∃ j ≤ i, ((acceptLoop b).stateAt steps i kind).count ≤ ((acceptLoop b).stateAt steps j kind).count ∧
      ((acceptLoop b).stateAt steps i kind).Kept ((acceptLoop b).stateAt steps j kind).count := by
    obtain ⟨j, hj, hkept⟩ := ih
    rcases Nat.le_total ((acceptLoop b).stateAt steps i kind).count
        ((acceptLoop b).stateAt steps j kind).count with hle | hle
    · exact ⟨j, hj, hle, hkept⟩
    · exact ⟨i, Nat.le_refl i, Nat.le_refl _, hkept.mono hle⟩
  obtain ⟨j, hj, hle, hkept⟩ := hpeak
  refine ⟨j, Nat.le_succ_of_le hj, ?_⟩
  rw [(acceptLoop b).stateAt_succ ha]
  exact AcceptLoop.step_kept a hkept hle fun heq => h i kind (heq ▸ ha)

end

/-- In every run the client has room for the next stream when it waits for it. -/
theorem limit_keeps_up (b : Build) (steps : List AcceptStep) (h : FewStreams b steps) : LimitKeepsUp b steps where
  waiting i hi kind hwaiting := by
    obtain ⟨j, -, hkept⟩ := kept_at h hi kind
    exact hkept.waiting hwaiting
  registered i hi kind := by
    obtain ⟨j, -, hkept⟩ := kept_at h hi kind
    exact hkept.count
  needed i hi kind := by
    obtain ⟨j, hj, hkept⟩ := kept_at h hi kind
    exact hkept.needed.imp_right fun hle => ⟨j, hj, hle⟩

/-- One stream is accepted while another is served. -/
def twoAccepted : List AcceptStep :=
  [.poll .uni, .compare .uni, .accept .uni, .poll .bi, .poll .uni, .compare .uni, .accept .uni, .finish .uni]

theorem limit_keeps_up_twoAccepted :
    LimitKeepsUp .debug64 twoAccepted ∧ ((acceptLoop .debug64).stateAt twoAccepted 7 .uni).count = 2 := by
  refine ⟨limit_keeps_up .debug64 twoAccepted fun i kind ha => ?_, by decide⟩
  rcases i with _ | _ | _ | _ | _ | _ | _ | _ | i <;> cases ha <;> decide

end Tuic.Client
