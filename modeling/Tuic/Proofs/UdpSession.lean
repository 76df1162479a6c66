import Tuic.Lib.Pool
import Tuic.Spec.UdpSession

/-! When a server keeps one open session for each association. The clean-up at the
end of a listen task removes by association: what stands in the table by then may
be the entry of a newer session. -/

namespace Tuic.Server

open Lib

/-! ### What a step can do -/

inductive Effect (s : UdpSessions) : UdpStep → UdpSessions → Prop
  | lookUp (assocId : UInt16) (waiting : List UInt16) : Effect s (.lookUp assocId) { s with waiting }
  | entry (i : ℕ) (bound : Bool) (waiting : List UInt16)
      (occupied : ∀ assocId, s.waiting[i]? = some assocId → bound = true → s.table.get assocId ≠ none) :
      Effect s (.entry i bound) { s with waiting }
  | created (i : ℕ) (assocId : UInt16) (waiting : List UInt16) (waits : s.waiting[i]? = some assocId)
      (vacant : s.table.get assocId = none) : Effect s (.entry i true)
        ⟨s.created ++ [.new assocId], s.table.insert assocId s.created.length, waiting⟩
  | absent (assocId : UInt16) (none : s.table.get assocId = none) : Effect s (.dissociate assocId) s
  | dissociated (assocId : UInt16) (x : WeakSession) (some : s.table.get assocId = some x) :
      Effect s (.dissociate assocId)
        ⟨s.created.modify x UdpSession.close, s.table.remove assocId, s.waiting⟩
  | timedOut (x : WeakSession) :
      Effect s (.timeout x) { s with created := s.created.modify x UdpSession.close }
  | left (x : WeakSession) (u : UdpSession) (some : s.created[x]? = some u) (closed : u.closeTx = false) :
      Effect s (.leave x) { s with created := s.created.modify x ({ · with listen := .leaving }) }
  | cleaned (x : WeakSession) (u : UdpSession) (some : s.created[x]? = some u)
      (leaving : u.listen = .leaving) : Effect s (.cleanUp x)
        ⟨s.created.modify x ({ · with listen := .ended }), s.table.remove u.assocId, s.waiting⟩
  | timeoutIdle (x : WeakSession) : Effect s (.timeout x) s
  | leaveIdle (x : WeakSession) : Effect s (.leave x) s
  | cleanUpIdle (x : WeakSession) (idle : ∀ u, s.created[x]? = some u → u.listen ≠ .leaving) :
      Effect s (.cleanUp x) s

theorem step_effect (s : UdpSessions) (a : UdpStep) : Effect s a (s.step a).1 := by
  cases a with
  | lookUp assocId =>
    simp only [UdpSessions.step, UdpSessions.lookUp]
    split
    · exact .lookUp assocId s.waiting
    · exact .lookUp assocId _
  | entry i bound =>
    simp only [UdpSessions.step, UdpSessions.entry]
    split
    · rename_i hi
      exact .entry i bound s.waiting fun assocId h => by simp [hi] at h
    · rename_i assocId hi
      split
      · rename_i x hx
        refine .entry i bound _ fun assocId' h _ => ?_
        obtain rfl : assocId = assocId' := by simpa [hi] using h
        simp [hx]
      · rename_i hnone
        cases bound with
        | true => exact .created i assocId _ hi hnone
        | false => exact .entry i false _ fun _ _ h => by cases h
  | dissociate assocId =>
    simp only [UdpSessions.step, UdpSessions.dissociate]
    split
    · rename_i x hx
      exact .dissociated assocId x hx
    · rename_i hnone
      exact .absent assocId hnone
  | timeout x =>
    simp only [UdpSessions.step, UdpSessions.timeout]
    split
    · exact .timedOut x
    · exact .timeoutIdle x
  | leave x =>
    simp only [UdpSessions.step, UdpSessions.leave]
    split
    · rename_i assocId hx
      exact .left x _ hx rfl
    · exact .leaveIdle x
  | cleanUp x =>
    simp only [UdpSessions.step, UdpSessions.cleanUp]
    split
    · rename_i assocId closeTx hx
      exact .cleaned x _ hx rfl
    · rename_i hidle
      refine .cleanUpIdle x fun u hu hleave => ?_
      obtain ⟨assocId, closeTx, listen⟩ := u
      obtain rfl : listen = .leaving := hleave
      exact hidle assocId closeTx hu

/-! ### The entry of a session -/

theorem CleansUp.listed {s s' : UdpSessions} {a : UdpStep} {x : WeakSession} {assocId : UInt16}
    (h : CleansUp x assocId s a) (he : Effect s a s') : s'.table = s.table.remove assocId := by
  obtain ⟨rfl, u, hu, rfl, hleave⟩ := h
  cases he with
  | cleaned _ v hv => rw [Option.some.inj (hu.symm.trans hv)]
  | cleanUpIdle _ hidle => exact absurd hleave (hidle u hu)

/-- An entry that is there after a step was there before, unless the step made it. -/
theorem entry_of_step {s s' : UdpSessions} {a : UdpStep} (he : Effect s a s') {y : WeakSession}
    {assocId : UInt16} (h : s'.table.get assocId = some y) :
    Creates y assocId s a ∨
      (s.table.get assocId = some y ∧ ¬ (Dissociates assocId s a ∨ CleansUp y assocId s a)) := by
  by_cases hclean : CleansUp y assocId s a
  · rw [hclean.listed he, Table.get_remove_self] at h
    cases h
  · cases he with
    | created i id waiting waits vacant =>
      by_cases heq : assocId = id
      · subst heq
        exact .inl ⟨i, rfl, waits, vacant, by simpa using h⟩
      · rw [Table.get_insert_ne _ _ heq] at h
        exact .inr ⟨h, by simp [Dissociates, hclean]⟩
    | absent id none =>
      refine .inr ⟨h, ?_⟩
      rintro (hd | hc)
      · obtain rfl := UdpStep.dissociate.inj hd
        rw [none] at h
        cases h
      · exact hclean hc
    | dissociated id x some =>
      by_cases heq : assocId = id
      · rw [heq, Table.get_remove_self] at h
        cases h
      · rw [Table.get_remove_ne _ heq] at h
        exact .inr ⟨h, by simp [Dissociates, hclean, Ne.symm heq]⟩
    | cleaned x u some leaving =>
      by_cases heq : assocId = u.assocId
      · rw [heq, Table.get_remove_self] at h
        cases h
      · rw [Table.get_remove_ne _ heq] at h
        exact .inr ⟨h, by simp [Dissociates, hclean]⟩
    | _ => exact .inr ⟨h, by simp [Dissociates, hclean]⟩

theorem entry_created {s s' : UdpSessions} {a : UdpStep} (he : Effect s a s') {y : WeakSession}
    {assocId : UInt16} (h : Creates y assocId s a) : s'.table.get assocId = some y := by
  obtain ⟨i, rfl, hi, hnone, rfl⟩ := h
  cases he with
  | entry _ _ waiting occupied => exact absurd hnone (occupied assocId hi rfl)
  | created _ id waiting waits vacant =>
    obtain rfl : assocId = id := by simpa [hi] using waits
    simp

/-- An entry stays until its association is dissociated or a clean-up takes it. -/
theorem entry_kept {s s' : UdpSessions} {a : UdpStep} (he : Effect s a s') {y : WeakSession}
    {assocId : UInt16} (h : s.table.get assocId = some y) (hd : ¬ Dissociates assocId s a)
    (hc : ∀ x, ¬ CleansUp x assocId s a) : s'.table.get assocId = some y := by
  cases he with
  | created i id waiting waits vacant =>
    have hne : assocId ≠ id := by
      rintro rfl
      rw [vacant] at h
      cases h
    rwa [Table.get_insert_ne _ _ hne]
  | dissociated id x some =>
    have hne : assocId ≠ id := fun heq => hd (heq ▸ rfl)
    rwa [Table.get_remove_ne _ hne]
  | cleaned x u some leaving =>
    have hne : assocId ≠ u.assocId := fun heq => hc x ⟨rfl, u, some, heq.symm, leaving⟩
    rwa [Table.get_remove_ne _ hne]
  | _ => exact h

/-! ### The entry along a run -/

section

variable {steps : List UdpStep}

theorem effect_at {n : ℕ} {a : UdpStep} (h : steps[n]? = some a) :
    Effect (udpSessions.stateAt steps n) a (udpSessions.stateAt steps (n + 1)) := by
  rw [udpSessions.stateAt_succ h]
  exact step_effect _ a

/-- What the table has under an association was created, and since then neither
dissociated nor cleaned up. -/
theorem entry_since {y : WeakSession} {assocId : UInt16} : ∀ n ≤ steps.length,
    (udpSessions.stateAt steps n).table.get assocId = some y →
    Since (udpSessions.At steps (Creates y assocId))
      (udpSessions.At steps fun s a => Dissociates assocId s a ∨ CleansUp y assocId s a) n := by
  intro n
  induction n with
  | zero => exact fun _ h => nomatch h
  | succ n ih =>
    intro hn h
    have ha : steps[n]? = some steps[n] := List.getElem?_eq_getElem hn
    rw [since_succ, udpSessions.at_iff ha, udpSessions.at_iff ha]
    rcases entry_of_step (effect_at ha) h with hnew | ⟨hold, hkept⟩
    · exact .inl hnew
    · exact .inr ⟨ih (Nat.le_of_lt hn) hold, hkept⟩

/-- No clean-up before step `n` took the entry of another session. -/
def OwnEntries (steps : List UdpStep) (n : ℕ) : Prop :=
  ∀ i < n, ∀ x assocId, udpSessions.At steps (CleansUp x assocId) i →
    ∀ y, (udpSessions.stateAt steps i).table.get assocId = some y → y = x

theorem entry_of_since {y : WeakSession} {assocId : UInt16} : ∀ n ≤ steps.length,
    OwnEntries steps n →
    Since (udpSessions.At steps (Creates y assocId))
      (udpSessions.At steps fun s a => Dissociates assocId s a ∨ CleansUp y assocId s a) n →
    (udpSessions.stateAt steps n).table.get assocId = some y := by
  intro n
  induction n with
  | zero => exact fun _ _ h => absurd h not_since_zero
  | succ n ih =>
    intro hn hown h
    have ha : steps[n]? = some steps[n] := List.getElem?_eq_getElem hn
    rw [since_succ, udpSessions.at_iff ha, udpSessions.at_iff ha] at h
    rcases h with hnew | ⟨hold, hkept⟩
    · exact entry_created (effect_at ha) hnew
    · have hentry := ih (Nat.le_of_lt hn) (fun i hi => hown i (by omega)) hold
      refine entry_kept (effect_at ha) hentry (fun hd => hkept (.inl hd)) fun x hx => ?_
      have hxy : y = x := hown n (by omega) x assocId ((udpSessions.at_iff ha).2 hx) y hentry
      exact hkept (.inr (hxy ▸ hx))

end

/-! ### The open sessions -/

/-- What every state of a run satisfies while clean-ups take their own entries. -/
structure UdpSessions.Inv (s : UdpSessions) : Prop where
  closed : ∀ (x : WeakSession) (u : UdpSession), s.created[x]? = some u → u.listen ≠ .running →
    u.closeTx = false
  listed : ∀ (x : WeakSession) (u : UdpSession), s.created[x]? = some u → u.closeTx = true →
    s.table.get u.assocId = some x

theorem new_inv : UdpSessions.new.Inv where
  closed x u hu := by simp [UdpSessions.new] at hu
  listed x u hu := by simp [UdpSessions.new] at hu

/-- Closing a session and changing where its task is keep the open ones. -/
theorem UdpSessions.Inv.modify {s : UdpSessions} (h : s.Inv) (x : WeakSession) {f : UdpSession → UdpSession}
    (hassoc : ∀ u, (f u).assocId = u.assocId) (hopen : ∀ u, (f u).closeTx = true → u.closeTx = true)
    (hclosed : ∀ u, s.created[x]? = some u → (f u).closeTx = false) :
    ({ s with created := s.created.modify x f } : UdpSessions).Inv where
  closed y v hv hrun := by
    obtain ⟨u, hu, rfl⟩ := Pool.modify_eq_some.1 hv
    by_cases hxy : x = y
    · rw [if_pos hxy]
      exact hclosed u (hxy ▸ hu)
    · rw [if_neg hxy] at hrun ⊢
      exact h.closed y u hu hrun
  listed y v hv hcl := by
    obtain ⟨u, hu, rfl⟩ := Pool.modify_eq_some.1 hv
    by_cases hxy : x = y
    · rw [if_pos hxy] at hcl ⊢
      rw [hassoc]
      exact h.listed y u hu (hopen u hcl)
    · rw [if_neg hxy] at hcl ⊢
      exact h.listed y u hu hcl

/-- Removing the entry of a closed session keeps the open ones. -/
theorem UdpSessions.Inv.remove {s : UdpSessions} (h : s.Inv) (assocId : UInt16)
    (hclosed : ∀ x u, s.table.get assocId = some x → s.created[x]? = some u → u.closeTx = false) :
    ({ s with table := s.table.remove assocId } : UdpSessions).Inv where
  closed := h.closed
  listed x u hu hcl := by
    have hx := h.listed x u hu hcl
    by_cases heq : u.assocId = assocId
    · have := hclosed x u (heq ▸ hx) hu
      rw [this] at hcl
      cases hcl
    · exact (Table.get_remove_ne _ heq).trans hx

theorem UdpSessions.Inv.effect {s s' : UdpSessions} {a : UdpStep} (h : s.Inv) (he : Effect s a s')
    (hown : ∀ x assocId, CleansUp x assocId s a → ∀ y, s.table.get assocId = some y → y = x) :
    s'.Inv := by
  cases he with
  | created i assocId waiting waits vacant =>
    refine ⟨fun x u hu hrun => ?_, fun x u hu hcl => ?_⟩
    · rcases Pool.concat_eq_some.1 hu with hold | ⟨rfl, rfl⟩
      · exact h.closed x u hold hrun
      · exact absurd rfl hrun
    · rcases Pool.concat_eq_some.1 hu with hold | ⟨rfl, rfl⟩
      · have hx := h.listed x u hold hcl
        have hne : u.assocId ≠ assocId := by
          intro heq
          rw [heq, vacant] at hx
          cases hx
        exact (Table.get_insert_ne _ _ hne).trans hx
      · exact Table.get_insert_self _ _ _
  | dissociated assocId x some =>
    have hclose := h.modify x (f := UdpSession.close) (fun _ => rfl) (fun _ hf => nomatch hf) fun _ _ => rfl
    refine hclose.remove assocId fun y v hy hv => ?_
    obtain rfl : x = y := Option.some.inj (some.symm.trans hy)
    obtain ⟨u, -, rfl⟩ := Pool.modify_eq_some.1 hv
    simp [UdpSession.close]
  | timedOut x => exact h.modify x (fun _ => rfl) (fun _ hf => nomatch hf) fun _ _ => rfl
  | left x u some closed =>
    refine h.modify x (fun _ => rfl) (fun _ hf => hf) fun v hv => ?_
    obtain rfl : u = v := Option.some.inj (some.symm.trans hv)
    exact closed
  | cleaned x u some leaving =>
    have hshut : u.closeTx = false := h.closed x u some (by simp [leaving])
    have hend : ({ s with created := s.created.modify x ({ · with listen := .ended }) } : UdpSessions).Inv := by
      refine h.modify x (fun _ => rfl) (fun _ hf => hf) fun v hv => ?_
      obtain rfl : u = v := Option.some.inj (some.symm.trans hv)
      exact hshut
    refine hend.remove u.assocId fun y v hy hv => ?_
    obtain rfl : y = x := hown x u.assocId ⟨rfl, u, some, rfl, leaving⟩ y hy
    obtain ⟨w, hw, rfl⟩ := Pool.modify_eq_some.1 hv
    obtain rfl : u = w := Option.some.inj (some.symm.trans hw)
    rw [if_pos rfl]
    exact hshut
  | _ => exact ⟨h.closed, h.listed⟩

theorem UdpSessions.Inv.oneOpen {s : UdpSessions} (h : s.Inv) : s.OneOpen where
  unique x y u v hu hv hcu hcv heq := by
    have hx := h.listed x u hu hcu
    have hy := h.listed y v hv hcv
    rw [heq] at hx
    exact Option.some.inj (hx.symm.trans hy)
  listed := h.listed

theorem inv_run {steps : List UdpStep} : ∀ n ≤ steps.length, OwnEntries steps n →
    (udpSessions.stateAt steps n).Inv := by
  intro n
  induction n with
  | zero => exact fun _ _ => new_inv
  | succ n ih =>
    intro hn hown
    have ha : steps[n]? = some steps[n] := List.getElem?_eq_getElem hn
    have hinv := ih (Nat.le_of_lt hn) fun i hi => hown i (by omega)
    exact hinv.effect (effect_at ha) fun x assocId hx =>
      hown n (by omega) x assocId ((udpSessions.at_iff ha).2 hx)

/-- In every run the server keeps one open session for each association, the one
in the table, and clean-ups take no entry but their own, exactly if no clean-up
comes between the creation of another session of the association and its end. -/
theorem keepsOne_iff (steps : List UdpStep) : KeepsOne steps ↔ CleansUpApart steps := by
  have hlt : ∀ {i : ℕ} {x assocId}, udpSessions.At steps (CleansUp x assocId) i → i < steps.length :=
    fun ⟨_, ha, _⟩ => Pool.lt_of_eq_some ha
  constructor
  · rintro ⟨-, hown⟩ i x assocId hclean y hne hsince
    have hentry := entry_of_since i (Nat.le_of_lt (hlt hclean)) (fun j _ => hown j) hsince
    exact hne (hown i x assocId hclean y hentry)
  · intro hapart
    have hown : ∀ n, OwnEntries steps n := by
      intro n i _ x assocId hclean y hentry
      by_contra hne
      exact hapart i x assocId hclean y hne (entry_since i (Nat.le_of_lt (hlt hclean)) hentry)
    exact ⟨fun n hn => (inv_run n hn (hown n)).oneOpen, fun i => hown (i + 1) i (Nat.lt_succ_self i)⟩

/-- Two sessions of one association. The first is dissociated, and its clean-up
comes after the second was created. -/
def overtaken : List UdpStep :=
  [.lookUp 1, .entry 0 true, .dissociate 1, .lookUp 1, .entry 0 true, .leave 0, .cleanUp 0,
    .lookUp 1, .entry 0 true]

/-- The clean-up takes the entry of the second session, and a third one joins it. -/
theorem overtaken_fails : ¬ KeepsOne overtaken := by
  rintro ⟨h, -⟩
  have heq := (h 9 (by decide)).unique 1 2 (.new 1) (.new 1) (by decide) (by decide) rfl rfl rfl
  exact absurd heq (by decide)

end Tuic.Server
