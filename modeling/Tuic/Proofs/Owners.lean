import Mathlib.Data.List.Induction
import Tuic.Lib.Pool
import Tuic.Spec.Owners

/-! When every entry of the session table is alive. The order of the accesses to
the table is right in every interleaving: a session is inserted under the lock that
its clean-up has to wait for, and is released after its clean-up. Only a panic in
the loop of a listen task skips the clean-up. -/

namespace Tuic.Server

open Lib

variable {cfg : ListenConfig} {b : Build}

/-! ### What a step can do -/

inductive OwnerEffect (cfg : ListenConfig) (b : Build) (s : Owners) : OwnerStep → Owners → Prop
  | idle (a : OwnerStep) : OwnerEffect cfg b s a s
  | waits (a : OwnerStep) (waiting : List UInt16) : OwnerEffect cfg b s a { s with waiting }
  | made (i : ℕ) (assocId : UInt16) (waiting : List UInt16) (vacant : s.table.get assocId = none) :
      OwnerEffect cfg b s (.entry i true)
        ⟨s.created ++ [.new assocId], s.table, waiting, some (assocId, s.created.length)⟩
  | inserted (assocId : UInt16) (x : WeakSession) (holds : s.inserting = some (assocId, x)) :
      OwnerEffect cfg b s .insert { s with table := s.table.insert assocId x, inserting := none }
  | dissociated (assocId : UInt16) (x : WeakSession) (some : s.table.get assocId = some x) :
      OwnerEffect cfg b s (.dissociate assocId)
        { s with table := s.table.remove assocId, created := s.created.modify x OwnedSession.close }
  | panicked (x : WeakSession) (now : Model.Instant) (panics : Panics cfg b x s (.turn x now)) :
      OwnerEffect cfg b s (.turn x now)
        { s with created := s.created.modify x ({ · with owner := .released }) }
  | timedOut (x : WeakSession) :
      OwnerEffect cfg b s (.timeout x) { s with created := s.created.modify x OwnedSession.close }
  | left (x : WeakSession) (u : OwnedSession) (some : s.created[x]? = some u) (listens : u.owner = .listening) :
      OwnerEffect cfg b s (.leave x)
        { s with created := s.created.modify x ({ · with owner := .leaving }) }
  | removed (x : WeakSession) (u : OwnedSession) (free : s.inserting = none)
      (some : s.created[x]? = some u) (leaves : u.owner = .leaving) :
      OwnerEffect cfg b s (.remove x) { s with
        table := s.table.remove u.assocId
        created := s.created.modify x ({ · with owner := .removed }) }
  | ended (x : WeakSession) (u : OwnedSession) (some : s.created[x]? = some u) (left : u.owner = .removed) :
      OwnerEffect cfg b s (.release x)
        { s with created := s.created.modify x ({ · with owner := .released }) }

theorem owner_step_effect (s : Owners) (a : OwnerStep) : OwnerEffect cfg b s a (s.step cfg b a) := by
  unfold Owners.step
  split
  · exact .idle a
  rename_i hfree
  cases a with
  | lookUp assocId =>
    simp only [Owners.lookUp]
    split
    · exact .idle _
    · exact .waits _ _
  | entry i bound =>
    simp only [Owners.entry]
    split
    · exact .idle _
    · rename_i assocId hi
      split
      · exact .waits _ _
      · rename_i hnone
        cases bound with
        | true => exact .made i assocId _ hnone
        | false => exact .waits _ _
  | insert =>
    simp only [Owners.insert]
    split
    · rename_i assocId x hx
      exact .inserted assocId x hx
    · exact .idle _
  | dissociate assocId =>
    simp only [Owners.dissociate]
    split
    · rename_i x hx
      exact .dissociated assocId x hx
    · exact .idle _
  | turn x now =>
    simp only [Owners.turn]
    split
    · rename_i hx
      by_cases hp : cfg.panics b now = true
      · rw [if_pos hp]
        exact .panicked x now ⟨now, rfl, hp, _, hx, rfl⟩
      · rw [if_neg hp]
        exact .idle _
    · exact .idle _
  | timeout x =>
    simp only [Owners.timeout]
    split
    · exact .timedOut x
    · exact .idle _
  | leave x =>
    simp only [Owners.leave]
    split
    · rename_i hx
      exact .left x _ hx rfl
    · exact .idle _
  | remove x =>
    have hnone : s.inserting = none := by simpa [OwnerStep.locks] using hfree
    simp only [Owners.remove]
    split
    · rename_i hx
      exact .removed x _ hnone hx rfl
    · exact .idle _
  | release x =>
    simp only [Owners.release]
    split
    · rename_i hx
      exact .ended x _ hx rfl
    · exact .idle _

/-! ### The sessions in the table -/

/-- The listen task of the session has its clean-up before it. -/
def OwnedSession.cleansUp (u : OwnedSession) : Prop := u.owner = .listening ∨ u.owner = .leaving

/-- The session of an entry, or of an insertion to come, belongs to its association
and has its clean-up before it; before the insertion, it may have panicked. -/
structure Owners.Inv (s : Owners) (dead : WeakSession → Prop) : Prop where
  listed : ∀ assocId x, s.table.get assocId = some x →
    ∃ u, s.created[x]? = some u ∧ u.assocId = assocId ∧ u.cleansUp
  pending : ∀ assocId x, s.inserting = some (assocId, x) →
    ∃ u, s.created[x]? = some u ∧ u.assocId = assocId ∧ (u.cleansUp ∨ dead x)

theorem owners_new_inv (dead : WeakSession → Prop) : Owners.new.Inv dead where
  listed _ _ h := by cases h
  pending _ _ h := by cases h

section

variable {s : Owners} {dead : WeakSession → Prop}

theorem Owners.Inv.mono {dead' : WeakSession → Prop} (h : s.Inv dead) (hsub : ∀ x, dead x → dead' x) :
    s.Inv dead' where
  listed := h.listed
  pending assocId x hx := by
    obtain ⟨u, hu, hassoc, hup⟩ := h.pending assocId x hx
    exact ⟨u, hu, hassoc, hup.imp_right (hsub x)⟩

/-- What changes a session keeps the invariant unless it ends a task that an entry
or an insertion relies on. -/
theorem Owners.Inv.modify (h : s.Inv dead) (x : WeakSession) {f : OwnedSession → OwnedSession}
    (hassoc : ∀ u, (f u).assocId = u.assocId)
    (hlisted : ∀ assocId u, s.table.get assocId = some x → s.created[x]? = some u → u.cleansUp →
      (f u).cleansUp)
    (hpending : ∀ assocId u, s.inserting = some (assocId, x) → s.created[x]? = some u → u.cleansUp →
      (f u).cleansUp ∨ dead x) : ({ s with created := s.created.modify x f } : Owners).Inv dead where
  listed assocId y hy := by
    obtain ⟨u, hu, hid, hup⟩ := h.listed assocId y hy
    refine ⟨_, Pool.modify_eq_some.2 ⟨u, hu, rfl⟩, ?_⟩
    split_ifs with hxy
    · subst hxy
      exact ⟨(hassoc u).trans hid, hlisted assocId u hy hu hup⟩
    · exact ⟨hid, hup⟩
  pending assocId y hy := by
    obtain ⟨u, hu, hid, hup⟩ := h.pending assocId y hy
    refine ⟨_, Pool.modify_eq_some.2 ⟨u, hu, rfl⟩, ?_⟩
    split_ifs with hxy
    · subst hxy
      exact ⟨(hassoc u).trans hid, hup.elim (hpending assocId u hy hu) .inr⟩
    · exact ⟨hid, hup⟩

theorem Owners.Inv.remove (h : s.Inv dead) (assocId : UInt16) :
    ({ s with table := s.table.remove assocId } : Owners).Inv dead where
  listed id y hy := by
    rw [Table.get_remove] at hy
    split_ifs at hy
    exact h.listed id y hy
  pending := h.pending

theorem Owners.Inv.effect {s' : Owners} {a : OwnerStep} (h : s.Inv dead)
    (he : OwnerEffect cfg b s a s')
    (hpanic : ∀ x, Panics cfg b x s a → (∀ assocId, s.table.get assocId ≠ some x) ∧ dead x)
    (hinsert : ∀ x, Inserts x s a → ¬ dead x) : s'.Inv dead := by
  cases he with
  | idle => exact h
  | waits => exact ⟨h.listed, h.pending⟩
  | made i assocId waiting vacant =>
    refine ⟨fun id y hy => ?_, fun id y hy => ?_⟩
    · obtain ⟨u, hu, hup⟩ := h.listed id y hy
      exact ⟨u, Pool.concat_eq_some.2 (.inl hu), hup⟩
    · cases hy
      exact ⟨_, Pool.concat_eq_some.2 (.inr ⟨rfl, rfl⟩), rfl, .inl (.inl rfl)⟩
  | inserted assocId x holds =>
    refine ⟨fun id y hy => ?_, fun _ _ hy => by cases hy⟩
    rw [Table.get_insert] at hy
    split_ifs at hy with hid
    · obtain rfl := Option.some.inj hy
      obtain ⟨u, hu, hassoc, hup⟩ := h.pending assocId x holds
      have hlive := hinsert x ⟨rfl, assocId, holds⟩
      exact ⟨u, hu, hassoc.trans hid.symm, hup.resolve_right hlive⟩
    · exact h.listed id y hy
  | dissociated assocId x some =>
    exact (h.modify x (f := OwnedSession.close) (fun _ => rfl) (fun _ _ _ _ hup => hup)
      fun _ _ _ _ hup => .inl hup).remove assocId
  | panicked x now panics =>
    obtain ⟨hnot, hdead⟩ := hpanic x panics
    exact h.modify x (fun _ => rfl) (fun assocId _ hx => absurd hx (hnot assocId))
      fun _ _ _ _ _ => .inr hdead
  | timedOut x =>
    exact h.modify x (fun _ => rfl) (fun _ _ _ _ hup => hup) fun _ _ _ _ hup => .inl hup
  | left x u some listens =>
    exact h.modify x (fun _ => rfl) (fun _ _ _ _ _ => .inr rfl) fun _ _ _ _ _ => .inl (.inr rfl)
  | removed x u free some leaves =>
    -- the task removes the entry of its own session before it lets go of it
    have hrest := h.remove u.assocId
    refine hrest.modify x (fun _ => rfl) (fun id v hx hv _ => ?_) fun _ _ hy => ?_
    · rw [Table.get_remove] at hx
      split_ifs at hx with hid
      obtain ⟨w, hw, hassoc, -⟩ := h.listed id x hx
      obtain rfl : u = w := Option.some.inj (some.symm.trans hw)
      exact absurd hassoc.symm hid
    · rw [free] at hy
      cases hy
  | ended x u some left =>
    have hnot : ∀ v, s.created[x]? = Option.some v → ¬ v.cleansUp := by
      intro v hv hup
      obtain rfl : u = v := Option.some.inj (some.symm.trans hv)
      rw [OwnedSession.cleansUp, left] at hup
      rcases hup with hup | hup <;> cases hup
    exact h.modify x (fun _ => rfl) (fun _ v _ hv hup => absurd hup (hnot v hv))
      fun _ v _ hv hup => absurd hup (hnot v hv)

theorem Owners.Inv.allAlive (h : s.Inv dead) : s.AllAlive := by
  intro assocId x hx
  obtain ⟨u, hu, -, hup⟩ := h.listed assocId x hx
  refine ⟨u, hu, ?_⟩
  rcases hup with hup | hup <;> simp [OwnedSession.alive, hup]

/-- A session that is released stays released. -/
theorem released_effect {s' : Owners} {a : OwnerStep} (he : OwnerEffect cfg b s a s') {x : WeakSession}
    (h : ∃ u, s.created[x]? = some u ∧ u.alive = false) :
    ∃ u, s'.created[x]? = some u ∧ u.alive = false := by
  obtain ⟨u, hu, hdead⟩ := h
  have hmodify : ∀ (y : WeakSession) (f : OwnedSession → OwnedSession),
      (x = y → (f u).alive = false) → ∃ v, (s.created.modify y f)[x]? = some v ∧ v.alive = false := by
    intro y f hf
    refine ⟨_, Pool.modify_eq_some.2 ⟨u, hu, rfl⟩, ?_⟩
    split_ifs with hxy
    · exact hf hxy.symm
    · exact hdead
  have howner : u.owner = .released := by simpa [OwnedSession.alive] using hdead
  cases he with
  | idle => exact ⟨u, hu, hdead⟩
  | waits => exact ⟨u, hu, hdead⟩
  | made i assocId waiting vacant => exact ⟨u, Pool.concat_eq_some.2 (.inl hu), hdead⟩
  | inserted assocId y holds => exact ⟨u, hu, hdead⟩
  | dissociated assocId y some => exact hmodify y _ fun _ => hdead
  | panicked y now panics => exact hmodify y _ fun _ => rfl
  | timedOut y => exact hmodify y _ fun _ => hdead
  | left y v some listens =>
    refine hmodify y _ fun hxy => ?_
    subst hxy
    rw [hu] at some
    cases some
    rw [howner] at listens
    cases listens
  | removed y v free some leaves =>
    refine hmodify y _ fun hxy => ?_
    subst hxy
    rw [hu] at some
    cases some
    rw [howner] at leaves
    cases leaves
  | ended y v some left => exact hmodify y _ fun _ => rfl

/-- A panic in a turn takes the session from its task, and leaves the table alone. -/
theorem panics_step {a : OwnerStep} {x : WeakSession} (h : Panics cfg b x s a) :
    (s.step cfg b a).table = s.table ∧
      ∃ u, (s.step cfg b a).created[x]? = some u ∧ u.alive = false := by
  obtain ⟨now, rfl, hp, ⟨assocId, closeTx, owner⟩, hu, hlistens⟩ := h
  obtain rfl : owner = .listening := hlistens
  have hturn : s.step cfg b (.turn x now) =
      { s with created := s.created.modify x ({ · with owner := .released }) } := by
    simp [Owners.step, OwnerStep.locks, Owners.turn, hu, hp]
  rw [hturn]
  refine ⟨rfl, ⟨assocId, closeTx, .released⟩, ?_, rfl⟩
  exact Pool.modify_eq_some.2 ⟨_, hu, (if_pos rfl).symm⟩

theorem inserts_step {a : OwnerStep} {x : WeakSession} (h : Inserts x s a) :
    ∃ assocId, (s.step cfg b a).table.get assocId = some x := by
  obtain ⟨rfl, assocId, holds⟩ := h
  refine ⟨assocId, ?_⟩
  have hinsert : s.step cfg b .insert =
      { s with table := s.table.insert assocId x, inserting := none } := by
    simp [Owners.step, OwnerStep.locks, Owners.insert, holds]
  rw [hinsert]
  exact Table.get_insert_self _ _ _

end

/-! ### Runs -/

section

variable {steps : List OwnerStep}

theorem owner_effect_at {n : ℕ} {a : OwnerStep} (h : steps[n]? = some a) :
    OwnerEffect cfg b ((owners cfg b).stateAt steps n) a ((owners cfg b).stateAt steps (n + 1)) := by
  rw [(owners cfg b).stateAt_succ h]
  exact owner_step_effect _ a

/-- The listen task of `x` has panicked before step `n`. -/
def PanickedBefore (cfg : ListenConfig) (b : Build) (steps : List OwnerStep) (n : ℕ) (x : WeakSession) :
    Prop := ∃ j < n, (owners cfg b).At steps (Panics cfg b x) j

theorem owners_inv_run (h : PanicsApart cfg b steps) : ∀ n ≤ steps.length,
    ((owners cfg b).stateAt steps n).Inv (PanickedBefore cfg b steps n) := by
  intro n
  induction n with
  | zero => exact fun _ => owners_new_inv _
  | succ n ih =>
    intro hn
    have ha : steps[n]? = some steps[n] := List.getElem?_eq_getElem hn
    have hinv : ((owners cfg b).stateAt steps n).Inv (PanickedBefore cfg b steps (n + 1)) :=
      (ih (Nat.le_of_lt hn)).mono fun x ⟨j, hj, hx⟩ => ⟨j, Nat.lt_succ_of_lt hj, hx⟩
    refine hinv.effect (owner_effect_at ha) (fun x hx => ?_) fun x hx => ?_
    · have hat := ((owners cfg b).at_iff ha).2 hx
      exact ⟨(h n x hat).1, n, Nat.lt_succ_self n, hat⟩
    · rintro ⟨j, hj, hpanic⟩
      rcases Nat.lt_succ_iff_lt_or_eq.1 hj with hlt | rfl
      · exact (h j x hpanic).2 n hlt (((owners cfg b).at_iff ha).2 hx)
      · obtain ⟨now, hturn, -⟩ := ((owners cfg b).at_iff ha).1 hpanic
        rw [hx.1] at hturn
        cases hturn

/-- A task that has panicked has released its session, now and later. -/
theorem released_after {i : ℕ} {x : WeakSession} (h : (owners cfg b).At steps (Panics cfg b x) i) {n : ℕ}
    (hin : i < n) (hn : n ≤ steps.length) :
    ∃ u, ((owners cfg b).stateAt steps n).created[x]? = some u ∧ u.alive = false := by
  obtain ⟨a, ha, hpanics⟩ := h
  refine Machine.run_induction (P := fun n => ∃ u,
    ((owners cfg b).stateAt steps n).created[x]? = some u ∧ u.alive = false) (k := i + 1) ?_
    (fun j a _ ha ih => released_effect (owner_effect_at ha) ih) hin hn
  rw [(owners cfg b).stateAt_succ ha]
  exact (panics_step hpanics).2

theorem AllAlive.absent {s : Owners} (h : s.AllAlive) {x : WeakSession}
    (hx : ∃ u, s.created[x]? = some u ∧ u.alive = false) (assocId : UInt16) :
    s.table.get assocId ≠ some x := by
  intro hget
  obtain ⟨u, hu, hdead⟩ := hx
  obtain ⟨v, hv, halive⟩ := h assocId x hget
  rw [hu] at hv
  cases hv
  rw [hdead] at halive
  cases halive

/-- In every run, every entry of the table is alive in every state if and only if
listen tasks panic only while their session is not in the table, and not before it
is inserted. -/
theorem allAlive_iff (cfg : ListenConfig) (b : Build) (steps : List OwnerStep) :
    (∀ n ≤ steps.length, ((owners cfg b).stateAt steps n).AllAlive) ↔ PanicsApart cfg b steps := by
  constructor
  · intro h i x hpanic
    refine ⟨fun assocId hx => ?_, fun j hij hins => ?_⟩
    · obtain ⟨a, ha, hstep⟩ := id hpanic
      have hlt := Pool.lt_of_eq_some ha
      have hsame : ((owners cfg b).stateAt steps (i + 1)).table.get assocId = some x := by
        rw [(owners cfg b).stateAt_succ ha]
        exact (congrArg (fun t => t.get assocId) (panics_step hstep).1).trans hx
      exact AllAlive.absent (h (i + 1) hlt) (released_after hpanic (Nat.lt_succ_self i) hlt) assocId hsame
    · obtain ⟨a, ha, hstep⟩ := hins
      have hlt := Pool.lt_of_eq_some ha
      obtain ⟨assocId, hx⟩ : ∃ assocId, ((((owners cfg b).stateAt steps j).step cfg b a).table.get
          assocId = some x) := inserts_step hstep
      refine AllAlive.absent (h (j + 1) hlt) (released_after hpanic (Nat.lt_succ_of_lt hij) hlt) assocId ?_
      rw [(owners cfg b).stateAt_succ ha]
      exact hx
  · exact fun h n hn => (owners_inv_run h n hn).allAlive

end

/-- With a period of zero the listen task panics at once, and its entry stays. The
next packet finds it, and makes no session. -/
theorem allAlive_not :
    let cfg : ListenConfig := ⟨0, 1500, 2 ^ 63⟩
    let steps : List OwnerStep := [.lookUp 1, .entry 0 true, .insert, .turn 0 5, .lookUp 1]
    ((owners cfg .release64).stateAt steps 5).table.get 1 = some 0 ∧
      ((owners cfg .release64).stateAt steps 5).waiting = [] ∧
      ¬ ∀ n ≤ steps.length, ((owners cfg .release64).stateAt steps n).AllAlive := by
  refine ⟨rfl, rfl, fun h => ?_⟩
  obtain ⟨u, hu, halive⟩ := h 4 (by decide) 1 0 rfl
  cases hu
  cases halive

/-- The order of the accesses is right: as long as no turn panics, every entry is
alive in every interleaving. -/
theorem allAlive_of_calm {steps : List OwnerStep}
    (h : ∀ x now, .turn x now ∈ steps → cfg.panics b now = false) {n : ℕ} (hn : n ≤ steps.length) :
    ((owners cfg b).stateAt steps n).AllAlive := by
  have hapart : PanicsApart cfg b steps := by
    rintro i x ⟨a, ha, now, rfl, hp, -⟩
    rw [h x now (List.mem_of_getElem? ha)] at hp
    cases hp
  exact (owners_inv_run hapart n hn).allAlive

/-! ### The coarser machine -/

def Owner.toListen : Owner → Listen
  | listening => .running
  | leaving => .leaving
  | removed | released => .ended

def OwnedSession.toSession (u : OwnedSession) : UdpSession := ⟨u.assocId, u.closeTx, u.owner.toListen⟩

/-- The sessions with each insertion to come done, and with tasks that end at their
clean-up. -/
def Owners.toSessions (s : Owners) : UdpSessions where
  created := s.created.map OwnedSession.toSession
  table :=
    match s.inserting with
    | some (assocId, x) => s.table.insert assocId x
    | none => s.table
  waiting := s.waiting

section

variable {s : Owners} {x : WeakSession} {f : OwnedSession → OwnedSession}

theorem toSessions_some {u : OwnedSession} (h : s.created[x]? = some u) :
    s.toSessions.created[x]? = some u.toSession := by
  simp [Owners.toSessions, h]

theorem toSessions_table (h : s.inserting = none) : s.toSessions.table = s.table := by
  simp [Owners.toSessions, h]

/-- A session is changed alike before and after it is seen by the coarser machine. -/
theorem toSessions_modify (g : UdpSession → UdpSession)
    (h : ∀ u, s.created[x]? = some u → (f u).toSession = g u.toSession) :
    ({ s with created := s.created.modify x f } : Owners).toSessions =
      { s.toSessions with created := s.toSessions.created.modify x g } := by
  simp only [Owners.toSessions, Pool.map_modify h]

/-- The same, for a step that also changes the table. -/
theorem toSessions_put (g : UdpSession → UdpSession)
    (h : ∀ u, s.created[x]? = some u → (f u).toSession = g u.toSession) (hn : s.inserting = none)
    (table : Table UInt16 WeakSession) :
    ({ s with created := s.created.modify x f, table } : Owners).toSessions =
      { s.toSessions with created := s.toSessions.created.modify x g, table } := by
  simp only [Owners.toSessions, Pool.map_modify h, hn]

end

/-- Without panics every step is one of the coarser machine, or changes nothing that
it tells. -/
theorem owners_simulates (s : Owners) (a : OwnerStep) (h : ∀ x, ¬ Panics cfg b x s a) :
    (s.step cfg b a).toSessions = s.toSessions ∨
      ∃ a', (s.step cfg b a).toSessions = (s.toSessions.step a').1 := by
  unfold Owners.step
  split
  · exact .inl rfl
  rename_i hfree
  have hnone : a.locks = true → s.inserting = none := fun hl => by simpa [hl] using hfree
  cases a with
  | lookUp assocId =>
    refine .inr ⟨.lookUp assocId, ?_⟩
    have hn := hnone rfl
    simp only [Owners.lookUp, UdpSessions.step, UdpSessions.lookUp, toSessions_table hn]
    cases s.table.get assocId with
    | none => simp [Owners.toSessions, hn]
    | some x => rfl
  | entry i bound =>
    refine .inr ⟨.entry i bound, ?_⟩
    have hn := hnone rfl
    simp only [Owners.entry, UdpSessions.step, UdpSessions.entry, Owners.toSessions, hn]
    cases s.waiting[i]? with
    | none => simp [hn]
    | some assocId =>
      cases hx : s.table.get assocId with
      | some x => simp [hx]
      | none => cases bound <;> simp [hx, OwnedSession.toSession, OwnedSession.new, UdpSession.new, Owner.toListen]
  | insert =>
    left
    cases hx : s.inserting with
    | none => simp [Owners.insert, Owners.toSessions, hx]
    | some y => simp [Owners.insert, Owners.toSessions, hx]
  | dissociate assocId =>
    refine .inr ⟨.dissociate assocId, ?_⟩
    have hn := hnone rfl
    simp only [Owners.dissociate, UdpSessions.step, UdpSessions.dissociate, toSessions_table hn]
    cases hx : s.table.get assocId with
    | none => rfl
    | some x =>
      exact toSessions_put UdpSession.close (fun _ _ => rfl) hn _
  | turn x now =>
    left
    simp only [Owners.turn]
    split
    · rename_i hx
      rw [if_neg fun hp => h x ⟨now, rfl, hp, _, hx, rfl⟩]
    · rfl
  | timeout x =>
    simp only [Owners.timeout]
    split
    · rename_i hx
      refine .inr ⟨.timeout x, (toSessions_modify UdpSession.close fun _ _ => rfl).trans ?_⟩
      simp only [UdpSessions.step, UdpSessions.timeout, toSessions_some hx, OwnedSession.toSession, Owner.toListen]
    · exact .inl rfl
  | leave x =>
    simp only [Owners.leave]
    split
    · rename_i hx
      refine .inr ⟨.leave x, (toSessions_modify ({ · with listen := .leaving }) fun _ _ => rfl).trans ?_⟩
      simp only [UdpSessions.step, UdpSessions.leave, toSessions_some hx, OwnedSession.toSession, Owner.toListen]
    · exact .inl rfl
  | remove x =>
    have hn := hnone rfl
    simp only [Owners.remove]
    split
    · rename_i hx
      refine .inr ⟨.cleanUp x, (toSessions_put ({ · with listen := .ended }) (fun _ _ => rfl) hn _).trans ?_⟩
      simp only [UdpSessions.step, UdpSessions.cleanUp, toSessions_some hx, toSessions_table hn,
        OwnedSession.toSession, Owner.toListen]
    · exact .inl rfl
  | release x =>
    left
    simp only [Owners.release]
    split
    · rename_i hx
      refine (toSessions_modify id fun u hu => ?_).trans (by rw [List.modify_id])
      rw [hx] at hu
      cases hu
      rfl
    · rfl

/-- A run without panics is one of the coarser machine. -/
theorem owners_refines {steps : List OwnerStep}
    (h : ∀ x now, .turn x now ∈ steps → cfg.panics b now = false) :
    ∃ steps', udpSessions.exec .new steps' = ((owners cfg b).exec .new steps).toSessions := by
  induction steps using List.reverseRecOn with
  | nil => exact ⟨[], rfl⟩
  | append_singleton steps a ih =>
    obtain ⟨steps', hsteps⟩ := ih fun x now hx => h x now (List.mem_append_left _ hx)
    have hcalm : ∀ x, ¬ Panics cfg b x ((owners cfg b).exec .new steps) a := by
      rintro x ⟨now, rfl, hp, -⟩
      rw [h x now (List.mem_append_right _ (List.mem_singleton_self _))] at hp
      cases hp
    rw [Machine.exec_concat]
    rcases owners_simulates _ a hcalm with hsame | ⟨a', hstep⟩
    · exact ⟨steps', hsteps.trans hsame.symm⟩
    · refine ⟨steps' ++ [a'], ?_⟩
      rw [Machine.exec_concat, hsteps]
      exact hstep.symm

end Tuic.Server
