import Tuic.Lib.Pool
import Tuic.Spec.RelayMode

/-! When the first packet fixes the relay mode of a connection. A `relay_packet`
always finds a mode. But two packets of different modes may both be checked before
either is stored, and then the second store changes the mode. -/

namespace Tuic.Server

open Lib

theorem Incoming.mode_eq_of_ne_unexpectedIn {incoming : Incoming} {m : UdpRelayMode}
    (h : m ≠ incoming.unexpectedIn) : m = incoming.mode := by
  cases incoming <;> cases m <;> first | rfl | exact absurd rfl h

theorem Incoming.eq_unexpectedIn_of_ne {incoming : Incoming} {m : UdpRelayMode}
    (h : incoming.mode ≠ m) : m = incoming.unexpectedIn := by
  cases incoming <;> cases m <;> first | rfl | exact absurd rfl h

/-! ### What a step can do -/

/-- A phase that is not on the way from the load to the store. -/
def HandlerPhase.isElsewhere : HandlerPhase → Bool
  | accepting | accepted _ | done | failed _ => true
  | preProcessed _ | stored _ => false

/-- Nothing that can make a session: no session, and no task on the way to the table. -/
def UdpSessions.IsEmpty (s : UdpSessions) : Prop := s.created = [] ∧ s.waiting = []

inductive ModeEffect (s : UdpRelay) : RelayStep → UdpRelay → Prop
  | idle (a : RelayStep) : ModeEffect s a s
  | spawned (incoming : Incoming) : ModeEffect s (.spawn incoming)
      { s with handlers := s.handlers ++ [⟨incoming, .accepting⟩] }
  | moved (a : RelayStep) (x : ℕ) (phase : HandlerPhase) (closed : Bool) (sessions : UdpSessions)
      (elsewhere : phase.isElsewhere = true)
      (empty : s.sessions.IsEmpty → sessions.IsEmpty ∨ ∃ h assocId,
        s.handlers[x]? = some h ∧ h.phase = .stored assocId) :
      ModeEffect s a { s.goOn x phase with closed, sessions }
  | checked (x : ℕ) (incoming : Incoming) (task : Task)
      (present : s.handlers[x]? = some ⟨incoming, .accepted task⟩)
      (expected : task.isPacket = true → s.mode ≠ some incoming.unexpectedIn) :
      ModeEffect s (.check x) (s.goOn x (.preProcessed task))
  | stored (x : ℕ) (incoming : Incoming) (assocId : UInt16)
      (present : s.handlers[x]? = some ⟨incoming, .preProcessed (.packet assocId)⟩) :
      ModeEffect s (.handle x) { s.goOn x (.stored assocId) with mode := some incoming.mode }
  | session (a : UdpStep) (sessions : UdpSessions) (empty : s.sessions.IsEmpty → sessions.IsEmpty) :
      ModeEffect s (.session a) { s with sessions }
  | received (x : WeakSession) (present : s.sessions.created ≠ []) :
      ModeEffect s (.receive x) { s with relays := s.relays ++ [.entered] }
  | relayed (x : ℕ) (ok : Bool) :
      ModeEffect s (.relayPacket x ok) { s with relays := s.relays.modify x (Relay.step s.mode ok) }

theorem UdpSessions.IsEmpty.dissociate {s : UdpSessions} (h : s.IsEmpty) (assocId : UInt16) :
    (s.dissociate assocId).IsEmpty := by
  unfold UdpSessions.dissociate
  split
  · exact ⟨by simp [h.1], h.2⟩
  · exact h

/-- Only a task that waits for the table makes a session. -/
theorem UdpSessions.IsEmpty.step {s : UdpSessions} (h : s.IsEmpty) {a : UdpStep}
    (ha : ∀ assocId, a ≠ .lookUp assocId) : (s.step a).1.IsEmpty := by
  cases a with
  | lookUp assocId => exact absurd rfl (ha assocId)
  | entry i bound => simpa [UdpSessions.step, UdpSessions.entry, h.2] using h
  | dissociate assocId => exact h.dissociate assocId
  | timeout x => simpa [UdpSessions.step, UdpSessions.timeout, h.1] using h
  | leave x => simpa [UdpSessions.step, UdpSessions.leave, h.1] using h
  | cleanUp x => simpa [UdpSessions.step, UdpSessions.cleanUp, h.1] using h

theorem mode_step_effect (s : UdpRelay) (a : RelayStep) : ModeEffect s a (s.step a) := by
  cases a with
  | spawn incoming =>
    simp only [UdpRelay.step, UdpRelay.spawn]
    split
    · exact .idle _
    · exact .spawned incoming
  | accept x task =>
    simp only [UdpRelay.step, UdpRelay.accept]
    split
    · split
      · exact .moved _ x _ s.closed s.sessions rfl .inl
      · exact .moved _ x _ true s.sessions rfl .inl
    · exact .idle _
  | fail x =>
    simp only [UdpRelay.step, UdpRelay.fail]
    split
    · exact .moved _ x _ true s.sessions rfl .inl
    · exact .moved _ x _ true s.sessions rfl .inl
    · exact .idle _
  | check x =>
    simp only [UdpRelay.step, UdpRelay.check]
    split
    · rename_i incoming task hx
      split
      · exact .moved _ x _ true s.sessions rfl .inl
      · rename_i hsrc
        exact .checked x incoming task hx fun hp hm => hsrc (by simp [hp, hm])
    · exact .idle _
  | handle x =>
    simp only [UdpRelay.step, UdpRelay.handle]
    split
    · rename_i incoming assocId hx
      exact .stored x incoming assocId hx
    · rename_i assocId hx
      exact .moved _ x _ s.closed _ rfl fun h => .inl (h.dissociate assocId)
    · exact .moved _ x _ s.closed s.sessions rfl .inl
    · exact .idle _
  | process x whole =>
    simp only [UdpRelay.step, UdpRelay.process]
    split
    · rename_i incoming assocId hx
      cases whole with
      | true => exact .moved _ x _ s.closed _ rfl fun _ => .inr ⟨_, assocId, hx, rfl⟩
      | false => exact .moved _ x _ s.closed s.sessions rfl .inl
    · exact .idle _
  | session a =>
    simp only [UdpRelay.step, UdpRelay.session]
    split
    · exact .idle _
    · exact .idle _
    · exact .session _ _ fun h => h.step fun _ ha => by cases ha
    · exact .session _ _ fun h => h.step fun _ ha => by cases ha
    · exact .session _ _ fun h => h.step fun _ ha => by cases ha
    · exact .session _ _ fun h => h.step fun _ ha => by cases ha
  | receive x =>
    simp only [UdpRelay.step, UdpRelay.receive]
    split
    · rename_i hx
      exact .received x fun hnil => by simp [hnil] at hx
    · exact .idle _
  | relayPacket x ok => exact .relayed x ok

section

variable {s s' : UdpRelay} {a : RelayStep}

/-- Only a packet that comes to `handle_packet` changes the mode, to its own. -/
theorem ModeEffect.mode (he : ModeEffect s a s') :
    s'.mode = s.mode ∨ ∃ x m, Reaches x m s a ∧ s'.mode = some m := by
  cases he with
  | stored x incoming assocId present =>
    exact .inr ⟨x, incoming.mode, ⟨rfl, incoming, assocId, present, rfl⟩, rfl⟩
  | _ => exact .inl rfl

theorem reaches_step {x : ℕ} {m : UdpRelayMode} (h : Reaches x m s a) : (s.step a).mode = some m := by
  obtain ⟨rfl, incoming, assocId, hx, rfl⟩ := h
  simp [UdpRelay.step, UdpRelay.handle, hx]

/-- A packet that is through `pre_process` was so before, or has loaded no mode but its own. -/
theorem ModeEffect.preProcessed (he : ModeEffect s a s') {x : ℕ} {incoming : Incoming} {assocId : UInt16}
    (h : s'.handlers[x]? = some ⟨incoming, .preProcessed (.packet assocId)⟩) :
    s.handlers[x]? = some ⟨incoming, .preProcessed (.packet assocId)⟩ ∨
      (Checks x incoming.mode s a ∧ s.mode ≠ some incoming.unexpectedIn) := by
  cases he with
  | idle => exact .inl h
  | spawned incoming' =>
    rcases Pool.concat_eq_some.1 h with h | ⟨-, h⟩
    · exact .inl h
    · cases h
  | moved _ y phase closed sessions elsewhere empty =>
    obtain ⟨u, hu, hv⟩ := Pool.modify_eq_some.1 h
    split_ifs at hv with hxy
    · cases hv
      cases elsewhere
    · exact .inl (hv ▸ hu)
  | checked y incoming' task present expected =>
    obtain ⟨u, hu, hv⟩ := Pool.modify_eq_some.1 h
    split_ifs at hv with hxy
    · subst hxy
      rw [present] at hu
      cases hu
      cases hv
      exact .inr ⟨⟨rfl, incoming', assocId, present, rfl⟩, expected rfl⟩
    · exact .inl (hv ▸ hu)
  | stored y incoming' assocId' present =>
    obtain ⟨u, hu, hv⟩ := Pool.modify_eq_some.1 h
    split_ifs at hv with hxy
    · cases hv
    · exact .inl (hv ▸ hu)
  | session => exact .inl h
  | received => exact .inl h
  | relayed => exact .inl h

/-! ### The loads of `relay_packet` -/

theorem Relay.step_ne_panicked {r : Relay} (h : r ≠ .panicked) (m : UdpRelayMode) (ok : Bool) :
    r.step (some m) ok ≠ .panicked := by
  cases r <;> cases ok <;> simp_all [Relay.step]

/-- Without a mode no packet has come past its store and nothing is relayed. -/
structure UdpRelay.Inv (s : UdpRelay) : Prop where
  sessions : s.mode = none → s.sessions.IsEmpty
  relays : s.mode = none → s.relays = []
  handlers : s.mode = none → ∀ (x : ℕ) h assocId, s.handlers[x]? = some h → h.phase ≠ .stored assocId
  calm : ∀ (x : ℕ) r, s.relays[x]? = some r → r ≠ Relay.panicked

theorem udpRelay_new_inv : UdpRelay.new.Inv where
  sessions _ := ⟨rfl, rfl⟩
  relays _ := rfl
  handlers _ x h _ hx := by simp [UdpRelay.new] at hx
  calm x r hx := by simp [UdpRelay.new] at hx

theorem UdpRelay.Inv.goOn (h : s.Inv) (x : ℕ) {phase : HandlerPhase} (hp : ∀ assocId, phase ≠ .stored assocId) :
    (s.goOn x phase).Inv where
  sessions := h.sessions
  relays := h.relays
  calm := h.calm
  handlers hm y v assocId hy := by
    obtain ⟨u, hu, rfl⟩ := Pool.modify_eq_some.1 hy
    split_ifs
    · exact hp assocId
    · exact h.handlers hm y u assocId hu

theorem UdpRelay.Inv.effect (h : s.Inv) (he : ModeEffect s a s') : s'.Inv := by
  cases he with
  | idle => exact h
  | spawned incoming =>
    refine ⟨h.sessions, h.relays, fun hm x u assocId hx => ?_, h.calm⟩
    rcases Pool.concat_eq_some.1 hx with hx | ⟨-, rfl⟩
    · exact h.handlers hm x u assocId hx
    · simp
  | moved _ x phase closed sessions elsewhere empty =>
    have hmoved : (s.goOn x phase).Inv := h.goOn x fun assocId hp => by
      rw [hp] at elsewhere
      cases elsewhere
    refine ⟨fun hm => ?_, h.relays, hmoved.handlers, h.calm⟩
    rcases empty (h.sessions hm) with hempty | ⟨u, assocId, hu, hp⟩
    · exact hempty
    · exact absurd hp (h.handlers hm x u assocId hu)
  | checked x incoming task present expected => exact h.goOn x fun _ hp => by cases hp
  | stored x incoming assocId present =>
    exact ⟨fun hm => (by cases hm), fun hm => (by cases hm), fun hm => (by cases hm), h.calm⟩
  | session a sessions empty =>
    exact ⟨fun hm => empty (h.sessions hm), h.relays, h.handlers, h.calm⟩
  | received x present =>
    refine ⟨h.sessions, fun hm => absurd (h.sessions hm).1 present, h.handlers, fun y r hy => ?_⟩
    rcases Pool.concat_eq_some.1 hy with hy | ⟨-, rfl⟩
    · exact h.calm y r hy
    · simp
  | relayed x ok =>
    refine ⟨h.sessions, fun hm => by simp [h.relays hm], h.handlers, fun y r hy => ?_⟩
    obtain ⟨u, hu, rfl⟩ := Pool.modify_eq_some.1 hy
    split_ifs
    · cases hm : s.mode with
      | none => simp [h.relays hm] at hu
      | some m => exact Relay.step_ne_panicked (h.calm y u hu) m ok
    · exact h.calm y u hu

end

/-! ### Runs -/

section

variable {steps : List RelayStep}

theorem mode_effect_at {n : ℕ} {a : RelayStep} (h : steps[n]? = some a) :
    ModeEffect (udpRelay.stateAt steps n) a (udpRelay.stateAt steps (n + 1)) := by
  rw [udpRelay.stateAt_succ h]
  exact mode_step_effect _ a

theorem udpRelay_inv_run (steps : List RelayStep) (n : ℕ) : (udpRelay.stateAt steps n).Inv :=
  (udpRelay.stateAt_reachable steps n).invariant udpRelay_new_inv
    fun s a h => h.effect (mode_step_effect s a)

/-- In every run and at any of its points, a `relay_packet` finds a mode. -/
theorem relay_mode_isSome {n x : ℕ} {r : Relay} (h : (udpRelay.stateAt steps n).relays[x]? = some r) :
    (udpRelay.stateAt steps n).mode.isSome ∧ r ≠ .panicked := by
  have hinv := udpRelay_inv_run steps n
  refine ⟨?_, hinv.calm x r h⟩
  cases hm : (udpRelay.stateAt steps n).mode with
  | none => simp [hinv.relays hm] at h
  | some m => rfl

/-- A packet that is through `pre_process` was checked, and finds no mode but its
own unless a packet of the other mode came past since. -/
theorem preProcessed_run : ∀ n ≤ steps.length, ∀ x incoming assocId,
    (udpRelay.stateAt steps n).handlers[x]? = some ⟨incoming, .preProcessed (.packet assocId)⟩ →
    (∃ c < n, udpRelay.At steps (Checks x incoming.mode) c) ∧
      (Since (udpRelay.At steps (Checks x incoming.mode))
        (udpRelay.At steps fun s a => ∃ y, ∃ m' ≠ incoming.mode, Reaches y m' s a) n →
      ∀ m, (udpRelay.stateAt steps n).mode = some m → m = incoming.mode) := by
  intro n
  induction n with
  | zero =>
    intro _ x incoming assocId h
    simp [Machine.stateAt, Machine.exec, udpRelay, UdpRelay.new] at h
  | succ n ih =>
    intro hn x incoming assocId h
    have ha : steps[n]? = some steps[n] := List.getElem?_eq_getElem hn
    have he := mode_effect_at ha
    rcases he.preProcessed h with hbefore | ⟨hcheck, hexpected⟩
    · obtain ⟨⟨c, hc, hcheck⟩, hmode⟩ := ih (Nat.le_of_lt hn) x incoming assocId hbefore
      refine ⟨⟨c, Nat.lt_succ_of_lt hc, hcheck⟩, fun hsince m hm => ?_⟩
      rcases since_succ.1 hsince with hat | ⟨hsince, hnone⟩
      · -- it is checked once only
        obtain ⟨-, incoming', assocId', hx, -⟩ := (udpRelay.at_iff ha).1 hat
        rw [hbefore] at hx
        cases hx
      · rcases he.mode with hsame | ⟨y, m', hreach, hm'⟩
        · exact hmode hsince m (hsame ▸ hm)
        · obtain rfl : m = m' := Option.some.inj (hm.symm.trans hm')
          by_contra hne
          exact hnone ((udpRelay.at_iff ha).2 ⟨y, m, hne, hreach⟩)
    · refine ⟨⟨n, Nat.lt_succ_self n, (udpRelay.at_iff ha).2 hcheck⟩, fun _ m hm => ?_⟩
      rcases he.mode with hsame | ⟨y, m', ⟨hhandle, -⟩, -⟩
      · apply Incoming.mode_eq_of_ne_unexpectedIn
        rintro rfl
        exact hexpected (hsame.symm.trans hm)
      · rw [hcheck.1] at hhandle
        cases hhandle

/-- A packet with its checks apart finds no mode but its own. -/
theorem ChecksApart.mode_of_reaches (h : ChecksApart steps) {j x : ℕ} {m m' : UdpRelayMode}
    (hreach : udpRelay.At steps (Reaches x m) j) (hm : (udpRelay.stateAt steps j).mode = some m') :
    m' = m := by
  obtain ⟨a, ha, -, incoming, assocId, hx, rfl⟩ := id hreach
  have hlt := Pool.lt_of_eq_some ha
  exact (preProcessed_run j (Nat.le_of_lt hlt) x incoming assocId hx).2 (h j x _ hreach) m' hm

theorem ChecksApart.stays (h : ChecksApart steps) {i j : ℕ} {m : UdpRelayMode} (hij : i ≤ j)
    (hj : j ≤ steps.length) (hm : (udpRelay.stateAt steps i).mode = some m) :
    (udpRelay.stateAt steps j).mode = some m := by
  refine Machine.run_induction (P := fun n => (udpRelay.stateAt steps n).mode = some m) hm
    (fun n a _ ha ih => ?_) hij hj
  rcases (mode_effect_at ha).mode with hsame | ⟨y, m', hreach, hm'⟩
  · exact hsame.trans ih
  · rw [hm', h.mode_of_reaches ((udpRelay.at_iff ha).2 hreach) ih]

theorem mode_after_reaches {j x : ℕ} {m : UdpRelayMode} (h : udpRelay.At steps (Reaches x m) j) :
    j < steps.length ∧ (udpRelay.stateAt steps (j + 1)).mode = some m := by
  obtain ⟨a, ha, hreach⟩ := h
  refine ⟨Pool.lt_of_eq_some ha, ?_⟩
  rw [udpRelay.stateAt_succ ha]
  exact reaches_step hreach

/-- The check itself is right. -/
theorem refused_at {j x : ℕ} {m m' : UdpRelayMode} (hm : (udpRelay.stateAt steps j).mode = some m)
    (h : udpRelay.At steps (Checks x m') j) (hne : m' ≠ m) :
    (udpRelay.stateAt steps (j + 1)).closed = true ∧ ∃ u,
      (udpRelay.stateAt steps (j + 1)).handlers[x]? = some u ∧ u.phase = .failed .unexpectedPacketSource := by
  obtain ⟨a, ha, rfl, incoming, assocId, hx, rfl⟩ := h
  have hun := Incoming.eq_unexpectedIn_of_ne hne
  rw [udpRelay.stateAt_succ ha]
  have hstep : (udpRelay.stateAt steps j).step (.check x) =
      (udpRelay.stateAt steps j).refuse x .unexpectedPacketSource := by
    simp [UdpRelay.step, UdpRelay.check, hx, hm, hun, Task.isPacket]
  simp only [udpRelay] at hstep ⊢
  rw [hstep]
  exact ⟨rfl, _, Pool.modify_eq_some.2 ⟨_, hx, rfl⟩, by simp⟩

/-- In every run, the first packet fixes the mode if and only if every packet that
comes to `handle_packet` does so before a packet of the other mode has come there
since its check. -/
theorem modeFixed_iff (steps : List RelayStep) : ModeFixed steps ↔ ChecksApart steps := by
  constructor
  · intro h j x m hreach
    obtain ⟨a, ha, -, incoming, assocId, hx, rfl⟩ := id hreach
    have hlt := Pool.lt_of_eq_some ha
    obtain ⟨⟨c, hc, hcheck⟩, -⟩ := preProcessed_run j (Nat.le_of_lt hlt) x incoming assocId hx
    refine ⟨c, hc, hcheck, fun k _ _ hk => ?_⟩
    obtain ⟨a', ha', y, m', hne, hother⟩ := hk
    obtain ⟨hk, hm'⟩ := mode_after_reaches ⟨a', ha', hother⟩
    exact hne (h.same (k + 1) hk m' hm' j x _ hreach).symm
  · intro h
    refine ⟨fun i j m hij hj hm => h.stays hij hj hm, fun n hn m hm j x m' hreach => ?_,
      fun j x m m' hm hcheck hne => refused_at hm hcheck hne, fun n _ x r hx => relay_mode_isSome hx⟩
    obtain ⟨hj, hm'⟩ := mode_after_reaches hreach
    rcases Nat.lt_or_ge j n with hjn | hnj
    · exact Option.some.inj ((h.stays hjn hn hm').symm.trans hm)
    · exact Option.some.inj (hm'.symm.trans (h.stays (Nat.le_succ_of_le hnj) hj hm))

end

/-- A packet in a stream and one in a datagram both find no mode, and store theirs
one after the other. -/
theorem modeFixed_not :
    let steps : List RelayStep := [.spawn .uniStream, .spawn .datagram, .accept 0 (.packet 1),
      .accept 1 (.packet 1), .check 0, .check 1, .handle 0, .handle 1]
    (udpRelay.stateAt steps 7).mode = some .quic ∧ (udpRelay.stateAt steps 8).mode = some .native ∧
      ¬ ModeFixed steps := by
  refine ⟨rfl, rfl, fun h => ?_⟩
  have hstays := h.stays 7 8 .quic (by decide) (by decide) rfl
  cases hstays

end Tuic.Server
