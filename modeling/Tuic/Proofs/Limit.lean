import Tuic.Sanity.Online

/-! The limit of clients per user. A connection is compared with the count before
it, so one more than the limit passes. -/

namespace Tuic.Server

open Lib

section

variable {limits : RestfulConfig} {s s' : Online} {a : OnlineStep} {u : Uuid}

theorem within_connected (s : Online) (uuid : Uuid) (phase : Phase) (r : Restful) (u : Uuid) :
    ({ s with restful := r, clients := s.clients ++ [⟨uuid, phase⟩] } : Online).within u =
      s.within u + if uuid = u ∧ phase.isWithin then 1 else 0 := by
  simp [Online.within]

/-- Only a connection that passes adds to those within the limit. -/
theorem within_step (he : OnlineEffect limits s a s') (u : Uuid) :
    s'.within u ≤ s.within u ∨ ∃ current, a = .connect u ∧
      s.restful.onlineCounter.get u = some current ∧ ¬ limits.Reached current ∧
      s'.within u = s.within u + 1 := by
  cases he with
  | connected uuid current passed closes count limit =>
    have hwithin := within_connected s uuid (if passed then .passed else .rejected)
      { s.restful with onlineCounter := s.restful.onlineCounter.insert uuid (current + 1), closes } u
    by_cases hin : uuid = u ∧ passed = true
    · obtain ⟨rfl, rfl⟩ := hin
      exact .inr ⟨current, rfl, count, limit.1 rfl, by simpa [Phase.isWithin] using hwithin⟩
    · have hout : ¬ (uuid = u ∧ (if passed then Phase.passed else Phase.rejected).isWithin = true) := by
        cases passed <;> simp [Phase.isWithin] at hin ⊢
        exact hin
      rw [if_neg hout] at hwithin
      exact .inl hwithin.le
  | registered conn uuid hc =>
    exact .inl (Pool.countP_modify_same hc (by simp [Phase.isWithin])).le
  | disconnected conn uuid wasOnline current hc count =>
    have := Pool.countP_modify (p := fun client => client.uuid = u ∧ client.phase.isWithin) hc
      ({ · with phase := .leaving wasOnline })
    left
    simp only [Phase.isWithin, Bool.false_eq_true, and_false, decide_false, if_false] at this
    exact Nat.le_of_add_right_le this.le
  | unregistered conn uuid wasOnline hc =>
    exact .inl (Pool.countP_modify_same hc (by simp [Phase.isWithin])).le
  | idle => exact .inl le_rfl

/-- A connection passes that finds the counter within the limit. -/
theorem within_connect {current : UInt64} (he : OnlineEffect limits s (.connect u) s')
    (hcount : s.restful.onlineCounter.get u = some current) (hreach : ¬ limits.Reached current) :
    s'.within u = s.within u + 1 := by
  cases he with
  | connected _ c passed closes count limit =>
    obtain rfl : current = c := Option.some.inj (hcount.symm.trans count)
    obtain rfl : passed = true := limit.2 hreach
    refine (within_connected s u .passed _ u).trans ?_
    simp [Phase.isWithin]
  | idle _ absent =>
    rw [absent u rfl] at hcount
    cases hcount

/-! ### The counter -/

/-- The counter of a user is the number of the connections that are counted. -/
def Online.Exact (s : Online) : Prop :=
  ∀ u current, s.restful.onlineCounter.get u = some current → current = UInt64.ofNat (s.counted u)

theorem counted_connected (s : Online) (uuid : Uuid) (passed : Bool) (r : Restful) (u : Uuid) :
    ({ s with restful := r
              clients := s.clients ++ [⟨uuid, if passed then .passed else .rejected⟩] } : Online).counted u =
      s.counted u + if uuid = u then 1 else 0 := by
  cases passed <;> simp [Online.counted, Phase.isCounted]

theorem counted_disconnected {conn : QuicClient} {uuid : Uuid} {wasOnline : Bool}
    (hc : s.clients[conn]? = some ⟨uuid, if wasOnline then .online else .rejected⟩) (r : Restful) (u : Uuid) :
    ({ s.enter conn (.leaving wasOnline) with restful := r } : Online).counted u +
      (if uuid = u then 1 else 0) = s.counted u := by
  have := Pool.countP_modify (p := fun client => client.uuid = u ∧ client.phase.isCounted) hc
    ({ · with phase := .leaving wasOnline })
  cases wasOnline <;> simpa [Online.counted, Phase.isCounted, Online.enter] using this

theorem ofNat_succ_sub_one (n : ℕ) : UInt64.ofNat (n + 1) - 1 = UInt64.ofNat n := by
  rw [UInt64.ofNat_add]
  exact UInt64.add_sub_cancel _ _

/-- What a step does to the connections of a user, and with them to the counter. -/
theorem onlineCounter_cases (he : OnlineEffect limits s a s') (u : Uuid) :
    (s'.counted u = s.counted u ∧ s'.restful.onlineCounter.get u = s.restful.onlineCounter.get u) ∨
    (a = .connect u ∧ s'.counted u = s.counted u + 1 ∧
      ∃ current, s.restful.onlineCounter.get u = some current ∧
        s'.restful.onlineCounter.get u = some (current + 1)) ∨
    (s'.counted u + 1 = s.counted u ∧
      ∃ current, s.restful.onlineCounter.get u = some current ∧
        s'.restful.onlineCounter.get u = some (current - 1)) := by
  cases he with
  | connected uuid current passed closes count limit =>
    have hcounted := counted_connected s uuid passed
      { s.restful with onlineCounter := s.restful.onlineCounter.insert uuid (current + 1), closes } u
    by_cases hu : u = uuid
    · subst hu
      rw [if_pos rfl] at hcounted
      exact .inr (.inl ⟨rfl, hcounted, current, count, Table.get_insert_self _ _ _⟩)
    · rw [if_neg (Ne.symm hu)] at hcounted
      exact .inl ⟨hcounted, Table.get_insert_ne _ _ hu⟩
  | registered conn uuid hc => exact .inl ⟨Pool.countP_modify_same hc (by simp [Phase.isCounted]), rfl⟩
  | disconnected conn uuid wasOnline current hc count =>
    have hcounted := counted_disconnected hc { s.restful with
      onlineCounter := s.restful.onlineCounter.insert uuid (current - 1) } u
    by_cases hu : u = uuid
    · subst hu
      rw [if_pos rfl] at hcounted
      exact .inr (.inr ⟨hcounted, current, count, Table.get_insert_self _ _ _⟩)
    · rw [if_neg (Ne.symm hu)] at hcounted
      exact .inl ⟨hcounted, Table.get_insert_ne _ _ hu⟩
  | unregistered conn uuid wasOnline hc =>
    have hkeep : (s.restful.unregister uuid conn).onlineCounter = s.restful.onlineCounter := by
      unfold Restful.unregister
      split <;> rfl
    exact .inl ⟨Pool.countP_modify_same hc (by cases wasOnline <;> simp [Phase.isCounted]),
      congrArg (Table.get · u) hkeep⟩
  | idle => exact .inl ⟨rfl, rfl⟩

theorem Online.Exact.step (he : OnlineEffect limits s a s') (h : s.Exact) : s'.Exact := by
  intro u c hget
  rcases onlineCounter_cases he u with ⟨hsame, hold⟩ | ⟨-, hmore, current, hold, hnew⟩ | ⟨hless, current, hold, hnew⟩
  · rw [hsame]
    exact h u c (hold ▸ hget)
  · obtain rfl := Option.some.inj (hnew.symm.trans hget)
    rw [hmore, h u current hold, UInt64.ofNat_add]
    rfl
  · obtain rfl := Option.some.inj (hnew.symm.trans hget)
    rw [h u current hold, ← hless]
    exact ofNat_succ_sub_one _

/-- A user without a counter has no connection. -/
theorem uncounted_step (he : OnlineEffect limits s a s')
    (h : s.restful.onlineCounter.get u = none → s.counted u = 0)
    (hnone : s'.restful.onlineCounter.get u = none) : s'.counted u = 0 := by
  rcases onlineCounter_cases he u with ⟨hsame, hold⟩ | ⟨-, -, current, -, hnew⟩ | ⟨-, current, -, hnew⟩
  · rw [hsame]
    exact h (hold ▸ hnone)
  · cases hnew.symm.trans hnone
  · cases hnew.symm.trans hnone

/-- Every connection within the limit is counted. -/
theorem within_le_counted (s : Online) (u : Uuid) : s.within u ≤ s.counted u := by
  apply List.countP_mono_left
  intro client _ hwithin
  obtain ⟨hu, hw⟩ := of_decide_eq_true hwithin
  refine decide_eq_true ⟨hu, ?_⟩
  cases hphase : client.phase <;> simp_all [Phase.isWithin, Phase.isCounted]

end

theorem effect_onlineAt (cfg : Config) (limits : RestfulConfig) {steps : List OnlineStep} {n : ℕ}
    {a : OnlineStep} (h : steps[n]? = some a) : OnlineEffect limits
      ((online cfg limits).stateAt steps n) a ((online cfg limits).stateAt steps (n + 1)) := by
  rw [(online cfg limits).stateAt_succ h]
  exact step_onlineEffect limits _ a

theorem counter_exact (cfg : Config) (limits : RestfulConfig) (steps : List OnlineStep) (n : ℕ) :
    ((online cfg limits).stateAt steps n).Exact := by
  refine ((online cfg limits).stateAt_reachable steps n).invariant (P := Online.Exact) ?_
    fun s a h => h.step (step_onlineEffect limits s a)
  intro u current hget
  cases huser : cfg.users.get u with
  | none => simp [online, Restful.start, huser] at hget
  | some password =>
    obtain rfl : 0 = current := by simpa [online, Restful.start, huser] using hget
    rfl

/-- A bound on the connections within the limit holds along a run if no connection
passes at it. -/
theorem within_run (cfg : Config) (limits : RestfulConfig) {steps : List OnlineStep} {u : Uuid} {bound : ℕ}
    (h : ∀ n current, steps[n]? = some (.connect u) →
      ((online cfg limits).stateAt steps n).restful.onlineCounter.get u = some current →
      ¬ limits.Reached current → ((online cfg limits).stateAt steps n).within u ≠ bound) :
    ∀ n ≤ steps.length, ((online cfg limits).stateAt steps n).within u ≤ bound := by
  intro n
  refine Machine.run_induction (P := fun n => ((online cfg limits).stateAt steps n).within u ≤ bound)
    (Nat.zero_le _) (fun n a _ ha hle => ?_) (Nat.zero_le n)
  rcases within_step (effect_onlineAt cfg limits ha) u with
    hkept | ⟨current, hconnect, hcount, hreach, hnext⟩
  · exact hkept.trans hle
  · rw [hnext]
    exact Nat.lt_of_le_of_ne hle (h n current (hconnect ▸ ha) hcount hreach)

/-- As long as the counter does not wrap, one connection more than the limit passes
at most. -/
theorem within_le_succ (cfg : Config) (limits : RestfulConfig) (hlimit : limits.maximumClientsPerUser ≠ 0)
    (steps : List OnlineStep) (u : Uuid)
    (hwrap : ∀ n, ((online cfg limits).stateAt steps n).counted u < 2 ^ 64) :
    ∀ n ≤ steps.length,
      ((online cfg limits).stateAt steps n).within u ≤ limits.maximumClientsPerUser.toNat + 1 := by
  refine within_run cfg limits fun n current _ hcount hreach hfull => ?_
  have hcurrent : current.toNat = ((online cfg limits).stateAt steps n).counted u := by
    rw [counter_exact cfg limits steps n u current hcount, UInt64.toNat_ofNat_of_lt' (hwrap n)]
  have hcounted := within_le_counted ((online cfg limits).stateAt steps n) u
  have hlow : ¬ limits.maximumClientsPerUser < current := fun hlt => hreach ⟨hlimit, hlt⟩
  rw [UInt64.lt_iff_toNat_lt, hcurrent] at hlow
  omega

section

variable {limits : RestfulConfig} {s s' : Online} {a : OnlineStep} {u : Uuid}

/-- No connection of the user has been rejected. -/
def Online.AllPass (s : Online) (u : Uuid) : Prop :=
  ∀ client ∈ s.clients, client.uuid = u → client.phase ≠ .rejected

/-- Then those that are connected are within the limit. -/
theorem Online.AllPass.counted_eq (h : s.AllPass u) : s.counted u = s.within u := by
  apply List.countP_congr
  intro client hclient
  simp only [decide_eq_true_eq, and_congr_right_iff]
  intro hu
  have hpass := h client hclient hu
  cases hphase : client.phase <;> simp_all [Phase.isWithin, Phase.isCounted]

theorem Online.AllPass.enter (h : s.AllPass u) {conn : QuicClient} {phase : Phase} (hphase : phase ≠ .rejected)
    (r : Restful) (first : Table Uuid QuicClient) :
    ({ s.enter conn phase with restful := r, first } : Online).AllPass u :=
  Pool.forall_mem_modify h fun _ _ _ => hphase

/-- A connection is rejected only by a counter above the limit. -/
theorem Online.AllPass.step (h : s.AllPass u) (he : OnlineEffect limits s a s')
    (hreach : ∀ current, a = .connect u → s.restful.onlineCounter.get u = some current →
      ¬ limits.Reached current) : s'.AllPass u := by
  cases he with
  | connected uuid current passed closes count limit =>
    intro client hclient hu
    rcases List.mem_append.1 hclient with hold | hnew
    · exact h client hold hu
    · obtain rfl := List.mem_singleton.1 hnew
      obtain rfl : uuid = u := hu
      rw [limit.2 (hreach current rfl count)]
      simp
  | registered conn uuid hc => exact h.enter (by simp) _ _
  | disconnected conn uuid wasOnline current hc count => exact h.enter (by simp) _ s.first
  | unregistered conn uuid wasOnline hc => exact h.enter (by simp) _ s.first
  | idle => exact h

end

theorem uncounted_at (cfg : Config) (limits : RestfulConfig) (steps : List OnlineStep) (n : ℕ) (u : Uuid) :
    ((online cfg limits).stateAt steps n).restful.onlineCounter.get u = none →
      ((online cfg limits).stateAt steps n).counted u = 0 :=
  ((online cfg limits).stateAt_reachable steps n).invariant
    (P := fun s => s.restful.onlineCounter.get u = none → s.counted u = 0) (fun _ => rfl)
    fun s a h hnone => uncounted_step (step_onlineEffect limits s a) h hnone

/-- What `client_connect` compares with the limit, as long as it does not wrap. -/
theorem counter_toNat (cfg : Config) (limits : RestfulConfig) (steps : List OnlineStep) {n : ℕ} {u : Uuid}
    {current : UInt64} (hcount : ((online cfg limits).stateAt steps n).restful.onlineCounter.get u = some current)
    (hle : ((online cfg limits).stateAt steps n).counted u ≤ limits.maximumClientsPerUser.toNat) :
    current.toNat = ((online cfg limits).stateAt steps n).counted u := by
  rw [counter_exact cfg limits steps n u current hcount]
  exact UInt64.toNat_ofNat_of_lt' (Nat.lt_of_le_of_lt hle (UInt64.toNat_lt_size _))

/-- As long as no more than the limit are within it, nobody is rejected. -/
theorem allPass_run (cfg : Config) (limits : RestfulConfig) {steps : List OnlineStep} {u : Uuid}
    (h : ∀ n ≤ steps.length,
      ((online cfg limits).stateAt steps n).within u ≤ limits.maximumClientsPerUser.toNat) :
    ∀ n ≤ steps.length, ((online cfg limits).stateAt steps n).AllPass u := by
  intro n
  refine Machine.run_induction (P := fun n => ((online cfg limits).stateAt steps n).AllPass u)
    (fun client hclient => by cases hclient) (fun n a _ ha hpass => ?_) (Nat.zero_le n)
  refine hpass.step (effect_onlineAt cfg limits ha) fun current _ hcount hreach => ?_
  have hle := h n (List.getElem?_eq_some_iff.1 ha).1.le
  rw [← hpass.counted_eq] at hle
  have hlow := UInt64.lt_iff_toNat_lt.1 hreach.2
  rw [counter_toNat cfg limits steps hcount hle] at hlow
  omega

/-- Along every run, at most the configured number of a user's connections are within
the limit exactly if fewer than that many have called `client_connect` and not
`client_disconnect` whenever one more calls `client_connect`. -/
theorem limit_iff (cfg : Config) (limits : RestfulConfig) (hlimit : limits.maximumClientsPerUser ≠ 0)
    (steps : List OnlineStep) (u : Uuid) :
    (∀ n ≤ steps.length,
      ((online cfg limits).stateAt steps n).within u ≤ limits.maximumClientsPerUser.toNat) ↔
    ∀ i, steps[i]? = some (.connect u) →
      ((online cfg limits).stateAt steps i).counted u < limits.maximumClientsPerUser.toNat := by
  have hpos : 0 < limits.maximumClientsPerUser.toNat := by
    rw [Nat.pos_iff_ne_zero, ne_eq, ← UInt64.toNat_zero, UInt64.toNat_inj]
    exact hlimit
  constructor
  · intro h i hi
    have hlt := (List.getElem?_eq_some_iff.1 hi).1
    cases hcount : ((online cfg limits).stateAt steps i).restful.onlineCounter.get u with
    | none =>
      rw [uncounted_at cfg limits steps i u hcount]
      exact hpos
    | some current =>
      have hle := h i hlt.le
      rw [← (allPass_run cfg limits h i hlt.le).counted_eq] at hle
      -- the connection passes, as the counter is the number of those before it
      have hreach : ¬ limits.Reached current := by
        intro hreach
        have hlow := UInt64.lt_iff_toNat_lt.1 hreach.2
        rw [counter_toNat cfg limits steps hcount hle] at hlow
        omega
      have hnext := within_connect (effect_onlineAt cfg limits hi) hcount hreach
      have hwithin := h (i + 1) hlt
      rw [hnext, ← (allPass_run cfg limits h i hlt.le).counted_eq] at hwithin
      exact hwithin
  · intro h n hn
    refine (within_le_counted _ u).trans ?_
    refine Machine.run_induction (k := 0)
      (P := fun n => ((online cfg limits).stateAt steps n).counted u ≤ limits.maximumClientsPerUser.toNat)
      (Nat.zero_le _) (fun i a _ ha hle => ?_) (Nat.zero_le n) hn
    rcases onlineCounter_cases (effect_onlineAt cfg limits ha) u with ⟨hsame, -⟩ | ⟨rfl, hmore, -⟩ | ⟨hless, -⟩
    · exact hsame.le.trans hle
    · rw [hmore]
      exact h i ha
    · omega

/-- A server whose limit is one client per user. -/
def single : Config := ⟨.insert .empty someone "", some ⟨"secret", 1⟩, 3000, 3000⟩

/-- The second client comes when the first one has gone. -/
def inTurn : List OnlineStep :=
  [.connect someone, .register 0, .disconnect 0, .unregister 0, .connect someone, .register 1]

theorem inTurn_within :
    ((online single ⟨"secret", 1⟩).stateAt inTurn 2).within someone = 1 ∧
      ((online single ⟨"secret", 1⟩).stateAt inTurn 6).within someone = 1 ∧
      ∀ n ≤ 6, ((online single ⟨"secret", 1⟩).stateAt inTurn n).within someone ≤ 1 := by
  refine ⟨by decide, by decide, (limit_iff single ⟨"secret", 1⟩ (by decide) inTurn someone).2 fun i hi => ?_⟩
  rcases i with _ | _ | _ | _ | _ | _ | i <;> first | (cases hi; done) | decide

/-- A second client finds one counted, and one is not above the limit. -/
theorem second_passes : ((online single ⟨"secret", 1⟩).stateAt
    [.connect someone, .register 0, .connect someone, .register 1] 4).within someone = 2 := by
  decide

end Tuic.Server
