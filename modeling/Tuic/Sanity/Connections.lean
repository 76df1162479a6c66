import Tuic.Lib.Keys
import Tuic.Lib.Pool
import Tuic.Spec.Connections

/-! The tables have the users of the configuration, and nobody but the nil user is
ever authenticated. -/

namespace Tuic.Server

open Lib Model

/-! ### The tables of the RESTful server -/

section

variable {cfg : Config} {r r' : Restful} {uuid : Uuid} {conn : QuicClient}

theorem clientConnect_counts {limits : RestfulConfig} {current : UInt64} (hcfg : cfg.restful = some limits)
    (conn : QuicClient) (hcount : r.onlineCounter.get uuid = some current) :
    ∃ r', r.clientConnect cfg uuid conn = .ok r' ∧
      r'.onlineCounter = r.onlineCounter.insert uuid (current + 1) ∧
      r'.trafficStats = r.trafficStats := by
  simp only [Restful.clientConnect, hcfg, Restful.countIn, Restful.fetchAdd, hcount, Outcome.ok_bind]
  split_ifs <;> exact ⟨_, rfl, rfl, rfl⟩

theorem clientConnect_ok (h : r.clientConnect cfg uuid conn = .ok r') :
    (cfg.restful = none ∧ r' = r) ∨ ∃ current, r.onlineCounter.get uuid = some current ∧
      r'.onlineCounter = r.onlineCounter.insert uuid (current + 1) ∧
      r'.trafficStats = r.trafficStats := by
  cases hcfg : cfg.restful with
  | none =>
    rw [Restful.clientConnect, hcfg] at h
    exact .inl ⟨rfl, (Outcome.ok.inj h).symm⟩
  | some limits =>
    cases hcount : r.onlineCounter.get uuid with
    | none => simp [Restful.clientConnect, hcfg, Restful.countIn, Restful.fetchAdd, hcount] at h
    | some current =>
      obtain ⟨r'', hr, hcounter, hstats⟩ := clientConnect_counts hcfg conn hcount
      obtain rfl := Outcome.ok.inj (hr.symm.trans h)
      exact .inr ⟨current, rfl, hcounter, hstats⟩

theorem clientConnect_total (cfg : Config) (conn : QuicClient) (h : uuid ∈ r.onlineCounter.keys) :
    ∃ r', r.clientConnect cfg uuid conn = .ok r' := by
  obtain ⟨current, hcount⟩ := Option.ne_none_iff_exists'.1 (Table.mem_keys.1 h)
  cases hcfg : cfg.restful with
  | none =>
    rw [Restful.clientConnect, hcfg]
    exact ⟨r, rfl⟩
  | some limits =>
    obtain ⟨r', hr, -⟩ := clientConnect_counts hcfg conn hcount
    exact ⟨r', hr⟩

theorem unregister_tables (r : Restful) (uuid : Uuid) (conn : QuicClient) :
    (r.unregister uuid conn).onlineCounter = r.onlineCounter ∧
      (r.unregister uuid conn).trafficStats = r.trafficStats := by
  unfold Restful.unregister
  split <;> exact ⟨rfl, rfl⟩

theorem clientDisconnect_counts {limits : RestfulConfig} {current : UInt64} (hcfg : cfg.restful = some limits)
    (conn : QuicClient) (hcount : r.onlineCounter.get uuid = some current) :
    ∃ r', r.clientDisconnect cfg uuid conn = .ok r' ∧
      r'.onlineCounter = r.onlineCounter.insert uuid (current - 1) ∧
      r'.trafficStats = r.trafficStats := by
  simp only [Restful.clientDisconnect, hcfg, Restful.fetchSub, hcount, Outcome.ok_bind]
  exact ⟨_, rfl, unregister_tables _ uuid conn⟩

theorem clientDisconnect_ok (h : r.clientDisconnect cfg uuid conn = .ok r') :
    (cfg.restful = none ∧ r' = r) ∨ ∃ current, r.onlineCounter.get uuid = some current ∧
      r'.onlineCounter = r.onlineCounter.insert uuid (current - 1) ∧
      r'.trafficStats = r.trafficStats := by
  cases hcfg : cfg.restful with
  | none =>
    rw [Restful.clientDisconnect, hcfg] at h
    exact .inl ⟨rfl, (Outcome.ok.inj h).symm⟩
  | some limits =>
    cases hcount : r.onlineCounter.get uuid with
    | none => simp [Restful.clientDisconnect, hcfg, Restful.fetchSub, hcount] at h
    | some current =>
      obtain ⟨r'', hr, hcounter, hstats⟩ := clientDisconnect_counts hcfg conn hcount
      obtain rfl := Outcome.ok.inj (hr.symm.trans h)
      exact .inr ⟨current, rfl, hcounter, hstats⟩

theorem clientDisconnect_total (cfg : Config) (conn : QuicClient) (h : uuid ∈ r.onlineCounter.keys) :
    ∃ r', r.clientDisconnect cfg uuid conn = .ok r' := by
  obtain ⟨current, hcount⟩ := Option.ne_none_iff_exists'.1 (Table.mem_keys.1 h)
  cases hcfg : cfg.restful with
  | none =>
    rw [Restful.clientDisconnect, hcfg]
    exact ⟨r, rfl⟩
  | some limits =>
    obtain ⟨r', hr, -⟩ := clientDisconnect_counts hcfg conn hcount
    exact ⟨r', hr⟩

theorem traffic_tables (cfg : Config) (uuid : Uuid) (r : Restful) (tx rx : UInt64) :
    ((r.trafficTx cfg uuid tx).trafficRx cfg uuid rx).onlineCounter = r.onlineCounter ∧
      ((r.trafficTx cfg uuid tx).trafficRx cfg uuid rx).trafficStats.keys = r.trafficStats.keys := by
  unfold Restful.trafficTx Restful.trafficRx
  cases cfg.restful with
  | none => exact ⟨rfl, rfl⟩
  | some limits =>
    cases hstats : r.trafficStats.get uuid with
    | none => simp [hstats]
    | some stats =>
      have hmem := Table.mem_keys_of_some hstats
      simp [Table.keys_insert, hmem]

theorem foldl_kickUser_tables (users : List Uuid) (r : Restful) :
    (users.foldl Restful.kickUser r).onlineCounter = r.onlineCounter ∧
      (users.foldl Restful.kickUser r).trafficStats = r.trafficStats := by
  induction users generalizing r with
  | nil => exact ⟨rfl, rfl⟩
  | cons user users ih =>
    have hkick : (r.kickUser user).onlineCounter = r.onlineCounter ∧
        (r.kickUser user).trafficStats = r.trafficStats := by
      unfold Restful.kickUser
      split <;> exact ⟨rfl, rfl⟩
    exact ⟨(ih _).1.trans hkick.1, (ih _).2.trans hkick.2⟩

theorem serve_tables (cfg : Config) (remoteAddress : QuicClient → SocketAddr) (r : Restful)
    (req : Request) : (r.serve cfg remoteAddress req).1.onlineCounter = r.onlineCounter ∧
      (r.serve cfg remoteAddress req).1.trafficStats.keys = r.trafficStats.keys := by
  cases req with
  | kick token users =>
    simp only [Restful.serve, Restful.kick]
    split_ifs
    · exact ⟨rfl, rfl⟩
    · obtain ⟨hcounter, hstats⟩ := foldl_kickUser_tables users r
      exact ⟨hcounter, congrArg Table.keys hstats⟩
  | resetTraffic token =>
    simp only [Restful.serve, Restful.resetTraffic]
    split_ifs
    · exact ⟨rfl, rfl⟩
    · exact ⟨rfl, Table.keys_mapValues _ _⟩
  | listOnline token => exact ⟨rfl, rfl⟩
  | listDetailedOnline token => exact ⟨rfl, rfl⟩
  | listTraffic token => exact ⟨rfl, rfl⟩

/-- Every user has a counter and traffic statistics, and nobody else has. -/
structure Restful.Covers (cfg : Config) (r : Restful) : Prop where
  counter : r.onlineCounter.keys = cfg.users.keys
  traffic : r.trafficStats.keys = cfg.users.keys

theorem start_covers (cfg : Config) : (Restful.start cfg).Covers cfg :=
  ⟨Table.keys_map _ _, Table.keys_map _ _⟩

theorem Restful.Covers.of_keys (h : r.Covers cfg) (hcounter : r'.onlineCounter.keys = r.onlineCounter.keys)
    (hstats : r'.trafficStats.keys = r.trafficStats.keys) : r'.Covers cfg :=
  ⟨hcounter.trans h.counter, hstats.trans h.traffic⟩

theorem Restful.Covers.clientConnect (h : r.Covers cfg) (hok : r.clientConnect cfg uuid conn = .ok r') :
    r'.Covers cfg := by
  rcases clientConnect_ok hok with ⟨-, rfl⟩ | ⟨current, hcount, hcounter, hstats⟩
  · exact h
  · refine h.of_keys ?_ (congrArg Table.keys hstats)
    rw [hcounter, Table.keys_insert_of_mem (Table.mem_keys_of_some hcount)]

theorem Restful.Covers.clientDisconnect (h : r.Covers cfg)
    (hok : r.clientDisconnect cfg uuid conn = .ok r') : r'.Covers cfg := by
  rcases clientDisconnect_ok hok with ⟨-, rfl⟩ | ⟨current, hcount, hcounter, hstats⟩
  · exact h
  · refine h.of_keys ?_ (congrArg Table.keys hstats)
    rw [hcounter, Table.keys_insert_of_mem (Table.mem_keys_of_some hcount)]

end

/-! ### Who is authenticated -/

/-- The nil user is authenticated on every connection, and nobody is about to be. -/
def Connection.NilAuth (conn : Connection) : Prop := conn.auth.get = some nilUuid ∧ conn.setting = []

/-- What holds in every state of a server. -/
structure Connections.Initial (ctx : Context) (s : Connections) : Prop where
  covers : s.restful.Covers ctx.cfg
  nilAuth : ∀ (c : QuicClient) conn, s.conns[c]? = some conn → conn.NilAuth

section

variable {ctx : Context} {s s' : Connections}

/-- An entry after one connection was replaced. -/
theorem put_eq_some {c k : QuicClient} {conn v : Connection} (h : (s.put c conn).conns[k]? = some v) :
    (c = k ∧ v = conn) ∨ s.conns[k]? = some v := by
  rw [Connections.put, List.getElem?_set] at h
  split_ifs at h with hck hlt
  · exact .inl ⟨hck, (Option.some.inj h).symm⟩
  · exact .inr h

theorem Connections.Initial.put (h : s.Initial ctx) {c : QuicClient} {conn : Connection}
    (hconn : conn.NilAuth) {r : Restful} (hr : r.Covers ctx.cfg) :
    ({ s.put c conn with restful := r } : Connections).Initial ctx := by
  refine ⟨hr, fun k v hv => ?_⟩
  rcases put_eq_some hv with ⟨-, rfl⟩ | hold
  · exact hconn
  · exact h.nilAuth k v hold

/-- Every `authenticate` is a second one. -/
theorem authenticate_nilAuth {conn : Connection} (h : conn.NilAuth) (cfg : Config)
    (exporter : KeyingMaterialExporter) (auth : Authenticate) :
    conn.authenticate cfg exporter auth = .error .duplicatedAuth := by
  simp [Connection.authenticate, h.1]

theorem Connections.Initial.timeoutAuthenticate (h : s.Initial ctx) {c : QuicClient} {conn : Connection}
    (hc : conn.NilAuth) : (s.timeoutAuthenticate ctx c conn).1.Initial ctx := by
  simp only [Connections.timeoutAuthenticate, hc.1]
  cases hconnect : s.restful.clientConnect ctx.cfg nilUuid c with
  | ok r =>
    apply h.put _ (h.covers.clientConnect hconnect)
    exact hc
  | err e => cases e
  | panic p =>
    apply h.put _ h.covers
    exact hc

theorem Connections.Initial.collectGarbage (h : s.Initial ctx) {c : QuicClient} {conn : Connection}
    (hc : conn.NilAuth) : (s.collectGarbage ctx c conn).1.Initial ctx := by
  simp only [Connections.collectGarbage, hc.1]
  split
  · cases hdisconnect : s.restful.clientDisconnect ctx.cfg nilUuid c with
    | ok r =>
      apply h.put _ (h.covers.clientDisconnect hdisconnect)
      exact hc
    | err e => cases e
    | panic p =>
      apply h.put _ h.covers
      exact hc
  · apply h.put _ h.covers
    exact hc

/-- What holds of the step of each connection holds of the step. -/
theorem on_induction {c : QuicClient} {f : Connection → Connections × Outcome Error Unit}
    {P : Connections × Outcome Error Unit → Prop} (idle : P (s, .ok ()))
    (step : ∀ conn, s.conns[c]? = some conn → P (f conn)) : P (s.on c f) := by
  unfold Connections.on
  cases hc : s.conns[c]? with
  | none => exact idle
  | some conn => exact step conn hc

theorem Connections.Initial.step (h : s.Initial ctx) (a : ConnectionStep) : (s.step ctx a).1.Initial ctx := by
  cases a with
  | accept =>
    refine ⟨h.covers, fun k v hv => ?_⟩
    rcases Pool.concat_eq_some.1 hv with hold | ⟨-, rfl⟩
    · exact h.nilAuth k v hold
    · exact ⟨rfl, rfl⟩
  | elapse d => exact ⟨h.covers, h.nilAuth⟩
  | hangUp c =>
    refine on_induction (P := fun o => o.1.Initial ctx) h fun conn hc => ?_
    apply h.put _ h.covers
    exact h.nilAuth c conn hc
  | authenticate c auth =>
    refine on_induction (P := fun o => o.1.Initial ctx) h fun conn hc => ?_
    have hnil := h.nilAuth c conn hc
    simp only [Connections.authenticate, authenticate_nilAuth hnil]
    apply h.put _ h.covers
    exact hnil
  | set c =>
    refine on_induction (P := fun o => o.1.Initial ctx) h fun conn hc => ?_
    rw [Connections.setAuthenticated, (h.nilAuth c conn hc).2]
    exact h
  | timeoutAuthenticate c =>
    refine on_induction (P := fun o => o.1.Initial ctx) h fun conn hc => ?_
    split
    · exact h.timeoutAuthenticate (h.nilAuth c conn hc)
    · exact h
  | collectGarbage c =>
    refine on_induction (P := fun o => o.1.Initial ctx) h fun conn hc => ?_
    split
    · exact h.collectGarbage (h.nilAuth c conn hc)
    · exact h
  | request req =>
    obtain ⟨hcounter, hstats⟩ := serve_tables ctx.cfg ctx.remoteAddress s.restful req
    exact ⟨h.covers.of_keys (congrArg Table.keys hcounter) hstats, h.nilAuth⟩
  | relay c tx rx =>
    refine on_induction (P := fun o => o.1.Initial ctx) h fun conn hc => ?_
    rw [Connections.relay, (h.nilAuth c conn hc).1]
    obtain ⟨hcounter, hstats⟩ := traffic_tables ctx.cfg nilUuid s.restful tx rx
    exact ⟨h.covers.of_keys (congrArg Table.keys hcounter) hstats, h.nilAuth⟩

/-- Only an `accept` adds a connection, and none is forgotten. -/
theorem step_length {a : ConnectionStep} (ha : a ≠ .accept) :
    (s.step ctx a).1.conns.length = s.conns.length := by
  have hput : ∀ c conn, (s.put c conn).conns.length = s.conns.length := fun _ _ => List.length_set ..
  have hon : ∀ c f, (∀ conn, s.conns[c]? = some conn → (f conn).1.conns.length = s.conns.length) →
      (s.on c f).1.conns.length = s.conns.length := fun c f h =>
    on_induction (P := fun o => o.1.conns.length = s.conns.length) rfl h
  cases a with
  | accept => exact absurd rfl ha
  | elapse d => rfl
  | request req => rfl
  | hangUp c => exact hon c _ fun conn _ => hput c _
  | authenticate c auth =>
    refine hon c _ fun conn _ => ?_
    unfold Connections.authenticate
    split <;> exact hput c _
  | set c =>
    refine hon c _ fun conn _ => ?_
    unfold Connections.setAuthenticated
    split
    · exact hput c _
    · rfl
  | timeoutAuthenticate c =>
    refine hon c _ fun conn _ => ?_
    unfold Connections.timeoutAuthenticate
    split
    · split
      · split
        · exact hput c _
        · rename_i e _
          cases e
        · exact hput c _
      · exact hput c _
    · rfl
  | collectGarbage c =>
    refine hon c _ fun conn _ => ?_
    unfold Connections.collectGarbage
    split
    · split
      · split
        · split
          · exact hput c _
          · rename_i e _
            cases e
          · exact hput c _
        · exact hput c _
      · exact hput c _
    · rfl
  | relay c tx rx =>
    refine hon c _ fun conn _ => ?_
    unfold Connections.relay
    split <;> rfl

theorem length_le_step (ctx : Context) (s : Connections) (a : ConnectionStep) :
    s.conns.length ≤ (s.step ctx a).1.conns.length := by
  cases a with
  | accept => simp [Connections.step]
  | _ => exact (step_length (by simp)).ge

end

theorem connections_initial (ctx : Context) (steps : List ConnectionStep) (n : ℕ) :
    ((connections ctx).stateAt steps n).Initial ctx := by
  refine ((connections ctx).stateAt_reachable steps n).invariant (P := Connections.Initial ctx) ?_
    fun s a h => h.step a
  exact ⟨start_covers ctx.cfg, fun _ _ hc => (nomatch hc)⟩

/-- The server of the examples: its exporter and its addresses are constant. -/
def served (cfg : Config) : Context where
  cfg := cfg
  exporter := fun _ _ _ => Vector.replicate 32 0
  remoteAddress := fun _ => .v4 ⟨127, 0, 0, 1⟩ 53

end Tuic.Server
