import Tuic.Sanity.Connections

/-! When the online counter is exact. Two timers of a connection count it and take it
off, and neither waits for the other. -/

namespace Tuic.Server

open Lib Model

section

variable {ctx : Context} {s s' : Connections}

/-- The connection that `client_connect` leaves behind. -/
def Connection.connect (conn : Connection) : Connection :=
  { conn with authenticateAt := none, connected := some nilUuid }

/-- The connection that `client_disconnect` leaves behind. -/
def Connection.disconnect (conn : Connection) : Connection :=
  { conn with collectAt := none, disconnected := some nilUuid }

/-- What a step does to the counters and to what the timers have done, on a server
whose connections are of the nil user. -/
inductive CountEffect (ctx : Context) (s : Connections) : ConnectionStep → Connections → Prop
  | accepted : CountEffect ctx s .accept { s with conns := s.conns ++ [.new ctx.cfg s.clock] }
  | connected (c : QuicClient) (conn : Connection) (current : UInt64) (r : Restful)
      (entry : s.conns[c]? = some conn) (timer : conn.authenticateAt ≠ none)
      (count : s.restful.onlineCounter.get nilUuid = some current)
      (counter : r.onlineCounter = s.restful.onlineCounter.insert nilUuid (current + 1)) :
      CountEffect ctx s (.timeoutAuthenticate c)
        { s.put c conn.connect with restful := r }
  | disconnected (c : QuicClient) (conn : Connection) (current : UInt64) (r : Restful)
      (entry : s.conns[c]? = some conn) (timer : conn.collectAt ≠ none)
      (due : s.due conn.collectAt = true) (closed : s.isClosed c conn = true)
      (count : s.restful.onlineCounter.get nilUuid = some current)
      (counter : r.onlineCounter = s.restful.onlineCounter.insert nilUuid (current - 1)) :
      CountEffect ctx s (.collectGarbage c)
        { s.put c conn.disconnect with restful := r }
  | touched (a : ConnectionStep) (c : QuicClient) (conn : Connection) (closed : Bool)
      (collectAt : Option Instant) (entry : s.conns[c]? = some conn)
      (later : ∀ t', collectAt = some t' → ∃ t ≤ t', conn.collectAt = some t) :
      CountEffect ctx s a (s.put c { conn with closed, collectAt })
  | uncounted (a : ConnectionStep) (clock : Instant) (r : Restful)
      (counter : r.onlineCounter = s.restful.onlineCounter) :
      CountEffect ctx s a { s with clock, restful := r }

theorem due_ne_none {deadline : Option Instant} (h : s.due deadline = true) : deadline ≠ none := by
  rintro rfl
  cases h

theorem step_countEffect {limits : RestfulConfig} (hcfg : ctx.cfg.restful = some limits)
    (h : s.Initial ctx)
    (hnil : ∀ (c : QuicClient) conn, s.conns[c]? = some conn → nilUuid ∈ ctx.cfg.users.keys)
    (a : ConnectionStep) : CountEffect ctx s a (s.step ctx a).1 := by
  have hidle : CountEffect ctx s a s := .uncounted a s.clock s.restful rfl
  have hon : ∀ c f, (∀ conn, s.conns[c]? = some conn → CountEffect ctx s a (f conn).1) →
      CountEffect ctx s a (s.on c f).1 := fun c f hf =>
    on_induction (P := fun o => CountEffect ctx s a o.1) hidle hf
  have hsame : ∀ {deadline : Option Instant}, ∀ t', deadline = some t' → ∃ t ≤ t', deadline = some t :=
    fun t' ht => ⟨t', le_refl _, ht⟩
  have hcounted : ∀ (c : QuicClient) conn, s.conns[c]? = some conn →
      ∃ current, s.restful.onlineCounter.get nilUuid = some current := fun c conn hc =>
    Option.ne_none_iff_exists'.1 (Table.mem_keys.1 (h.covers.counter ▸ hnil c conn hc))
  cases a with
  | accept => exact .accepted
  | elapse d => exact .uncounted _ _ _ rfl
  | request req => exact .uncounted _ _ _ (serve_tables ctx.cfg ctx.remoteAddress s.restful req).1
  | hangUp c => exact hon c _ fun conn hc => .touched _ c conn true conn.collectAt hc hsame
  | authenticate c auth =>
    refine hon c _ fun conn hc => ?_
    simp only [Connections.authenticate, authenticate_nilAuth (h.nilAuth c conn hc)]
    exact .touched _ c conn true conn.collectAt hc hsame
  | set c =>
    refine hon c _ fun conn hc => ?_
    rw [Connections.setAuthenticated, (h.nilAuth c conn hc).2]
    exact hidle
  | relay c tx rx =>
    refine hon c _ fun conn hc => ?_
    rw [Connections.relay, (h.nilAuth c conn hc).1]
    exact .uncounted _ _ _ (traffic_tables ctx.cfg nilUuid s.restful tx rx).1
  | timeoutAuthenticate c =>
    refine hon c _ fun conn hc => ?_
    split_ifs with hdue
    · obtain ⟨current, hcount⟩ := hcounted c conn hc
      obtain ⟨r, hr, hcounter, -⟩ := clientConnect_counts hcfg c hcount
      simp only [Connections.timeoutAuthenticate, (h.nilAuth c conn hc).1, hr]
      exact .connected c conn current r hc (due_ne_none hdue) hcount hcounter
    · exact hidle
  | collectGarbage c =>
    refine hon c _ fun conn hc => ?_
    split_ifs with hdue
    · unfold Connections.collectGarbage
      split_ifs with hclosed
      · obtain ⟨current, hcount⟩ := hcounted c conn hc
        obtain ⟨r, hr, hcounter, -⟩ := clientDisconnect_counts hcfg c hcount
        simp only [(h.nilAuth c conn hc).1, hr]
        exact .disconnected c conn current r hc (due_ne_none hdue) hdue hclosed hcount hcounter
      · refine .touched _ c conn conn.closed _ hc fun t' ht' => ?_
        obtain rfl := Option.some.inj ht'
        obtain ⟨t, ht⟩ := Option.ne_none_iff_exists'.1 (due_ne_none hdue)
        have hle : t ≤ s.clock := by simpa [Connections.due, ht] using hdue
        exact ⟨t, hle.trans (Nat.le_add_right _ _), ht⟩
    · exact hidle

/-! ### What the timers have done -/

/-- A connection is counted once its first timer has fired, and taken off once its
second has ended. The two are set together. -/
structure Connection.Timed (cfg : Config) (conn : Connection) : Prop where
  waits : conn.authenticateAt ≠ none → conn.connected = none
  counted : conn.authenticateAt = none → conn.connected = some nilUuid
  collects : conn.collectAt ≠ none → conn.disconnected = none
  apart : ∀ t t', conn.authenticateAt = some t → conn.collectAt = some t' →
    t + cfg.gcInterval ≤ t' + cfg.authTimeout

def Connections.Timed (cfg : Config) (s : Connections) : Prop :=
  ∀ (c : QuicClient) conn, s.conns[c]? = some conn → conn.Timed cfg

theorem Connections.Timed.put {cfg : Config} (h : s.Timed cfg) {c : QuicClient} {conn : Connection}
    (hconn : conn.Timed cfg) : (s.put c conn).Timed cfg := by
  intro k v hv
  rcases put_eq_some hv with ⟨-, rfl⟩ | hold
  · exact hconn
  · exact h k v hold

theorem Connections.Timed.step {a : ConnectionStep} (he : CountEffect ctx s a s') (h : s.Timed ctx.cfg) :
    s'.Timed ctx.cfg := by
  cases he with
  | accepted =>
    intro k v hv
    rcases Pool.concat_eq_some.1 hv with hold | ⟨-, rfl⟩
    · exact h k v hold
    · refine ⟨fun _ => rfl, nofun, fun _ => rfl, fun t t' ht ht' => ?_⟩
      obtain rfl := Option.some.inj ht
      obtain rfl := Option.some.inj ht'
      exact (Nat.add_right_comm _ _ _).le
  | connected c conn current r hc timer count counter =>
    apply Connections.Timed.put h
    exact ⟨fun hne => absurd rfl hne, fun _ => rfl, (h c conn hc).collects, nofun⟩
  | disconnected c conn current r hc timer due closed count counter =>
    apply Connections.Timed.put h
    exact ⟨(h c conn hc).waits, (h c conn hc).counted, fun hne => absurd rfl hne, fun _ _ _ => nofun⟩
  | touched _ c conn closed collectAt hc later =>
    apply Connections.Timed.put h
    refine ⟨(h c conn hc).waits, (h c conn hc).counted, fun hne => (h c conn hc).collects ?_,
      fun t t' ht ht' => ?_⟩
    · obtain ⟨t', ht'⟩ := Option.ne_none_iff_exists'.1 hne
      obtain ⟨t, -, hold⟩ := later t' ht'
      simp [hold]
    · obtain ⟨old, hle, hold⟩ := later t' ht'
      exact ((h c conn hc).apart t old ht hold).trans (Nat.add_le_add_right hle _)
  | uncounted => exact h

/-! ### The counter -/

/-- The connection is one of those that `onlineOf` counts. -/
def Connection.counts (conn : Connection) (uuid : Uuid) : Bool :=
  conn.connected = some uuid ∧ conn.disconnected = none

theorem onlineOf_put {c : QuicClient} {old : Connection} (hc : s.conns[c]? = some old)
    (conn : Connection) (uuid : Uuid) :
    (s.put c conn).onlineOf uuid + (if old.counts uuid then 1 else 0) =
      s.onlineOf uuid + if conn.counts uuid then 1 else 0 := by
  have := Pool.countP_modify (p := (Connection.counts · uuid)) hc fun _ => conn
  rw [← List.set_eq_modify] at this
  exact this

theorem onlineOf_connect {c : QuicClient} {conn : Connection} (hc : s.conns[c]? = some conn)
    (hconnected : conn.connected = none) (hdisconnected : conn.disconnected = none) (uuid : Uuid) :
    (s.put c conn.connect).onlineOf uuid = s.onlineOf uuid + if nilUuid = uuid then 1 else 0 := by
  have hput := onlineOf_put hc conn.connect uuid
  have hold : conn.counts uuid = false := by simp [Connection.counts, hconnected]
  have hnew : conn.connect.counts uuid = decide (nilUuid = uuid) := by
    simp [Connection.counts, Connection.connect, hdisconnected]
  simpa [hold, hnew] using hput

theorem onlineOf_disconnect {c : QuicClient} {conn : Connection} (hc : s.conns[c]? = some conn)
    (hconnected : conn.connected = some nilUuid) (hdisconnected : conn.disconnected = none) (uuid : Uuid) :
    (s.put c conn.disconnect).onlineOf uuid + (if nilUuid = uuid then 1 else 0) = s.onlineOf uuid := by
  have hput := onlineOf_put hc conn.disconnect uuid
  have hold : conn.counts uuid = decide (nilUuid = uuid) := by
    simp [Connection.counts, hconnected, hdisconnected]
  have hnew : conn.disconnect.counts uuid = false := by simp [Connection.counts, Connection.disconnect]
  simpa [hold, hnew] using hput

theorem onlineOf_touch {c : QuicClient} {conn : Connection} (hc : s.conns[c]? = some conn)
    (closed : Bool) (collectAt : Option Instant) (uuid : Uuid) :
    (s.put c { conn with closed, collectAt }).onlineOf uuid = s.onlineOf uuid := by
  have hput := onlineOf_put hc { conn with closed, collectAt } uuid
  exact Nat.add_right_cancel hput

theorem onlineOf_accept (conn : Connection) (h : conn.connected = none) (uuid : Uuid) :
    ({ s with conns := s.conns ++ [conn] } : Connections).onlineOf uuid = s.onlineOf uuid := by
  simp [Connections.onlineOf, h]

theorem onlineOf_step {a : ConnectionStep} (he : CountEffect ctx s a s') (uuid : Uuid) :
    s'.onlineOf uuid ≤ s.onlineOf uuid + 1 := by
  have hone : ∀ p : Bool, (if p then 1 else 0) ≤ 1 := fun p => by cases p <;> decide
  cases he with
  | accepted => exact (onlineOf_accept _ rfl uuid).le.trans (Nat.le_succ _)
  | connected c conn current r hc timer count counter =>
    exact (Nat.le_add_right _ _).trans ((onlineOf_put hc conn.connect uuid).le.trans
      (Nat.add_le_add_left (hone _) _))
  | disconnected c conn current r hc timer due closed count counter =>
    exact (Nat.le_add_right _ _).trans ((onlineOf_put hc conn.disconnect uuid).le.trans
      (Nat.add_le_add_left (hone _) _))
  | touched _ c conn closed collectAt hc later =>
    exact (onlineOf_touch hc closed collectAt uuid).le.trans (Nat.le_succ _)
  | uncounted => exact Nat.le_succ _

def Connections.Exact (s : Connections) : Prop :=
  ∀ uuid count, s.restful.onlineCounter.get uuid = some count → count.toNat = s.onlineOf uuid

def Connections.Ordered (s : Connections) : Prop :=
  ∀ (c : QuicClient) conn, s.conns[c]? = some conn → conn.disconnected ≠ none → conn.connected ≠ none

theorem Connections.Ordered.put (h : s.Ordered) {c : QuicClient} {conn : Connection}
    (hconn : conn.disconnected ≠ none → conn.connected ≠ none) : (s.put c conn).Ordered := by
  intro k v hv
  rcases put_eq_some hv with ⟨-, rfl⟩ | hold
  · exact hconn
  · exact h k v hold

/-- A connection that is taken off after it was counted keeps the counter exact. -/
theorem Connections.Exact.step {a : ConnectionStep} (he : CountEffect ctx s a s') (ht : s.Timed ctx.cfg)
    (hlate : ∀ c, a = .collectGarbage c → ∀ conn, s.conns[c]? = some conn →
      s.due conn.collectAt = true → s.isClosed c conn = true → conn.authenticateAt = none)
    (hfits : nilUuid ∈ s.restful.onlineCounter.keys → s'.onlineOf nilUuid < 2 ^ 64) (h : s.Exact) (ho : s.Ordered) :
    s'.Exact ∧ s'.Ordered := by
  cases he with
  | accepted =>
    refine ⟨fun uuid count hget => (h uuid count hget).trans (onlineOf_accept _ rfl uuid).symm,
      fun k v hv => ?_⟩
    rcases Pool.concat_eq_some.1 hv with hold | ⟨-, rfl⟩
    · exact ho k v hold
    · exact fun hne => absurd rfl hne
  | connected c conn current r hc timer count counter =>
    have hconnected := (ht c conn hc).waits timer
    have hdisconnected : conn.disconnected = none := by
      by_contra hne
      exact ho c conn hc hne hconnected
    have hput := onlineOf_connect hc hconnected hdisconnected
    refine ⟨fun uuid new hget => ?_, ho.put fun _ => Option.some_ne_none _⟩
    replace hget : r.onlineCounter.get uuid = some new := hget
    refine Eq.trans ?_ (hput uuid).symm
    by_cases hu : uuid = nilUuid
    · subst hu
      have hroom : (s.put c conn.connect).onlineOf nilUuid < 2 ^ 64 :=
        hfits (Table.mem_keys_of_some count)
      rw [counter, Table.get_insert_self] at hget
      rw [hput, if_pos rfl, ← h nilUuid current count] at hroom
      rw [if_pos rfl, ← h nilUuid current count, ← Option.some.inj hget]
      exact (UInt64.toNat_add _ _).trans (Nat.mod_eq_of_lt hroom)
    · rw [counter, Table.get_insert_ne _ _ hu] at hget
      rw [if_neg (Ne.symm hu)]
      exact h uuid new hget
  | disconnected c conn current r hc timer due closed count counter =>
    have hconnected := (ht c conn hc).counted (hlate c rfl conn hc due closed)
    have hput := onlineOf_disconnect hc hconnected ((ht c conn hc).collects timer)
    refine ⟨fun uuid new hget => ?_, ho.put fun _ hnone => ?_⟩
    · replace hget : r.onlineCounter.get uuid = some new := hget
      refine Nat.add_right_cancel (Eq.trans ?_ (hput uuid).symm)
      by_cases hu : uuid = nilUuid
      · subst hu
        rw [counter, Table.get_insert_self] at hget
        have hexact := h nilUuid current count
        have hpos : (1 : UInt64) ≤ current := by
          rw [UInt64.le_iff_toNat_le, hexact, ← hput nilUuid, if_pos rfl]
          exact Nat.le_add_left _ _
        rw [if_pos rfl, ← hexact, ← Option.some.inj hget, UInt64.toNat_sub_of_le _ _ hpos]
        exact Nat.sub_add_cancel (UInt64.le_iff_toNat_le.1 hpos)
      · rw [counter, Table.get_insert_ne _ _ hu] at hget
        rw [if_neg (Ne.symm hu)]
        exact h uuid new hget
    · exact absurd (hconnected.symm.trans hnone) (Option.some_ne_none _)
  | touched _ c conn closed collectAt hc later =>
    refine ⟨fun uuid new hget => ?_, ho.put (ho c conn hc)⟩
    exact (h uuid new hget).trans (onlineOf_touch hc closed collectAt uuid).symm
  | uncounted _ clock r counter =>
    exact ⟨fun uuid count hget => h uuid count (counter ▸ hget), ho⟩

/-- A round that finds its connection closed takes it off. -/
theorem collectGarbage_disconnects (h : s.Initial ctx) {c : QuicClient} {conn : Connection}
    (hc : s.conns[c]? = some conn) (hnil : nilUuid ∈ ctx.cfg.users.keys)
    (hdue : s.due conn.collectAt = true) (hclosed : s.isClosed c conn = true) :
    (s.step ctx (.collectGarbage c)).1.conns[c]? = some conn.disconnect := by
  obtain ⟨r, hr⟩ := clientDisconnect_total ctx.cfg c (h.covers.counter ▸ hnil)
  have hlt := Pool.lt_of_eq_some hc
  simp only [Connections.step, Connections.on, hc, hdue, if_true, Connections.collectGarbage, hclosed,
    (h.nilAuth c conn hc).1, hr, Connections.put]
  exact List.getElem?_set_self hlt

end

section

variable {ctx : Context} {limits : RestfulConfig} {steps : List ConnectionStep}

/-- Where there is a connection, the nil user is in the table. -/
theorem UsersPresent.nil (husers : UsersPresent ctx steps) {n : ℕ} (hn : n ≤ steps.length)
    (c : QuicClient) (conn : Connection)
    (hc : ((connections ctx).stateAt steps n).conns[c]? = some conn) :
    nilUuid ∈ ctx.cfg.users.keys :=
  husers n hn c conn nilUuid hc ((connections_initial ctx steps n).nilAuth c conn hc).1

theorem countEffectAt (hcfg : ctx.cfg.restful = some limits) (husers : UsersPresent ctx steps) {n : ℕ}
    {a : ConnectionStep} (ha : steps[n]? = some a) :
    CountEffect ctx ((connections ctx).stateAt steps n) a ((connections ctx).stateAt steps (n + 1)) := by
  rw [(connections ctx).stateAt_succ ha]
  exact step_countEffect hcfg (connections_initial ctx steps n)
    (husers.nil (List.getElem?_eq_some_iff.1 ha).1.le) a

theorem connections_timed (hcfg : ctx.cfg.restful = some limits) (husers : UsersPresent ctx steps) :
    ∀ n ≤ steps.length, ((connections ctx).stateAt steps n).Timed ctx.cfg := by
  refine Machine.run_invariant steps (P := fun _ s => Connections.Timed ctx.cfg s)
    (fun _ _ hc => nomatch hc) fun i a ha h => ?_
  rw [← (connections ctx).stateAt_succ ha]
  exact h.step (countEffectAt hcfg husers ha)

theorem CollectsLate.exact (h : CollectsLate ctx steps) (hcfg : ctx.cfg.restful = some limits)
    (husers : UsersPresent ctx steps) : ∀ n ≤ steps.length,
      ((connections ctx).stateAt steps n).Exact ∧ ((connections ctx).stateAt steps n).Ordered := by
  refine Machine.run_invariant steps (P := fun _ s => Connections.Exact s ∧ Connections.Ordered s)
    ⟨?_, fun _ _ hc => nomatch hc⟩ fun i a ha hs => ?_
  · intro uuid count hget
    cases huser : ctx.cfg.users.get uuid with
    | none => simp [connections, Restful.start, huser] at hget
    | some password =>
      obtain rfl : 0 = count := by simpa [connections, Restful.start, huser] using hget
      rfl
  · have hlt := (List.getElem?_eq_some_iff.1 ha).1
    rw [← (connections ctx).stateAt_succ ha]
    exact hs.1.step (countEffectAt hcfg husers ha) (connections_timed hcfg husers i hlt.le)
      (fun c hcollect conn hc => h.collects i c conn (hcollect ▸ ha) hc) (fun hnil => h.fits (i + 1) hlt nilUuid
        (Table.mem_keys.1 ((connections_initial ctx steps i).covers.counter ▸ hnil))) hs.2

theorem CollectsLate.counts (h : CollectsLate ctx steps) (hcfg : ctx.cfg.restful = some limits)
    (husers : UsersPresent ctx steps) : CountsExactly ctx steps := by
  have hexact := h.exact hcfg husers
  refine ⟨fun n hn => (hexact n hn).1, fun n hn uuid hzero hwrap => ?_, fun n hn => (hexact n hn).2⟩
  have hbefore := (hexact n hn.le).1 uuid 0 hzero
  have hafter := (hexact (n + 1) hn).1 uuid _ hwrap
  have hstep := onlineOf_step (countEffectAt hcfg husers (List.getElem?_eq_getElem hn)) uuid
  rw [← hbefore, ← hafter] at hstep
  exact absurd hstep (by decide)

/-- No round of `collect_garbage` overtakes a `timeout_authenticate` of its connection
that was to wake before. -/
def InOrder (ctx : Context) (steps : List ConnectionStep) : Prop :=
  ∀ n (c : QuicClient) conn t t', steps[n]? = some (.collectGarbage c) →
    ((connections ctx).stateAt steps n).conns[c]? = some conn → conn.authenticateAt = some t →
    conn.collectAt = some t' → t' ≤ t

/-- With timers in order, a `gc_interval` above `auth_timeout` is enough. -/
theorem countsExactly_of_inOrder (hcfg : ctx.cfg.restful = some limits) (husers : UsersPresent ctx steps)
    (hlonger : ctx.cfg.authTimeout < ctx.cfg.gcInterval) (horder : InOrder ctx steps)
    (hfits : ∀ n ≤ steps.length, ∀ uuid, ctx.cfg.users.get uuid ≠ none →
      ((connections ctx).stateAt steps n).onlineOf uuid < 2 ^ 64) : CountsExactly ctx steps := by
  refine CollectsLate.counts ⟨fun n c conn ha hc hdue _ => ?_, hfits⟩ hcfg husers
  have htimed := connections_timed hcfg husers n (List.getElem?_eq_some_iff.1 ha).1.le c conn hc
  obtain ⟨t', ht'⟩ := Option.ne_none_iff_exists'.1 (due_ne_none hdue)
  cases ht : conn.authenticateAt with
  | none => rfl
  | some t =>
    have hle := horder n c conn t t' ha hc ht ht'
    have hmore := (htimed.apart t t' ht ht').trans (Nat.add_le_add_right hle _)
    exact absurd (Nat.le_of_add_le_add_left hmore) (Nat.not_le.2 hlonger)

/-- With a RESTful server and the users of all connections in the table, the counters
are exact along a run exactly if every connection is taken off after it was counted. -/
theorem countsExactly_iff (hcfg : ctx.cfg.restful = some limits) (husers : UsersPresent ctx steps) :
    CountsExactly ctx steps ↔ CollectsLate ctx steps := by
  have hinitial := connections_initial ctx steps
  constructor
  · intro h
    refine ⟨fun n c conn ha hc hdue hclosed => ?_, fun n hn uuid huser => ?_⟩
    · have hlt := (List.getElem?_eq_some_iff.1 ha).1
      by_contra hpending
      have hgone := collectGarbage_disconnects (hinitial n) hc (husers.nil hlt.le c conn hc) hdue hclosed
      have hstep := congrArg Connections.conns ((connections ctx).stateAt_succ ha)
      exact h.ordered (n + 1) hlt c _ ((congrArg (·[c]?) hstep).trans hgone) (Option.some_ne_none _)
        ((connections_timed hcfg husers n hlt.le c conn hc).waits hpending)
    · have hcounter := (hinitial n).covers.counter.symm ▸ Table.mem_keys.2 huser
      obtain ⟨count, hcount⟩ := Option.ne_none_iff_exists'.1 (Table.mem_keys.1 hcounter)
      rw [← h.exact n hn uuid count hcount]
      exact count.toNat_lt
  · exact fun h => h.counts hcfg husers

end

/-- A server whose nil user is in the table, with the two intervals given. -/
def withNil (authTimeout gcInterval : Duration) : Context :=
  served ⟨.insert .empty nilUuid "", some ⟨"secret", 0⟩, authTimeout, gcInterval⟩

theorem withNil_users (authTimeout gcInterval : Duration) (steps : List ConnectionStep) :
    UsersPresent (withNil authTimeout gcInterval) steps := by
  intro n hn c conn uuid hc hget
  obtain rfl : nilUuid = uuid :=
    Option.some.inj (((connections_initial _ steps n).nilAuth c conn hc).1.symm.trans hget)
  simp [withNil, served]

/-- A connection that is counted, and then hangs up and is taken off. -/
theorem counted_first : CountsExactly (withNil 1000 3000)
    [.accept, .elapse 1000, .timeoutAuthenticate 0, .hangUp 0, .elapse 2000, .collectGarbage 0] := by
  refine (countsExactly_iff rfl (withNil_users 1000 3000 _)).2 ⟨fun n c conn ha hc hdue hclosed => ?_, ?_⟩
  · rcases n with _ | _ | _ | _ | _ | _ | n <;> cases ha
    obtain rfl := Option.some.inj hc
    decide
  · have hlength : ∀ n ≤ 6, ((connections (withNil 1000 3000)).stateAt [.accept, .elapse 1000,
        .timeoutAuthenticate 0, .hangUp 0, .elapse 2000, .collectGarbage 0] n).conns.length ≤ 1 := by
      decide
    intro n hn uuid _
    exact Nat.lt_of_le_of_lt (List.countP_le_length.trans (hlength n hn)) (by decide)

/-- It hangs up before its first timer fires, and its second fires before. -/
theorem taken_off_first :
    UsersPresent (withNil 3000 1000) [.accept, .hangUp 0, .elapse 1000, .collectGarbage 0] ∧
    ¬ CountsExactly (withNil 3000 1000) [.accept, .hangUp 0, .elapse 1000, .collectGarbage 0] ∧
    ((connections (withNil 3000 1000)).stateAt
      [.accept, .hangUp 0, .elapse 1000, .collectGarbage 0] 4).restful.onlineCounter.get nilUuid =
        some 18446744073709551615 := by
  refine ⟨withNil_users 3000 1000 _, fun h => h.noWrap 3 (by decide) nilUuid ?_ ?_, ?_⟩ <;> decide

end Tuic.Server
