import Mathlib.Algebra.Order.BigOperators.Group.List
import Tuic.Proofs.ExchangeCount
import Tuic.Proofs.Traffic
import Tuic.Sanity.Connections
import Tuic.Spec.Accounting

/-! Whether a server counts what it relays. A count moves bytes from the relays to the
counters, a request moves them from there to its answer, and nothing else moves any. -/

namespace Tuic.Server

open Lib Model

section

variable {b : Build} {ctx : Context} {order : UserOrder ctx.cfg} {s s' : Accounting} {side : TrafficSide} {u : Uuid}

/-! ### What the other steps of a server leave -/

theorem counter_congr {r r' : Restful} (h : r.trafficStats = r'.trafficStats) (side : TrafficSide) (u : Uuid) :
    r.counter side u = r'.counter side u := by
  rw [Restful.counter, Restful.counter, h]

theorem on_stats {s : Connections} {c : QuicClient} {f : Connection → Connections × Outcome Error Unit}
    (h : ∀ conn, s.conns[c]? = some conn → (f conn).1.restful.trafficStats = s.restful.trafficStats) :
    (s.on c f).1.restful.trafficStats = s.restful.trafficStats :=
  on_induction (P := fun o => o.1.restful.trafficStats = s.restful.trafficStats) rfl h

theorem timeoutAuthenticate_stats (s : Connections) (c : QuicClient) (conn : Connection) :
    (s.timeoutAuthenticate ctx c conn).1.restful.trafficStats = s.restful.trafficStats := by
  unfold Connections.timeoutAuthenticate
  split
  · split
    · rename_i hok
      rcases clientConnect_ok hok with ⟨-, rfl⟩ | ⟨current, -, -, hstats⟩
      · rfl
      · exact hstats
    · rename_i e _
      cases e
    · rfl
  · rfl

theorem collectGarbage_stats (s : Connections) (c : QuicClient) (conn : Connection) :
    (s.collectGarbage ctx c conn).1.restful.trafficStats = s.restful.trafficStats := by
  unfold Connections.collectGarbage
  split
  · split
    · split
      · rename_i hok
        rcases clientDisconnect_ok hok with ⟨-, rfl⟩ | ⟨current, -, -, hstats⟩
        · rfl
        · exact hstats
      · rename_i e _
        cases e
      · rfl
    · rfl
  · rfl

theorem kick_stats (cfg : Config) (r : Restful) (token : Option String) (users : List Uuid) :
    (r.kick cfg token users).1.trafficStats = r.trafficStats := by
  unfold Restful.kick
  split_ifs
  · rfl
  · exact (foldl_kickUser_tables users r).2

/-- A step is none of these, or it leaves the counters of the relays. -/
theorem connection_cases (ctx : Context) (s : Accounting) (a : ConnectionStep) : s.connection ctx a = s ∨
    s.connection ctx a = { s with server := (s.server.step ctx a).1 } ∧
      (s.server.step ctx a).1.restful.trafficStats = s.server.restful.trafficStats := by
  cases a with
  | relay c tx rx => exact .inl rfl
  | accept => exact .inr ⟨rfl, rfl⟩
  | elapse d => exact .inr ⟨rfl, rfl⟩
  | hangUp c => exact .inr ⟨rfl, on_stats fun _ _ => rfl⟩
  | authenticate c auth =>
    refine .inr ⟨rfl, on_stats fun conn _ => ?_⟩
    unfold Connections.authenticate
    split <;> rfl
  | set c =>
    refine .inr ⟨rfl, on_stats fun conn _ => ?_⟩
    unfold Connections.setAuthenticated
    split <;> rfl
  | timeoutAuthenticate c =>
    refine .inr ⟨rfl, on_stats fun conn _ => ?_⟩
    split
    · exact timeoutAuthenticate_stats s.server c conn
    · rfl
  | collectGarbage c =>
    refine .inr ⟨rfl, on_stats fun conn _ => ?_⟩
    split
    · exact collectGarbage_stats s.server c conn
    · rfl
  | request req =>
    cases req with
    | kick token users => exact .inr ⟨rfl, kick_stats ctx.cfg s.server.restful token users⟩
    | listOnline token => exact .inr ⟨rfl, rfl⟩
    | listDetailedOnline token => exact .inr ⟨rfl, rfl⟩
    | listTraffic token => exact .inl rfl
    | resetTraffic token => exact .inl rfl

/-! ### What a step moves -/

/-- What the tasks have counted. -/
def TcpTask.amount (self : TcpTask) (side : TrafficSide) (u : Uuid) : ℕ :=
  if self.countedFor side u then self.call.nums side.source else 0

def UdpTask.amount (self : UdpTask) (side : TrafficSide) (u : Uuid) : ℕ :=
  if self.sentFor side u ∨ self.unsentFor side u then self.pkt.length else 0

def Accounting.counted (s : Accounting) (side : TrafficSide) (u : Uuid) : ℕ :=
  (s.tcp.map fun task => task.amount side u).sum + (s.udp.map fun task => task.amount side u).sum

/-- What is in a counter, and what resets took out of it. -/
def Accounting.total (s : Accounting) (side : TrafficSide) (u : Uuid) : ℕ :=
  s.traffic.taken side u + s.server.restful.counter side u

/-- A step counts what its task counts, and nothing for anyone but the nil user. -/
structure Moves (ctx : Context) (s s' : Accounting) : Prop where
  balance : ∀ side, ∀ u ∈ ctx.cfg.users.keys,
    s'.total side u + s.counted side u ≡ s.total side u + s'.counted side u [MOD 2 ^ 64]
  others : ∀ side u, u ≠ nilUuid → s'.total side u = s.total side u

theorem moves_of_same (htotal : ∀ side u, s'.total side u = s.total side u)
    (hcounted : ∀ side u, s'.counted side u = s.counted side u) : Moves ctx s s' := by
  refine ⟨fun side u _ => ?_, fun side u _ => htotal side u⟩
  rw [htotal, hcounted]

theorem count_others {cfg : Config} (r : Restful) (side' : TrafficSide) {v : Uuid} (size : UInt64) (hne : u ≠ v) :
    (r.count cfg side' v size).counter side u = r.counter side u := by
  unfold Restful.count
  split
  · simp only [Restful.counter, Table.get_insert_ne _ _ hne]
  · rfl

theorem ofNat_modEq (n : ℕ) : (UInt64.ofNat n).toNat ≡ n [MOD 2 ^ 64] := by
  rw [UInt64.toNat_ofNat']
  exact Nat.mod_modEq n _

/-- A count of a task that adds as much to what the tasks have counted. -/
theorem moves_of_count (hrest : ctx.cfg.restful ≠ none) (hinit : s.server.Initial ctx) {side' : TrafficSide} {size : ℕ}
    (hrestful : s'.server.restful = s.server.restful.count ctx.cfg side' nilUuid (.ofNat size))
    (hwalks : s'.walks = s.walks)
    (hcounted : ∀ side u, s'.counted side u = s.counted side u + if nilUuid = u ∧ side = side' then size else 0) :
    Moves ctx s s' := by
  have htaken : ∀ side u, s'.traffic.taken side u = s.traffic.taken side u := fun side u => by
    simp only [TrafficState.taken, Accounting.traffic, hwalks]
  refine ⟨fun side u hu => ?_, fun side u hne => ?_⟩
  · have hcount : (s.server.restful.count ctx.cfg side' nilUuid (.ofNat size)).counter side u ≡ _ [MOD 2 ^ 64] :=
      count_counter hrest (hinit.covers.traffic ▸ hu) side' nilUuid (.ofNat size)
    have hsize : counted side side' u nilUuid (.ofNat size) ≡
        if nilUuid = u ∧ side = side' then size else 0 [MOD 2 ^ 64] := by
      unfold counted
      split_ifs
      · exact ofNat_modEq size
      · exact Nat.ModEq.refl 0
    rw [Accounting.total, Accounting.total, htaken, hrestful, hcounted, Nat.add_assoc, Nat.add_assoc,
      Nat.add_comm (s.counted side u), ← Nat.add_assoc (s.server.restful.counter side u)]
    exact ((hcount.trans (hsize.add_left _)).add_right _).add_left _
  · rw [Accounting.total, Accounting.total, htaken, hrestful, count_others _ _ _ hne]

theorem moves_of_restful (hstats : s'.server.restful.trafficStats = s.server.restful.trafficStats)
    (hwalks : s'.walks = s.walks) (hcounted : ∀ side u, s'.counted side u = s.counted side u) : Moves ctx s s' := by
  refine moves_of_same (fun side u => ?_) hcounted
  rw [Accounting.total, Accounting.total, counter_congr hstats]
  simp only [TrafficState.taken, Accounting.traffic, hwalks]

/-- A request begins with nothing, -/
theorem request_moves (s : Accounting) (walker : Walker) (token : Option String) :
    Moves ctx s (s.request ctx.cfg order walker token) := by
  refine moves_of_same (fun side u => ?_) fun _ _ => rfl
  simp [Accounting.total, TrafficState.taken, Accounting.traffic, Accounting.request, start_taken]

/-- and takes what it finds in a counter. -/
theorem advance_moves (hwalks : ∀ walk ∈ s.walks, walk.WF) (i : ℕ) : Moves ctx s (s.advance i) := by
  cases hi : s.walks[i]? with
  | none =>
    rw [Accounting.advance, hi]
    exact moves_of_same (fun _ _ => rfl) fun _ _ => rfl
  | some walk =>
    rw [Accounting.advance, hi]
    refine moves_of_same (fun side u => ?_) fun _ _ => rfl
    have hstep : (walk.advance s.server.restful).2.taken side u + (walk.advance s.server.restful).1.counter side u =
        walk.taken side u + s.server.restful.counter side u :=
      advance_taken (hwalks walk (List.mem_of_getElem? hi)) s.server.restful
    have hsum := Pool.sum_modify hi (fun walk => walk.taken side u) fun _ => (walk.advance s.server.restful).2
    change ((s.walks.modify i fun _ => (walk.advance s.server.restful).2).map fun walk => walk.taken side u).sum +
      (walk.advance s.server.restful).1.counter side u =
        (s.walks.map fun walk => walk.taken side u).sum + s.server.restful.counter side u
    omega

/-! ### The tasks -/

def TcpPhase.user : TcpPhase → Option Uuid
  | exchanging | refused => none
  | countingTx uuid | countingRx uuid | ended uuid => some uuid

def UdpPhase.user : UdpPhase → Option Uuid
  | entered | refused => none
  | sending uuid | sent uuid | failed uuid => some uuid

/-- A task of one of the connections counts for the nil user, and after its call has returned. -/
structure TcpTask.WF (b : Build) (conns : ℕ) (task : TcpTask) : Prop where
  accepted : task.conn < conns
  reachable : (countedExchange b).Reachable task.call
  returned : task.phase ≠ .exchanging → ∃ failed, task.call.Returned failed
  nil : task.phase ≠ .exchanging → task.phase.user = some nilUuid

structure UdpTask.WF (conns : ℕ) (task : UdpTask) : Prop where
  accepted : task.conn < conns
  nil : task.phase ≠ .entered → task.phase.user = some nilUuid

variable {conns : ℕ}

theorem TcpTask.WF.exchange {task : TcpTask} (h : task.WF b conns) (a : ExchangeStep) :
    (task.exchange b a).WF b conns := by
  obtain ⟨conn, call, phase⟩ := task
  cases phase with
  | exchanging =>
    exact ⟨h.accepted, (countedExchange b).reachable_step h.reachable a, fun hne => absurd rfl hne, h.nil⟩
  | _ => exact h

theorem TcpTask.WF.finish {task : TcpTask} (h : task.WF b conns) : (task.finish (some nilUuid)).WF b conns := by
  unfold TcpTask.finish
  split
  · rename_i failed _ hok hreturned
    exact ⟨h.accepted, h.reachable, fun _ => ⟨failed, hok, hreturned⟩, fun _ => rfl⟩
  · exact h

/-- Neither step counts anything. -/
theorem exchange_amount (task : TcpTask) (a : ExchangeStep) : (task.exchange b a).amount side u = task.amount side u := by
  obtain ⟨conn, call, phase⟩ := task
  cases phase with
  | exchanging => cases side <;> rfl
  | _ => rfl

theorem finish_amount (task : TcpTask) (auth : Option Uuid) : (task.finish auth).amount side u = task.amount side u := by
  unfold TcpTask.finish
  split
  · rename_i hphase _ _
    simp only [TcpTask.amount, TcpTask.countedFor, hphase]
    cases auth <;> cases side <;> rfl
  · rfl

theorem send_amount (task : UdpTask) (ok : Bool) : (task.send ok).amount side u = task.amount side u := by
  obtain ⟨conn, side', pkt, phase⟩ := task
  cases phase with
  | sending uuid => cases ok <;> simp [UdpTask.send, UdpTask.amount, UdpTask.sentFor, UdpTask.unsentFor]
  | _ => rfl

theorem UdpTask.WF.send {task : UdpTask} (h : task.WF conns) (ok : Bool) : (task.send ok).WF conns := by
  obtain ⟨conn, side', pkt, phase⟩ := task
  cases phase with
  | sending uuid =>
    have huser := h.nil (by simp)
    cases ok <;> exact ⟨h.accepted, fun _ => huser⟩
  | _ => exact h

/-! ### Runs -/

/-- What holds in every state of a server. -/
structure Accounting.WF (b : Build) (ctx : Context) (s : Accounting) : Prop where
  initial : s.server.Initial ctx
  walks : ∀ walk ∈ s.walks, walk.WF
  tcp : ∀ task ∈ s.tcp, task.WF b s.server.conns.length
  udp : ∀ task ∈ s.udp, task.WF s.server.conns.length

theorem Accounting.WF.auth (h : s.WF b ctx) {c : QuicClient} (hc : c < s.server.conns.length) :
    s.auth c = some nilUuid := by
  rw [Accounting.auth, List.getElem?_eq_getElem hc]
  exact (h.initial.nilAuth c _ (List.getElem?_eq_getElem hc)).1

theorem Accounting.WF.userOf (h : s.WF b ctx) {task : TcpTask} (ht : task ∈ s.tcp) : s.userOf task = some nilUuid := by
  have hauth := h.auth (h.tcp task ht).accepted
  have hnil := (h.tcp task ht).nil
  unfold Accounting.userOf
  cases hphase : task.phase <;> simp_all [TcpPhase.user]

theorem Accounting.WF.userOfPacket (h : s.WF b ctx) {task : UdpTask} (ht : task ∈ s.udp) :
    s.userOfPacket task = some nilUuid := by
  have hauth := h.auth (h.udp task ht).accepted
  have hnil := (h.udp task ht).nil
  unfold Accounting.userOfPacket
  cases hphase : task.phase <;> simp_all [UdpPhase.user]

theorem Accounting.WF.setRestful (h : s.WF b ctx) {r : Restful}
    (hcounter : r.onlineCounter = s.server.restful.onlineCounter)
    (hkeys : r.trafficStats.keys = s.server.restful.trafficStats.keys) : (s.setRestful r).WF b ctx :=
  ⟨⟨h.initial.covers.of_keys (congrArg Table.keys hcounter) hkeys, h.initial.nilAuth⟩, h.walks, h.tcp, h.udp⟩

theorem count_online (cfg : Config) (r : Restful) (side : TrafficSide) (v : Uuid) (size : UInt64) :
    (r.count cfg side v size).onlineCounter = r.onlineCounter := by
  unfold Restful.count
  split <;> rfl

theorem read_online (r : Restful) (walker : Walker) (side : TrafficSide) (v : Uuid) :
    (r.read walker side v).1.onlineCounter = r.onlineCounter := by
  unfold Restful.read
  split <;> rfl

theorem advance_online (walk : Walk) (r : Restful) : (walk.advance r).1.onlineCounter = r.onlineCounter := by
  obtain ⟨walker, phase⟩ := walk
  cases phase with
  | walking todo result =>
    cases todo with
    | nil => rfl
    | cons v todo => exact read_online r walker .tx v
  | between v tx todo result => exact read_online r walker .rx v
  | done status result => rfl

theorem Accounting.WF.count (h : s.WF b ctx) (side : TrafficSide) (v : Uuid) (size : UInt64) :
    (s.setRestful (s.server.restful.count ctx.cfg side v size)).WF b ctx :=
  h.setRestful (count_online _ _ _ _ _) (count_keys _ _ _ _)

theorem TcpTask.WF.goOn {task : TcpTask} (h : task.WF b conns) (hphase : task.phase ≠ .exchanging) {phase : TcpPhase}
    (hnil : phase.user = some nilUuid) : TcpTask.WF b conns { task with phase } :=
  ⟨h.accepted, h.reachable, fun _ => h.returned hphase, fun _ => hnil⟩

/-- A task that counts, for the nil user. -/
theorem counted_tcp {i : ℕ} {task : TcpTask} (hi : s.tcp[i]? = some task) (phase : TcpPhase) {r : Restful}
    (side' : TrafficSide) (hamount : ∀ side u, TcpTask.amount { task with phase } side u =
      task.amount side u + if nilUuid = u ∧ side = side' then task.call.nums side'.source else 0)
    (side : TrafficSide) (u : Uuid) :
    Accounting.counted { s.setRestful r with tcp := s.tcp.modify i ({ · with phase }) } side u =
      s.counted side u + if nilUuid = u ∧ side = side' then task.call.nums side'.source else 0 := by
  have hsum := Pool.sum_modify hi (fun task => task.amount side u) ({ · with phase })
  have htask := hamount side u
  simp only [Accounting.counted, Accounting.setRestful] at hsum ⊢
  omega

theorem countConnect_step (hrest : ctx.cfg.restful ≠ none) (h : s.WF b ctx) (i : ℕ) :
    (s.countConnect ctx.cfg i).WF b ctx ∧ Moves ctx s (s.countConnect ctx.cfg i) := by
  unfold Accounting.countConnect
  split
  · rename_i conn call uuid hi
    have htask := h.tcp _ (List.mem_of_getElem? hi)
    obtain rfl : uuid = nilUuid := Option.some.inj (htask.nil (by simp))
    rw [trafficTx_eq]
    refine ⟨{ h.count .tx nilUuid _ with tcp := Pool.forall_mem_modify h.tcp fun task ht => ?_ },
      moves_of_count hrest h.initial rfl rfl (counted_tcp hi _ .tx fun side u => ?_)⟩
    · obtain rfl := Option.some.inj (hi.symm.trans ht)
      exact htask.goOn (by simp) rfl
    · cases side <;> simp [TcpTask.amount, TcpTask.countedFor]
  · rename_i conn call uuid hi
    have htask := h.tcp _ (List.mem_of_getElem? hi)
    obtain rfl : uuid = nilUuid := Option.some.inj (htask.nil (by simp))
    rw [trafficRx_eq]
    refine ⟨{ h.count .rx nilUuid _ with tcp := Pool.forall_mem_modify h.tcp fun task ht => ?_ },
      moves_of_count hrest h.initial rfl rfl (counted_tcp hi _ .rx fun side u => ?_)⟩
    · obtain rfl := Option.some.inj (hi.symm.trans ht)
      exact htask.goOn (by simp) rfl
    · cases side <;> simp [TcpTask.amount, TcpTask.countedFor]
  · exact ⟨h, moves_of_same (fun _ _ => rfl) fun _ _ => rfl⟩

theorem addTraffic_eq (cfg : Config) (r : Restful) (side : TrafficSide) (v : Uuid) (size : UInt64) :
    r.addTraffic cfg side v size = r.count cfg side v size := by
  cases side with
  | tx => exact trafficTx_eq r cfg v size
  | rx => exact trafficRx_eq r cfg v size

theorem counted_udp_same {i : ℕ} {f : UdpTask → UdpTask}
    (h : ∀ task, s.udp[i]? = some task → ∀ side u, (f task).amount side u = task.amount side u)
    (side : TrafficSide) (u : Uuid) : Accounting.counted { s with udp := s.udp.modify i f } side u = s.counted side u := by
  simp only [Accounting.counted]
  rw [Pool.map_modify_same fun task ht => h task ht side u]

theorem counted_tcp_same {i : ℕ} {f : TcpTask → TcpTask}
    (h : ∀ task side u, (f task).amount side u = task.amount side u) (side : TrafficSide) (u : Uuid) :
    Accounting.counted { s with tcp := s.tcp.modify i f } side u = s.counted side u := by
  simp only [Accounting.counted]
  rw [Pool.map_modify_same fun task _ => h task side u]

theorem countPacket_step (hrest : ctx.cfg.restful ≠ none) (h : s.WF b ctx) (i : ℕ) :
    (s.countPacket ctx.cfg i).WF b ctx ∧ Moves ctx s (s.countPacket ctx.cfg i) := by
  unfold Accounting.countPacket
  split
  · rename_i conn side' pkt hi
    have htask := h.udp _ (List.mem_of_getElem? hi)
    rw [h.auth htask.accepted]
    simp only [addTraffic_eq]
    refine ⟨{ h.count side' nilUuid _ with udp := Pool.forall_mem_modify h.udp fun task ht => ?_ },
      moves_of_count hrest h.initial rfl rfl fun side u => ?_⟩
    · obtain rfl := Option.some.inj (hi.symm.trans ht)
      exact ⟨htask.accepted, fun _ => rfl⟩
    · have hsum := Pool.sum_modify hi (fun task => task.amount side u) ({ · with phase := .sending nilUuid })
      have hamount : UdpTask.amount ⟨conn, side', pkt, .sending nilUuid⟩ side u =
          if nilUuid = u ∧ side = side' then pkt.length else 0 := by
        cases side <;> cases side' <;> simp [UdpTask.amount, UdpTask.sentFor, UdpTask.unsentFor]
      have hzero : UdpTask.amount ⟨conn, side', pkt, .entered⟩ side u = 0 := by
        simp [UdpTask.amount, UdpTask.sentFor, UdpTask.unsentFor]
      simp only [Accounting.counted, Accounting.setRestful] at hsum ⊢
      omega
  · exact ⟨h, moves_of_same (fun _ _ => rfl) fun _ _ => rfl⟩

/-- What a step moves, and that it keeps the invariant. -/
theorem Accounting.WF.step (order : UserOrder ctx.cfg) (hrest : ctx.cfg.restful ≠ none) (h : s.WF b ctx)
    (a : AccountingStep) :
    (s.step b ctx order a).WF b ctx ∧ Moves ctx s (s.step b ctx order a) := by
  cases a with
  | connection a =>
    rcases connection_cases ctx s a with hsame | ⟨hstep, hstats⟩
    · simp only [Accounting.step, hsame]
      exact ⟨h, moves_of_same (fun _ _ => rfl) fun _ _ => rfl⟩
    · simp only [Accounting.step, hstep]
      have hlength := length_le_step ctx s.server a
      refine ⟨⟨h.initial.step a, h.walks, fun task ht => ?_, fun task ht => ?_⟩,
        moves_of_restful hstats rfl fun _ _ => rfl⟩
      · exact { h.tcp task ht with accepted := (h.tcp task ht).accepted.trans_le hlength }
      · exact { h.udp task ht with accepted := (h.udp task ht).accepted.trans_le hlength }
  | connect c =>
    simp only [Accounting.step, Accounting.connect]
    split
    · rename_i hc
      refine ⟨{ h with tcp := fun task ht => ?_ }, moves_of_same (fun _ _ => rfl) fun side u => ?_⟩
      · rcases List.mem_append.1 ht with hold | hnew
        · exact h.tcp task hold
        · obtain rfl := List.mem_singleton.1 hnew
          exact ⟨Pool.lt_of_eq_some hc, (countedExchange b).reachable_init, fun hne => absurd rfl hne,
            fun hne => absurd rfl hne⟩
      · simp [Accounting.counted, TcpTask.amount, TcpTask.countedFor]
    · exact ⟨h, moves_of_same (fun _ _ => rfl) fun _ _ => rfl⟩
  | exchange i a =>
    exact ⟨{ h with tcp := Pool.forall_mem_modify h.tcp fun task ht => (h.tcp task (List.mem_of_getElem? ht)).exchange a },
      moves_of_same (fun _ _ => rfl) (counted_tcp_same fun task _ _ => exchange_amount task a)⟩
  | finishConnect i =>
    refine ⟨{ h with tcp := Pool.forall_mem_modify h.tcp fun task ht => ?_ },
      moves_of_same (fun _ _ => rfl) (counted_tcp_same fun task _ _ => finish_amount task _)⟩
    have htask := h.tcp task (List.mem_of_getElem? ht)
    exact (h.auth htask.accepted).symm ▸ htask.finish
  | countConnect i => exact countConnect_step hrest h i
  | packet c side pkt =>
    simp only [Accounting.step, Accounting.packet]
    split
    · rename_i hc
      refine ⟨{ h with udp := fun task ht => ?_ }, moves_of_same (fun _ _ => rfl) fun side' u => ?_⟩
      · rcases List.mem_append.1 ht with hold | hnew
        · exact h.udp task hold
        · obtain rfl := List.mem_singleton.1 hnew
          exact ⟨Pool.lt_of_eq_some hc, fun hne => absurd rfl hne⟩
      · simp [Accounting.counted, UdpTask.amount, UdpTask.sentFor, UdpTask.unsentFor]
    · exact ⟨h, moves_of_same (fun _ _ => rfl) fun _ _ => rfl⟩
  | countPacket i => exact countPacket_step hrest h i
  | sendPacket i ok =>
    exact ⟨{ h with udp := Pool.forall_mem_modify h.udp fun task ht => (h.udp task (List.mem_of_getElem? ht)).send ok },
      moves_of_same (fun _ _ => rfl) (counted_udp_same fun task _ _ _ => send_amount task ok)⟩
  | request walker token =>
    refine ⟨{ h with walks := fun walk hwalk => ?_ }, request_moves s walker token⟩
    rcases List.mem_append.1 hwalk with hold | hnew
    · exact h.walks walk hold
    · obtain rfl := List.mem_singleton.1 hnew
      exact start_wf walker token
  | advance i =>
    refine ⟨?_, advance_moves h.walks i⟩
    simp only [Accounting.step, Accounting.advance]
    cases hi : s.walks[i]? with
    | none => exact h
    | some walk =>
      have hwalk := h.walks walk (List.mem_of_getElem? hi)
      exact { h.setRestful (advance_online walk _) (advance_keys walk _) with
        walks := Pool.forall_mem_modify h.walks fun _ _ => advance_wf hwalk _ }

theorem start_wf_accounting (b : Build) (ctx : Context) : Accounting.WF b ctx ⟨⟨0, .start ctx.cfg, []⟩, [], [], []⟩ where
  initial := ⟨start_covers ctx.cfg, fun _ _ hc => by cases hc⟩
  walks := fun _ h => absurd h List.not_mem_nil
  tcp := fun _ h => absurd h List.not_mem_nil
  udp := fun _ h => absurd h List.not_mem_nil

theorem start_total (cfg : Config) (side : TrafficSide) (u : Uuid) :
    Accounting.total ⟨⟨0, .start cfg, []⟩, [], [], []⟩ side u = 0 := by
  simp only [Accounting.total, TrafficState.taken, Accounting.traffic, Restful.counter, Restful.start, Table.get_map]
  cases cfg.users.get u <;> cases side <;> rfl

/-- The accounts of a server so far. -/
structure Balances (b : Build) (ctx : Context) (s : Accounting) : Prop where
  wf : s.WF b ctx
  total : ∀ side, ∀ u ∈ ctx.cfg.users.keys, s.total side u ≡ s.counted side u [MOD 2 ^ 64]
  others : ∀ side u, u ≠ nilUuid → s.total side u = 0

theorem balances_run (b : Build) (order : UserOrder ctx.cfg) (hrest : ctx.cfg.restful ≠ none)
    (steps : List AccountingStep) (n : ℕ) :
    Balances b ctx ((accounting b ctx order).stateAt steps n) := by
  refine ((accounting b ctx order).stateAt_reachable steps n).invariant (P := Balances b ctx) ?_ fun s a h => ?_
  · refine ⟨start_wf_accounting b ctx, fun side u _ => ?_, fun side u _ => start_total ctx.cfg side u⟩
    exact start_total ctx.cfg side u ▸ Nat.ModEq.refl 0
  · obtain ⟨hwf, hmoves⟩ := h.wf.step order hrest a
    refine ⟨hwf, fun side u hu => ?_, fun side u hne => (hmoves.others side u hne).trans (h.others side u hne)⟩
    have hsum := (hmoves.balance side u hu).trans ((h.total side u hu).add_right _)
    rw [Nat.add_comm (s.counted side u)] at hsum
    exact Nat.ModEq.add_right_cancel' _ hsum

/-! ### What is counted has been relayed -/

theorem TcpTask.user_of_counted {task : TcpTask} (h : task.countedFor side u = true) : task.phase.user = some u := by
  unfold TcpTask.countedFor at h
  split at h
  · rename_i hphase
    rw [hphase]
    exact congrArg some (by simpa using h)
  · rename_i hphase
    rw [hphase]
    exact congrArg some (by simpa using h)
  · cases h

theorem UdpTask.user_of_counted {task : UdpTask} (h : task.sentFor side u ∨ task.unsentFor side u) :
    task.phase.user = some u := by
  simp only [UdpTask.sentFor, UdpTask.unsentFor, decide_eq_true_eq] at h
  obtain ⟨-, hphase⟩ | ⟨-, hphase | hphase⟩ := h
  all_goals
    rw [hphase]
    rfl

theorem TcpTask.phase_of_counted {task : TcpTask} (h : task.countedFor side u = true) : task.phase ≠ .exchanging := by
  intro heq
  have huser := TcpTask.user_of_counted h
  rw [heq] at huser
  cases huser

theorem TcpTask.WF.nil_of_counted {task : TcpTask} (h : task.WF b conns) (hcounted : task.countedFor side u = true) :
    u = nilUuid :=
  Option.some.inj ((TcpTask.user_of_counted hcounted).symm.trans (h.nil (TcpTask.phase_of_counted hcounted)))

theorem UdpTask.WF.nil_of_counted {task : UdpTask} (h : task.WF conns)
    (hcounted : task.sentFor side u ∨ task.unsentFor side u) : u = nilUuid := by
  have huser := UdpTask.user_of_counted hcounted
  refine Option.some.inj (huser.symm.trans (h.nil fun heq => ?_))
  rw [heq] at huser
  cases huser

/-- A call counts what it wrote, and what it read before it failed. -/
theorem amount_bounds {task : TcpTask} (h : task.WF b conns) (hfits : ∀ source, task.call.taken source < 2 ^ b.usizeBits)
    (side : TrafficSide) (u : Uuid) :
    (if task.countedFor side u then task.written side else 0) ≤ task.amount side u ∧
      task.amount side u ≤ (if task.countedFor side u then task.written side else 0) +
        if task.countedFor side u ∧ task.call.relay.phase = .returned true then bufferSize else 0 := by
  unfold TcpTask.amount TcpTask.written
  by_cases hcounted : task.countedFor side u = true
  · obtain ⟨failed, hok, hreturned⟩ := h.returned (TcpTask.phase_of_counted hcounted)
    obtain ⟨gap, hgap⟩ := exchange_ahead (relay_reachable h.reachable)
    have hnums := wraps_of_reachable h.reachable hok side.source
    have hlt := hfits side.source
    rw [counted_taken hgap] at hlt
    rw [Nat.mod_eq_of_lt hlt, hgap.num] at hnums
    have hsmall := hgap.small side.source
    cases failed with
    | true =>
      simp only [hcounted, hreturned, if_true, and_self]
      omega
    | false =>
      have hnone : gap side.source = [] := by
        rw [hgap.waits (by simp [hreturned]), Exchange.pending, hreturned]
      rw [hnone, List.length_nil] at hnums
      simp only [hcounted, hreturned, if_true]
      omega
  · simp [hcounted]

/-- What a relay has written is counted, or not yet. -/
theorem written_split (s : Accounting) (task : TcpTask) (side : TrafficSide) (u : Uuid) :
    (if s.userOf task = some u then task.written side else 0) =
      (if task.countedFor side u then task.written side else 0) +
        if s.userOf task = some u ∧ task.countedFor side u = false then task.written side else 0 := by
  by_cases hcounted : task.countedFor side u = true
  · have hphase := TcpTask.user_of_counted hcounted
    have hu : s.userOf task = some u := by
      unfold Accounting.userOf
      cases hp : task.phase <;> rw [hp] at hphase <;> first | exact hphase | cases hphase
    simp [hcounted, hu]
  · simp [hcounted]

theorem udp_amount (task : UdpTask) (side : TrafficSide) (u : Uuid) : task.amount side u =
    (if task.sentFor side u then task.pkt.length else 0) + if task.unsentFor side u then task.pkt.length else 0 := by
  obtain ⟨conn, side', pkt, phase⟩ := task
  cases phase <;> simp [UdpTask.amount, UdpTask.sentFor, UdpTask.unsentFor]

theorem counted_bounds (h : s.WF b ctx) (hfits : s.CallsFit b) (side : TrafficSide) (u : Uuid) :
    s.relayed side u ≤ s.counted side u + s.uncounted side u ∧
      s.counted side u + s.uncounted side u ≤ s.relayed side u + s.atRisk side u := by
  have hudp : (s.udp.map fun task => task.amount side u).sum =
      (s.udp.map fun task => if task.sentFor side u then task.pkt.length else 0).sum +
        (s.udp.map fun task => if task.unsentFor side u then task.pkt.length else 0).sum := by
    rw [← List.sum_map_add]
    exact congrArg List.sum (List.map_congr_left fun task _ => udp_amount task side u)
  have hwritten : (s.tcp.map fun task => if s.userOf task = some u then task.written side else 0).sum =
      (s.tcp.map fun task => if task.countedFor side u then task.written side else 0).sum + s.uncounted side u := by
    rw [Accounting.uncounted, ← List.sum_map_add]
    exact congrArg List.sum (List.map_congr_left fun task _ => written_split s task side u)
  have htcp := fun task (ht : task ∈ s.tcp) => amount_bounds (h.tcp task ht) (hfits task ht) side u
  have hlower := List.sum_le_sum fun task ht => (htcp task ht).1
  have hupper := List.sum_le_sum fun task ht => (htcp task ht).2
  rw [List.sum_map_add] at hupper
  simp only [Accounting.relayed, Accounting.counted, Accounting.atRisk, hudp, hwritten]
  omega

theorem others_zero (side : TrafficSide) (h : s.WF b ctx) (hne : u ≠ nilUuid) :
    s.relayed side u = 0 ∧ s.atRisk side u = 0 := by
  have hnil : some nilUuid ≠ some u := fun heq => hne (Option.some.inj heq).symm
  have htcp : ∀ task ∈ s.tcp, ¬ s.userOf task = some u := fun task ht => h.userOf ht ▸ hnil
  have hcounted : ∀ task ∈ s.tcp, task.countedFor side u = false := fun task ht =>
    Bool.eq_false_iff.2 fun hcounted => hne ((h.tcp task ht).nil_of_counted hcounted)
  have hudp : ∀ task ∈ s.udp, ¬ (task.sentFor side u ∨ task.unsentFor side u) := fun task ht hcounted =>
    hne ((h.udp task ht).nil_of_counted hcounted)
  have hzero {α : Type} {l : List α} {f : α → ℕ} (hf : ∀ task ∈ l, f task = 0) : (l.map f).sum = 0 := by
    refine List.sum_eq_zero fun n hn => ?_
    obtain ⟨task, ht, rfl⟩ := List.mem_map.1 hn
    exact hf task ht
  constructor
  · rw [Accounting.relayed, hzero fun task ht => if_neg (htcp task ht),
      hzero fun task ht => if_neg (not_or.1 (hudp task ht)).1]
  · rw [Accounting.atRisk, hzero fun task ht => if_neg (by simp [hcounted task ht]),
      hzero fun task ht => if_neg (not_or.1 (hudp task ht)).2]

/-! ### What has returned is counted -/

/-- Where a count takes a task. -/
def TcpPhase.next : TcpPhase → TcpPhase
  | countingTx uuid => countingRx uuid
  | countingRx uuid => ended uuid
  | phase => phase

theorem modify_at {α : Type} {l : List α} {i : ℕ} {v : α} (hi : l[i]? = some v) (f : α → α) :
    (l.modify i f)[i]? = some (f v) := by
  rw [List.getElem?_modify_eq, hi]
  rfl

theorem finishConnect_at {i : ℕ} {task : TcpTask} (hi : s.tcp[i]? = some task) :
    (s.finishConnect i).tcp[i]? = some (task.finish (s.auth task.conn)) := modify_at hi _

theorem countConnect_at (cfg : Config) {i : ℕ} {task : TcpTask} (hi : s.tcp[i]? = some task) :
    (s.countConnect cfg i).tcp[i]? = some { task with phase := task.phase.next } := by
  obtain ⟨conn, call, phase⟩ := task
  unfold Accounting.countConnect
  cases phase with
  | countingTx uuid =>
    rw [hi]
    exact modify_at hi _
  | countingRx uuid =>
    rw [hi]
    exact modify_at hi _
  | _ =>
    rw [hi]
    exact hi

theorem finish_returned {task : TcpTask} {failed : Bool} (hphase : task.phase = .exchanging)
    (h : task.call.Returned failed) (uuid : Uuid) :
    task.finish (some uuid) = { task with phase := .countingTx uuid } := by
  unfold TcpTask.finish
  rw [hphase, h.1, h.2]

/-- Its steps take a task to its end from wherever it is. -/
theorem Accounting.WF.finishes (h : s.WF b ctx) {i : ℕ} {task : TcpTask} {failed : Bool} (hi : s.tcp[i]? = some task)
    (hreturned : task.call.Returned failed) :
    ((accounting b ctx order).exec s [.finishConnect i, .countConnect i, .countConnect i]).tcp[i]? =
      some { task with phase := .ended nilUuid } := by
  have hmem := List.mem_of_getElem? hi
  have hfinish := finishConnect_at hi
  rw [h.auth (h.tcp task hmem).accepted] at hfinish
  refine (countConnect_at ctx.cfg (countConnect_at ctx.cfg hfinish)).trans (congrArg some ?_)
  have hnil := (h.tcp task hmem).nil
  obtain ⟨conn, call, phase⟩ := task
  obtain ⟨hok, hphase⟩ := hreturned
  cases phase with
  | exchanging => rw [finish_returned rfl ⟨hok, hphase⟩, TcpPhase.next, TcpPhase.next]
  | countingTx uuid | countingRx uuid | ended uuid =>
    obtain rfl : uuid = nilUuid := Option.some.inj (hnil (by simp))
    rfl
  | refused => exact absurd (hnil (by simp)) (by simp [TcpPhase.user])

theorem Accounting.WF.sends (h : s.WF b ctx) {i : ℕ} {task : UdpTask} (ok : Bool) (hi : s.udp[i]? = some task)
    (hentered : task.phase = .entered) :
    ((accounting b ctx order).exec s [.countPacket i, .sendPacket i ok]).udp[i]? =
      some { task with phase := if ok then .sent nilUuid else .failed nilUuid } := by
  have hauth := h.auth (h.udp task (List.mem_of_getElem? hi)).accepted
  obtain ⟨conn, side', pkt, phase⟩ := task
  obtain rfl : phase = .entered := hentered
  have hcount : (s.countPacket ctx.cfg i).udp[i]? = some ⟨conn, side', pkt, .sending nilUuid⟩ := by
    unfold Accounting.countPacket
    rw [hi]
    simp only [hauth]
    exact modify_at hi _
  exact modify_at hcount _

end

/-- In every run of the connections, the relays and the requests. -/
theorem relays_accounted (b : Build) (ctx : Context) (order : UserOrder ctx.cfg) (hrest : ctx.cfg.restful ≠ none)
    (steps : List AccountingStep) (n : ℕ) : Accounted b ctx order ((accounting b ctx order).stateAt steps n) := by
  have h := balances_run b order hrest steps n
  generalize (accounting b ctx order).stateAt steps n = s at h
  exact {
    balance := fun hfits side uuid hu => by
      obtain ⟨hlower, hupper⟩ := counted_bounds h.wf hfits side uuid
      refine ⟨_, Nat.sub_le_of_le_add (hupper.trans_eq (Nat.add_comm _ _)), ?_⟩
      rw [Nat.add_sub_cancel' hlower, ← taken_eq]
      exact (h.total side uuid hu).add_right _
    nil := ⟨fun _ ht => h.wf.userOf ht, fun _ ht => h.wf.userOfPacket ht⟩
    others := fun side uuid hne => by
      obtain ⟨hrelayed, hrisk⟩ := others_zero side h.wf hne
      obtain ⟨htaken, hcounter⟩ := Nat.add_eq_zero_iff.1 (h.others side uuid hne)
      rw [taken_eq] at htaken
      exact ⟨hrelayed, hrisk, (Nat.add_eq_zero_iff.1 htaken).1, (Nat.add_eq_zero_iff.1 htaken).2, hcounter⟩
    finishes := fun _ _ _ hi hreturned => h.wf.finishes hi hreturned
    sends := fun _ _ ok hi hentered => h.wf.sends ok hi hentered }

/-- A client sends two bytes and ends, and a packet is counted that is not sent; then the counters are reset. -/
def oneCall : List AccountingStep :=
  [.connection .accept, .connect 0, .exchange 0 (.arrive .a [1, 2]), .exchange 0 (.read .a 2), .exchange 0 (.write 2),
    .exchange 0 (.finish .a), .exchange 0 (.read .a 0), .finishConnect 0, .countConnect 0, .countConnect 0,
    .packet 0 .rx [3], .countPacket 0, .sendPacket 0 false, .request .reset none, .advance 0, .advance 0, .advance 0]

/-- The two bytes are written before they are counted. -/
theorem relays_accounted_oneCall :
    let before := (accounting .release64 (served oneUserConfig) oneOrder).stateAt oneCall 6
    let after := (accounting .release64 (served oneUserConfig) oneOrder).stateAt oneCall 17
    (Accounted .release64 (served oneUserConfig) oneOrder before ∧
      before.relayed .tx nilUuid = 2 ∧ before.uncounted .tx nilUuid = 2 ∧
      before.server.restful.counter .tx nilUuid = 0) ∧
    Accounted .release64 (served oneUserConfig) oneOrder after ∧
      after.relayed .tx nilUuid = 2 ∧ after.uncounted .tx nilUuid = 0 ∧ after.traffic.reported .tx nilUuid = 2 ∧
      after.atRisk .rx nilUuid = 1 ∧ after.traffic.reported .rx nilUuid = 1 :=
  ⟨⟨relays_accounted .release64 (served oneUserConfig) oneOrder (by decide) oneCall 6, by decide⟩,
    relays_accounted .release64 (served oneUserConfig) oneOrder (by decide) oneCall 17, by decide⟩

end Tuic.Server
