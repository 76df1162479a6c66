import Tuic.Lib.Pool
import Tuic.Spec.Online

/-! What a step of `client_connect` or `client_disconnect` can do, and what it does
to the connections that are online. -/

namespace Tuic.Server

open Lib

/-- The connection is closed for reaching the limit. -/
def RestfulConfig.Reached (limits : RestfulConfig) (current : UInt64) : Prop :=
  limits.maximumClientsPerUser ≠ 0 ∧ current > limits.maximumClientsPerUser

inductive OnlineEffect (limits : RestfulConfig) (s : Online) : OnlineStep → Online → Prop
  | connected (uuid : Uuid) (current : UInt64) (passed : Bool) (closes : Multiset Close)
      (count : s.restful.onlineCounter.get uuid = some current)
      (limit : passed = true ↔ ¬ limits.Reached current) :
      OnlineEffect limits s (.connect uuid) { s with
        restful := { s.restful with
          onlineCounter := s.restful.onlineCounter.insert uuid (current + 1), closes }
        clients := s.clients ++ [⟨uuid, if passed then .passed else .rejected⟩] }
  | registered (conn : QuicClient) (uuid : Uuid) (client : s.clients[conn]? = some ⟨uuid, .passed⟩) :
      OnlineEffect limits s (.register conn) { s.enter conn .online with
        restful := s.restful.register uuid conn
        first := if s.first.get uuid = none then s.first.insert uuid conn else s.first }
  | disconnected (conn : QuicClient) (uuid : Uuid) (wasOnline : Bool) (current : UInt64)
      (client : s.clients[conn]? = some ⟨uuid, if wasOnline then .online else .rejected⟩)
      (count : s.restful.onlineCounter.get uuid = some current) :
      OnlineEffect limits s (.disconnect conn) { s.enter conn (.leaving wasOnline) with
        restful := { s.restful with
          onlineCounter := s.restful.onlineCounter.insert uuid (current - 1) } }
  | unregistered (conn : QuicClient) (uuid : Uuid) (wasOnline : Bool)
      (client : s.clients[conn]? = some ⟨uuid, .leaving wasOnline⟩) :
      OnlineEffect limits s (.unregister conn)
        { s.enter conn .gone with restful := s.restful.unregister uuid conn }
  | idle (a : OnlineStep) (absent : ∀ uuid, a = .connect uuid → s.restful.onlineCounter.get uuid = none) :
      OnlineEffect limits s a s

theorem connect_effect (limits : RestfulConfig) (s : Online) (uuid : Uuid) :
    OnlineEffect limits s (.connect uuid) (s.connect limits uuid) := by
  simp only [Online.connect, Restful.countIn, Restful.fetchAdd]
  cases hcount : s.restful.onlineCounter.get uuid with
  | none =>
    refine .idle _ fun uuid' heq => ?_
    obtain rfl := OnlineStep.connect.inj heq
    exact hcount
  | some current =>
    simp only [Outcome.ok_bind, Outcome.pure_eq]
    split_ifs with hreach
    · exact .connected uuid current false _ hcount (by simp [RestfulConfig.Reached, hreach])
    · exact .connected uuid current true s.restful.closes hcount (by simpa [RestfulConfig.Reached] using hreach)

theorem step_onlineEffect (limits : RestfulConfig) (s : Online) (a : OnlineStep) :
    OnlineEffect limits s a (s.step limits a) := by
  cases a with
  | connect uuid => exact connect_effect limits s uuid
  | register conn =>
    simp only [Online.step, Online.register]
    split
    · rename_i uuid hc
      exact .registered conn uuid hc
    · exact .idle _ fun _ h => by cases h
  | disconnect conn =>
    simp only [Online.step, Online.disconnect, Restful.fetchSub]
    split
    · rename_i uuid phase hc
      cases hcount : s.restful.onlineCounter.get uuid with
      | none => cases phase <;> exact .idle _ fun _ h => by cases h
      | some current =>
        cases phase with
        | online => exact .disconnected conn uuid true current hc hcount
        | rejected => exact .disconnected conn uuid false current hc hcount
        | _ => exact .idle _ fun _ h => by cases h
    · exact .idle _ fun _ h => by cases h
  | unregister conn =>
    simp only [Online.step, Online.unregister]
    split
    · rename_i uuid wasOnline hc
      exact .unregistered conn uuid wasOnline hc
    · exact .idle _ fun _ h => by cases h

/-! ### The connections that are online -/

theorem mem_listed {s : Online} {uuid : Uuid} {conn : QuicClient} :
    conn ∈ s.listed uuid ↔
      ∃ client, s.clients[conn]? = some client ∧ client.uuid = uuid ∧ client.phase.isListed = true := by
  simp only [Online.listed, Finset.mem_filter, Finset.mem_range, Option.any_eq_true, decide_eq_true_eq]
  constructor
  · exact fun h => h.2
  · rintro ⟨client, hc, h⟩
    exact ⟨Pool.lt_of_eq_some hc, client, hc, h⟩

theorem enter_clients_eq_some {s : Online} {conn c : QuicClient} {phase : Phase} {v : Client} :
    (s.enter conn phase).clients[c]? = some v ↔
      ∃ u, s.clients[c]? = some u ∧ v = if conn = c then { u with phase } else u :=
  Pool.modify_eq_some

/-- A connection that goes online joins the others of its user. -/
theorem listed_enter_online {s : Online} {conn : QuicClient} {uuid : Uuid} {old : Phase} (phase : Phase)
    (hc : s.clients[conn]? = some ⟨uuid, old⟩) (hphase : phase.isListed = true) (u : Uuid) :
    (s.enter conn phase).listed u = if u = uuid then insert conn (s.listed u) else s.listed u := by
  ext c
  rw [mem_listed]
  by_cases hcc : conn = c
  · subst hcc
    by_cases hu : u = uuid
    · subst hu
      simpa using ⟨_, enter_clients_eq_some.2 ⟨_, hc, rfl⟩, by simp [hphase]⟩
    · rw [if_neg hu, mem_listed]
      simp [enter_clients_eq_some, hc, Ne.symm hu]
  · have hne : c ≠ conn := Ne.symm hcc
    split_ifs <;> simp [enter_clients_eq_some, hcc, hne, mem_listed]

/-- A connection in any other phase is not among them. -/
theorem listed_enter_offline (s : Online) (conn : QuicClient) (phase : Phase)
    (hphase : phase.isListed = false) (u : Uuid) :
    (s.enter conn phase).listed u = (s.listed u).erase conn := by
  ext c
  rw [mem_listed, Finset.mem_erase, mem_listed]
  by_cases hcc : conn = c
  · subst hcc
    simp only [enter_clients_eq_some, if_true, ne_eq, not_true_eq_false, false_and, iff_false]
    rintro ⟨v, ⟨w, -, rfl⟩, -, h⟩
    simp [hphase] at h
  · have hne : c ≠ conn := Ne.symm hcc
    simp [enter_clients_eq_some, hcc, hne]

theorem listed_enter_same {s : Online} {conn : QuicClient} {uuid : Uuid} {old : Phase} (phase : Phase)
    (hc : s.clients[conn]? = some ⟨uuid, old⟩) (hphase : phase.isListed = old.isListed) (u : Uuid) :
    (s.enter conn phase).listed u = s.listed u := by
  ext c
  rw [mem_listed, mem_listed]
  by_cases hcc : conn = c
  · subst hcc
    simp [enter_clients_eq_some, hc, hphase]
  · simp [enter_clients_eq_some, hcc]

theorem listed_concat (s : Online) {client : Client} (hphase : client.phase.isListed = false) (u : Uuid) :
    ({ s with clients := s.clients ++ [client] } : Online).listed u = s.listed u := by
  ext c
  rw [mem_listed, mem_listed]
  constructor
  · rintro ⟨v, hv, hu, hl⟩
    rcases Pool.concat_eq_some.1 hv with hold | ⟨-, rfl⟩
    · exact ⟨v, hold, hu, hl⟩
    · rw [hphase] at hl
      cases hl
  · rintro ⟨v, hv, h⟩
    exact ⟨v, Pool.concat_eq_some.2 (.inl hv), h⟩

/-! ### The table of clients -/

theorem get_upsert {σ : Type} (t : Table Uuid σ) (k k' : Uuid) (new : σ) (update : σ → σ) :
    (upsert t k new update).get k' =
      if k' = k then some ((t.get k).elim new update) else t.get k' := by
  unfold upsert
  cases t.get k with
  | none => exact Table.get_insert _ _ _ _
  | some v => exact Table.get_insert _ _ _ _

theorem unregister_clients (r : Restful) (uuid : Uuid) (conn : QuicClient) (u : Uuid) :
    (r.unregister uuid conn).onlineClients.get u =
      if u = uuid then (r.onlineClients.get u).map (·.erase conn) else r.onlineClients.get u := by
  unfold Restful.unregister
  cases h : r.onlineClients.get uuid with
  | none =>
    by_cases hu : u = uuid
    · simp [hu, h]
    · simp [hu]
  | some pair =>
    by_cases hu : u = uuid
    · simp [hu, h]
    · simp [hu, Table.get_insert_ne _ _ hu]

/-- The user of the examples. -/
def someone : Uuid := Vector.replicate 16 1

end Tuic.Server
