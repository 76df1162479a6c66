import Tuic.Sanity.Online

/-! Whom a kick reaches. The first `upsert` of a user stores an empty set and drops
its connection: the clients of a user are all that are online but that one. -/

namespace Tuic.Server

open Lib

/-- The table has every client of a user that is online but the first. -/
structure Online.Tracks (s : Online) : Prop where
  never : ∀ uuid, s.first.get uuid = none →
    s.restful.onlineClients.get uuid = none ∧ s.listed uuid = ∅
  clients : ∀ uuid conn, s.first.get uuid = some conn →
    s.restful.onlineClients.get uuid = some ((s.listed uuid).erase conn)
  first : ∀ uuid conn, s.first.get uuid = some conn → ∃ client, s.clients[conn]? = some client ∧
    client.uuid = uuid ∧ (client.phase.isListed = true ∨ client.phase = .gone)

/-- Entering a phase keeps the first connections, unless one was not yet online. -/
theorem Online.Tracks.first_enter {s : Online} (h : s.Tracks) {conn : QuicClient} {uuid : Uuid}
    {old phase : Phase} (hc : s.clients[conn]? = some ⟨uuid, old⟩)
    (hphase : phase.isListed = true ∨ phase = .gone ∨ (old.isListed = false ∧ old ≠ .gone))
    {u : Uuid} {f : QuicClient} (hf : s.first.get u = some f) :
    ∃ client, (s.enter conn phase).clients[f]? = some client ∧
      client.uuid = u ∧ (client.phase.isListed = true ∨ client.phase = .gone) := by
  obtain ⟨client, hclient, hu, hl⟩ := h.first u f hf
  refine ⟨_, enter_clients_eq_some.2 ⟨client, hclient, rfl⟩, ?_⟩
  by_cases hcf : conn = f
  · subst hcf
    obtain rfl : _ = client := Option.some.inj (hc.symm.trans hclient)
    rw [if_pos rfl]
    refine ⟨hu, ?_⟩
    rcases hphase with hp | hp | ⟨hold, hgone⟩
    · exact .inl hp
    · exact .inr hp
    · rcases hl with hl | hl
      · simp [hold] at hl
      · exact absurd hl hgone
  · rw [if_neg hcf]
    exact ⟨hu, hl⟩

theorem Online.Tracks.registered {limits : RestfulConfig} {s s' : Online} {conn : QuicClient}
    (h : s.Tracks) (he : OnlineEffect limits s (.register conn) s') : s'.Tracks := by
  cases he with
  | idle => exact h
  | registered _ uuid hc =>
    have hlisted := listed_enter_online .online hc rfl
    have hnew : ∀ u f, s.first.get u = some f → f ≠ conn := by
      rintro u f hf rfl
      obtain ⟨client, hclient, -, hl⟩ := h.first u f hf
      obtain rfl : _ = client := Option.some.inj (hc.symm.trans hclient)
      simp [Phase.isListed] at hl
    have hget : ∀ u, (s.restful.register uuid conn).onlineClients.get u = if u = uuid then
        some ((s.restful.onlineClients.get uuid).elim ∅ fun v => insert conn v) else
        s.restful.onlineClients.get u := fun u => get_upsert _ _ _ _ _
    have hfirst : ∀ u, (if s.first.get uuid = none then s.first.insert uuid conn else s.first).get u =
        if u = uuid then some ((s.first.get uuid).getD conn) else s.first.get u := by
      intro u
      cases hf : s.first.get uuid with
      | none => exact Table.get_insert _ _ _ _
      | some f => by_cases hu : u = uuid <;> simp [hu, hf]
    refine ⟨fun u hu => ?_, fun u f hf => ?_, fun u f hf => ?_⟩
    · rw [hfirst] at hu
      have hne : u ≠ uuid := by
        rintro rfl
        simp at hu
      rw [if_neg hne] at hu
      obtain ⟨hnone, hempty⟩ := h.never u hu
      refine ⟨?_, (hlisted u).trans ?_⟩
      · rw [hget, if_neg hne]
        exact hnone
      · rw [if_neg hne]
        exact hempty
    · rw [hfirst] at hf
      change _ = some (((s.enter conn .online).listed u).erase f)
      rw [hget, hlisted]
      by_cases hu : u = uuid
      · subst hu
        rw [if_pos rfl] at hf ⊢
        rw [if_pos rfl]
        cases hold : s.first.get u with
        | none =>
          obtain ⟨hnone, hempty⟩ := h.never u hold
          obtain rfl : conn = f := by simpa [hold] using hf
          simp [hnone, hempty]
        | some g =>
          obtain rfl : g = f := by simpa [hold] using hf
          have hne := hnew u g hold
          simp [h.clients u g hold, Finset.erase_insert_of_ne hne.symm]
      · rw [if_neg hu] at hf ⊢
        rw [if_neg hu]
        exact h.clients u f hf
    · rw [hfirst] at hf
      by_cases hu : u = uuid
      · subst hu
        rw [if_pos rfl] at hf
        cases hold : s.first.get u with
        | none =>
          obtain rfl : conn = f := by simpa [hold] using hf
          exact ⟨_, enter_clients_eq_some.2 ⟨_, hc, rfl⟩, by simp [Phase.isListed]⟩
        | some g =>
          obtain rfl : g = f := by simpa [hold] using hf
          exact h.first_enter hc (.inl rfl) hold
      · rw [if_neg hu] at hf
        exact h.first_enter hc (.inl rfl) hf

/-- A step that lists the same connections needs only care for the first ones. -/
theorem Online.Tracks.of_listed {s s' : Online} (h : s.Tracks)
    (hclients : s'.restful.onlineClients = s.restful.onlineClients) (hlisted : ∀ u, s'.listed u = s.listed u)
    (hfirst : s'.first = s.first) (hkept : ∀ u f, s.first.get u = some f →
      ∃ client, s'.clients[f]? = some client ∧ client.uuid = u ∧
        (client.phase.isListed = true ∨ client.phase = .gone)) : s'.Tracks where
  never u hu := by
    rw [hfirst] at hu
    rw [hclients, hlisted u]
    exact h.never u hu
  clients u f hf := by
    rw [hfirst] at hf
    rw [hclients, hlisted u]
    exact h.clients u f hf
  first u f hf := hkept u f (hfirst ▸ hf)

theorem Online.Tracks.step {s : Online} (limits : RestfulConfig) (h : s.Tracks) (a : OnlineStep) :
    (s.step limits a).Tracks := by
  have he := step_onlineEffect limits s a
  generalize s.step limits a = s' at he
  cases he with
  | connected uuid current passed closes count limit =>
    have hphase : (⟨uuid, if passed then .passed else .rejected⟩ : Client).phase.isListed = false := by
      cases passed <;> rfl
    refine h.of_listed rfl (listed_concat s hphase) rfl fun u f hf => ?_
    obtain ⟨client, hclient, hrest⟩ := h.first u f hf
    exact ⟨client, Pool.concat_eq_some.2 (.inl hclient), hrest⟩
  | registered conn uuid hc => exact h.registered (show OnlineEffect limits s _ _ from .registered conn uuid hc)
  | disconnected conn uuid wasOnline current hc count =>
    have hlisted := listed_enter_same (.leaving wasOnline) hc (by cases wasOnline <;> rfl)
    refine h.of_listed rfl hlisted rfl fun u f hf => ?_
    cases wasOnline with
    | true => exact h.first_enter hc (.inl rfl) hf
    | false => exact h.first_enter hc (.inr (.inr ⟨rfl, by simp⟩)) hf
  | unregistered conn uuid wasOnline hc =>
    have hlisted := listed_enter_offline s conn .gone rfl
    have hout : ∀ u, u ≠ uuid → conn ∉ s.listed u := by
      intro u hne hmem
      obtain ⟨client, hclient, rfl, -⟩ := mem_listed.1 hmem
      obtain rfl : _ = client := Option.some.inj (hc.symm.trans hclient)
      exact hne rfl
    refine ⟨fun u hu => ?_, fun u f hf => ?_, fun u f hf => ?_⟩
    · obtain ⟨hnone, hempty⟩ := h.never u hu
      refine ⟨by simp [unregister_clients, hnone], (hlisted u).trans ?_⟩
      simp [hempty]
    · change _ = some (((s.enter conn .gone).listed u).erase f)
      rw [unregister_clients, h.clients u f hf, hlisted]
      split_ifs with hu
      · simp [Finset.erase_right_comm]
      · rw [Finset.erase_eq_of_notMem (hout u hu)]
    · exact h.first_enter hc (.inr (.inl rfl)) hf
  | idle => exact h

theorem online_tracks (cfg : Config) (limits : RestfulConfig) (steps : List OnlineStep) (n : ℕ) :
    ((online cfg limits).stateAt steps n).Tracks := by
  refine ((online cfg limits).stateAt_reachable steps n).invariant (P := Online.Tracks) ?_
    fun s a h => h.step limits a
  exact ⟨fun _ _ => ⟨rfl, rfl⟩, fun _ _ hf => (nomatch hf), fun _ _ hf => (nomatch hf)⟩

/-! ### Requests -/

/-- The call of `close` that a kick makes. -/
def kicked (conn : QuicClient) : Close := ⟨conn, 6002, "Client got kicked"⟩

theorem kickUser_clients (r : Restful) (user : Uuid) :
    (r.kickUser user).onlineClients = r.onlineClients := by
  unfold Restful.kickUser
  split <;> rfl

theorem kickUser_closes (r : Restful) (user : Uuid) : r.closes ≤ (r.kickUser user).closes := by
  unfold Restful.kickUser
  split
  · exact Multiset.le_add_right _ _
  · exact le_refl _

theorem foldl_kickUser_closes (users : List Uuid) (r : Restful) :
    r.closes ≤ (users.foldl Restful.kickUser r).closes := by
  induction users generalizing r with
  | nil => exact le_refl _
  | cons user users ih => exact (kickUser_closes r user).trans (ih (r.kickUser user))

theorem foldl_kickUser_mem {users : List Uuid} {user : Uuid} (h : user ∈ users) {r : Restful}
    {list : Finset QuicClient} (hr : r.onlineClients.get user = some list) {conn : QuicClient}
    (hc : conn ∈ list) : kicked conn ∈ (users.foldl Restful.kickUser r).closes := by
  induction users generalizing r with
  | nil => cases h
  | cons u users ih =>
    rcases List.mem_cons.1 h with rfl | hmem
    · apply Multiset.mem_of_le (foldl_kickUser_closes users _)
      simp only [Restful.kickUser, hr, Multiset.mem_add]
      exact .inr (Multiset.mem_map_of_mem _ hc)
    · exact ih hmem (by rw [kickUser_clients, hr])

/-- Every online connection of the user is in the table, an authorised kick of the
user closes each of them, and the detailed list has their addresses. -/
structure Online.KicksAll (cfg : Config) (remoteAddress : QuicClient → SocketAddr) (s : Online)
    (uuid : Uuid) : Prop where
  clients : s.clientsOf uuid = s.listed uuid
  kicks : ∀ token, turnsAway cfg token = false → ∀ users, uuid ∈ users → ∀ conn ∈ s.listed uuid,
    kicked conn ∈ (s.restful.kick cfg token users).1.closes
  detailed : ∀ token, turnsAway cfg token = false →
    (s.restful.listDetailedOnline remoteAddress cfg token).2.get uuid =
      if s.listed uuid = ∅ then none else some ((s.listed uuid).val.map remoteAddress)

/-- A table that has the clients of a user serves its requests right. -/
theorem kicksAll_of_clients {cfg : Config} {remoteAddress : QuicClient → SocketAddr} {s : Online}
    {uuid : Uuid} (h : s.clientsOf uuid = s.listed uuid) : s.KicksAll cfg remoteAddress uuid where
  clients := h
  kicks token htoken users hmem conn hc := by
    cases hget : s.restful.onlineClients.get uuid with
    | none =>
      rw [← h, Online.clientsOf, hget] at hc
      cases hc
    | some list =>
      rw [← h, Online.clientsOf, hget] at hc
      simp only [Restful.kick, htoken, Bool.false_eq_true, if_false]
      exact foldl_kickUser_mem hmem hget hc
  detailed token htoken := by
    simp only [Restful.listDetailedOnline, htoken, Bool.false_eq_true, if_false, Table.get_map,
      Table.get_retain, ← h, Online.clientsOf]
    cases hget : s.restful.onlineClients.get uuid with
    | none => simp
    | some list => by_cases hempty : list = ∅ <;> simp [Option.filter, hempty]

/-- In every state a kick reaches all online connections of a user exactly if the
first of them that went online is gone. -/
theorem kicksAll_iff (cfg : Config) (limits : RestfulConfig) (remoteAddress : QuicClient → SocketAddr)
    (steps : List OnlineStep) (n : ℕ) (uuid : Uuid) :
    ((online cfg limits).stateAt steps n).KicksAll cfg remoteAddress uuid ↔
      ∀ conn client, ((online cfg limits).stateAt steps n).first.get uuid = some conn →
        ((online cfg limits).stateAt steps n).clients[conn]? = some client → client.phase = .gone := by
  have htracks := online_tracks cfg limits steps n
  generalize (online cfg limits).stateAt steps n = s at htracks
  constructor
  · intro h conn client hfirst hclient
    obtain ⟨client', hclient', hu, hl⟩ := htracks.first uuid conn hfirst
    obtain rfl : client = client' := Option.some.inj (hclient.symm.trans hclient')
    rcases hl with hl | hgone
    · have hmem : conn ∈ s.clientsOf uuid := by
        rw [h.clients]
        exact mem_listed.2 ⟨client, hclient, hu, hl⟩
      simp [Online.clientsOf, htracks.clients uuid conn hfirst] at hmem
    · exact hgone
  · intro h
    apply kicksAll_of_clients
    cases hfirst : s.first.get uuid with
    | none =>
      obtain ⟨hnone, hempty⟩ := htracks.never uuid hfirst
      simp [Online.clientsOf, hnone, hempty]
    | some conn =>
      have hout : conn ∉ s.listed uuid := by
        intro hmem
        obtain ⟨client, hclient, -, hl⟩ := mem_listed.1 hmem
        simp [h conn client hfirst hclient, Phase.isListed] at hl
      simp [Online.clientsOf, htracks.clients uuid conn hfirst, Finset.erase_eq_of_notMem hout]

/-- A server that knows one user, and lets any number of clients in. -/
def unlimited : Config := ⟨.insert .empty someone "", some ⟨"secret", 0⟩, 3000, 3000⟩

/-- The first connection of a user goes online. No kick closes it. -/
theorem first_not_kicked : let s := (online unlimited ⟨"secret", 0⟩).stateAt [.connect someone, .register 0] 2
    s.listed someone = {0} ∧ s.clientsOf someone = ∅ ∧
      (s.restful.kick unlimited (some "secret") [someone]).1.closes = 0 ∧
      ¬ s.KicksAll unlimited (fun _ => .v4 ⟨127, 0, 0, 1⟩ 53) someone := by
  refine ⟨by decide, by decide, by decide, fun h => ?_⟩
  exact absurd h.clients (by decide)

end Tuic.Server
