import Mathlib.Tactic.Abel
import Tuic.Sanity.Tunnel

/-! What leaves the relay at one end came in at the other, on the same association id
and no more often. Each hop hands over what it has from the hop before; the connection
in between does so by its own theorem. -/

namespace Tuic

open Lib Model Quinn
open Server (UdpRelayMode WeakSession UdpStep)
open Client (Socks5 Socks5Step)

/-! ### Nothing is made or doubled -/

/-- A packet that a `handle_packet` of the server may still send. -/
def Handling.pending (self : Handling) : Multiset Delivery :=
  match self.phase with
  | .done => 0
  | _ => {self.packet}

namespace Tunnel

/-- What is ahead of a hop was behind it, `credit` included, which is about to be sent
to a side. -/
structure Conserved (credit : Side → Option Delivery) (s : Tunnel) : Prop where
  apps : (↑((s.link.pipe .server).sends.map Quinn.delivered) + ↑(s.forwards.map UdpPacket.delivery) +
    ↑(credit .server).toList : Multiset Delivery) ≤ ↑(s.fromApps.map fun o => o.2.delivery)
  targets : (↑((s.link.pipe .client).sends.map Quinn.delivered) + ↑(s.relays.map UdpPacket.delivery) +
    ↑(credit .client).toList : Multiset Delivery) ≤ ↑(s.fromTargets.map fun o => o.2.delivery)
  accepted : ↑(s.toTargets.map Outgoing.packet) + (s.handlers.map Handling.pending).sum ≤
    (↑(s.link.pipe .server).delivered : Multiset Delivery)
  arrived : ↑(s.toApps.map fun o => o.2) + ↑s.arrivals ≤
    (↑(s.link.pipe .client).delivered : Multiset Delivery)

variable {b : Build} {σ : Type} {s : Tunnel}

theorem pending_accepted (packets : List Delivery) :
    ((packets.map fun packet => (⟨packet, .accepted, none⟩ : Handling)).map Handling.pending).sum = ↑packets := by
  induction packets with
  | nil => rfl
  | cons packet packets ih =>
    rw [List.map_cons, List.map_cons, List.sum_cons, ih]
    rfl

/-- The connections take the packet that is about to be sent. -/
theorem Conserved.onLink {q : Datagrams b σ} {a : LinkStep σ}
    (h : s.Conserved fun side => a.deliveryTo side) : (s.onLink q a).Conserved fun _ => none := by
  obtain ⟨⟨newServer, hserver⟩, sentServer, hsentServer, hsubServer⟩ := Link.step_logs q s.link a .server
  obtain ⟨⟨newClient, hclient⟩, sentClient, hsentClient, hsubClient⟩ := Link.step_logs q s.link a .client
  have hle : ∀ {sent : List (PacketTx × List UInt8)} {side : Side},
      (sent.map Quinn.delivered).Sublist (a.deliveryTo side).toList →
      (↑(sent.map Quinn.delivered) : Multiset Delivery) ≤ ↑(a.deliveryTo side).toList := fun hsub =>
    Multiset.coe_le.2 hsub.subperm
  refine ⟨?_, ?_, ?_, ?_⟩
  · refine le_trans (le_of_eq ?_) (le_trans (add_le_add_right (hle hsubServer) _) h.apps)
    simp only [Tunnel.onLink, hsentServer, List.map_append, ← Multiset.coe_add, Option.toList,
      Multiset.coe_nil, add_zero]
    abel
  · refine le_trans (le_of_eq ?_) (le_trans (add_le_add_right (hle hsubClient) _) h.targets)
    simp only [Tunnel.onLink, hsentClient, List.map_append, ← Multiset.coe_add, Option.toList,
      Multiset.coe_nil, add_zero]
    abel
  · have hold := add_le_add_left h.accepted (↑newServer : Multiset Delivery)
    simp only [Tunnel.onLink, hserver, newly_append, List.map_append, List.sum_append,
      pending_accepted, ← Multiset.coe_add]
    refine le_trans (le_of_eq ?_) (le_trans hold (le_of_eq ?_))
    · abel
    · abel
  · have hold := add_le_add_left h.arrived (↑newClient : Multiset Delivery)
    simp only [Tunnel.onLink, hclient, newly_append, ← Multiset.coe_add]
    refine le_trans (le_of_eq ?_) (le_trans hold (le_of_eq ?_))
    · abel
    · abel

variable {credit : Side → Option Delivery} {x i : ℕ}

theorem Conserved.sessions (h : s.Conserved credit) (sessions : Server.UdpSessions) (waiting : List ℕ) :
    ({ s with sessions, waiting } : Tunnel).Conserved credit := ⟨h.apps, h.targets, h.accepted, h.arrived⟩

theorem Conserved.goOn (h : s.Conserved credit) {handling : Handling}
    (hx : s.handlers[x]? = some handling) (hphase : handling.phase ≠ .done) (phase' : HandlePacket) :
    (s.goOn x phase').Conserved credit := by
  refine ⟨h.apps, h.targets, le_trans (add_le_add_right ?_ _) h.accepted, h.arrived⟩
  refine Pool.sum_map_modify_le fun u hu => ?_
  rw [hx] at hu
  cases hu
  have hpending : handling.pending = {handling.packet} := by
    obtain ⟨packet, phase, answer⟩ := handling
    cases phase with
    | done => exact absurd rfl hphase
    | _ => rfl
  rw [hpending]
  cases phase' with
  | done => exact Multiset.zero_le _
  | _ => exact le_rfl

theorem Conserved.answer (h : s.Conserved credit) (x : ℕ) (dns : Option (List SocketAddr)) :
    ({ s with handlers := s.handlers.modify x ({ · with answer := dns }) } : Tunnel).Conserved credit := by
  refine ⟨h.apps, h.targets, ?_, h.arrived⟩
  have hsame : (s.handlers.modify x ({ · with answer := dns })).map Handling.pending =
      s.handlers.map Handling.pending := Pool.map_modify_same fun _ _ => rfl
  rw [hsame]
  exact h.accepted

/-- A task sends its packet and ends. -/
theorem Conserved.sent (h : s.Conserved credit) {packet : Delivery} {session : WeakSession}
    {socketAddr : SocketAddr} {answer : Option (List SocketAddr)}
    (hx : s.handlers[x]? = some ⟨packet, .resolved session socketAddr, answer⟩) :
    ({ s with toTargets := ⟨x, session, socketAddr, packet⟩ :: s.toTargets }.goOn x .done).Conserved credit := by
  refine ⟨h.apps, h.targets, le_trans (le_of_eq ?_) h.accepted, h.arrived⟩
  have hsum := Pool.sum_map_modify hx Handling.pending ({ · with phase := HandlePacket.done })
  change _ + ({packet} : Multiset Delivery) = _ + 0 at hsum
  rw [add_zero] at hsum
  rw [← hsum]
  simp only [Tunnel.goOn, List.map_cons, ← Multiset.cons_coe, ← Multiset.singleton_add]
  abel

/-- A task of the client calls `packet_native` or `packet_quic`. -/
theorem Conserved.takeForward (h : s.Conserved fun _ => none) {packet : UdpPacket}
    (hi : s.forwards[i]? = some packet) (mode : UdpRelayMode) (conn : σ) :
    ({ s with forwards := s.forwards.eraseIdx i } : Tunnel).Conserved fun side =>
      (packet.send .client conn mode).deliveryTo side := by
  have hserver : (packet.send .client conn mode).deliveryTo .server = some packet.delivery := by
    cases mode <;> rfl
  have hclient : (packet.send .client conn mode).deliveryTo .client = none := by
    cases mode <;> rfl
  refine ⟨le_trans (le_of_eq ?_) h.apps, ?_, h.accepted, h.arrived⟩
  · rw [hserver, Pool.coe_map_eraseIdx hi UdpPacket.delivery, ← Multiset.singleton_add]
    simp only [Option.toList, Multiset.coe_nil, add_zero, Multiset.coe_singleton]
    abel
  · rw [hclient]
    exact h.targets

theorem Conserved.takeRelay (h : s.Conserved fun _ => none) {packet : UdpPacket}
    (hi : s.relays[i]? = some packet) (mode : UdpRelayMode) (conn : σ) :
    ({ s with relays := s.relays.eraseIdx i } : Tunnel).Conserved fun side =>
      (packet.send .server conn mode).deliveryTo side := by
  have hserver : (packet.send .server conn mode).deliveryTo .server = none := by
    cases mode <;> rfl
  have hclient : (packet.send .server conn mode).deliveryTo .client = some packet.delivery := by
    cases mode <;> rfl
  refine ⟨?_, le_trans (le_of_eq ?_) h.targets, h.accepted, h.arrived⟩
  · rw [hserver]
    exact h.apps
  · rw [hclient, Pool.coe_map_eraseIdx hi UdpPacket.delivery, ← Multiset.singleton_add]
    simp only [Option.toList, Multiset.coe_nil, add_zero, Multiset.coe_singleton]
    abel

theorem eraseIdx_le {α β : Type} (l : List α) (i : ℕ) (g : α → β) :
    (↑((l.eraseIdx i).map g) : Multiset β) ≤ ↑(l.map g) :=
  Multiset.coe_le.2 ((List.eraseIdx_sublist l i).map g).subperm

theorem Conserved.step {s' : Tunnel} {q : Datagrams b σ} {cfg : SocketConfig} {a : TunnelStep σ}
    (he : Effect q cfg s a s') (h : s.Conserved fun _ => none) : s'.Conserved fun _ => none := by
  cases he with
  | same => exact h
  | link a hsends =>
    have hnone : (fun side => a.deliveryTo side) = fun _ => none :=
      funext (LinkStep.deliveryTo_eq_none hsends)
    exact Conserved.onLink (hnone ▸ h)
  | socks5 a => exact ⟨h.apps, h.targets, h.accepted, h.arrived⟩
  | recvApp packet =>
    have hmore := add_le_add_left h.apps {packet.delivery}
    refine ⟨le_trans (le_of_eq ?_) (le_trans hmore (le_of_eq ?_)), h.targets, h.accepted, h.arrived⟩
    · simp only [List.map_cons, ← Multiset.cons_coe, ← Multiset.singleton_add]
      abel
    · simp only [List.map_cons, ← Multiset.cons_coe, ← Multiset.singleton_add]
      abel
  | forward mode conn hi => exact (h.takeForward hi mode conn).onLink
  | dropForward _ i =>
    refine ⟨le_trans ?_ h.apps, h.targets, h.accepted, h.arrived⟩
    exact add_le_add_left (add_le_add_right (eraseIdx_le _ _ _) _) _
  | sendApp _ hi =>
    refine ⟨h.apps, h.targets, h.accepted, le_trans (le_of_eq ?_) h.arrived⟩
    have herase := Pool.coe_map_eraseIdx hi id
    simp only [List.map_id_fun, id] at herase
    rw [herase]
    simp only [List.map_cons, ← Multiset.cons_coe, ← Multiset.singleton_add]
    abel
  | dropArrival _ i =>
    refine ⟨h.apps, h.targets, h.accepted, le_trans (add_le_add_right ?_ _) h.arrived⟩
    exact Multiset.coe_le.2 (List.eraseIdx_sublist _ _).subperm
  | session => exact h.sessions _ _
  | waits _ hx => exact (h.goOn hx nofun _).sessions _ _
  | found _ hx => exact h.goOn hx nofun _
  | entered _ _ _ hx => exact (h.goOn hx nofun _).sessions _ _
  | answered dns hx => exact (h.answer _ dns).goOn (Pool.modify_eq_some.2 ⟨_, hx, (if_pos rfl).symm⟩) nofun _
  | failed _ hx hphase => exact h.goOn hx hphase _
  | sent _ hx => exact h.sent hx
  | @recv session packet =>
    have hmore := add_le_add_left h.targets {packet.delivery}
    refine ⟨h.apps, le_trans (le_of_eq ?_) (le_trans hmore (le_of_eq ?_)), h.accepted, h.arrived⟩
    · simp only [List.map_cons, ← Multiset.cons_coe, ← Multiset.singleton_add]
      abel
    · simp only [List.map_cons, ← Multiset.cons_coe, ← Multiset.singleton_add]
      abel
  | relay mode conn hi => exact (h.takeRelay hi mode conn).onLink
  | dropRelay _ i =>
    refine ⟨h.apps, le_trans ?_ h.targets, h.accepted, h.arrived⟩
    exact add_le_add_left (add_le_add_right (eraseIdx_le _ _ _) _) _

/-! ### Nothing changes its association -/

/-- What holds at the client: whatever goes through the socket of an association has its
id. -/
structure Listed (s : Tunnel) : Prop where
  bound : s.socks5.Bound
  fromApps : ∀ o ∈ s.fromApps, s.socks5.assocOf o.1 = some o.2.assocId
  toApps : ∀ o ∈ s.toApps, s.socks5.assocOf o.1 = some o.2.2.2

theorem Listed.step {s' : Tunnel} {q : Datagrams b σ} {cfg : SocketConfig} {a : TunnelStep σ}
    (he : Effect q cfg s a s') (h : s.Listed) : s'.Listed := by
  cases he with
  | socks5 a =>
    have he := Client.step_socks5Effect s.socks5 a
    exact ⟨socks5_bound_step he h.bound, fun o ho => socks5_assocOf_step he (h.fromApps o ho),
      fun o ho => socks5_assocOf_step he (h.toApps o ho)⟩
  | recvApp _ _ hk =>
    refine ⟨h.bound, fun o ho => ?_, h.toApps⟩
    rcases List.mem_cons.1 ho with rfl | hold
    · exact hk
    · exact h.fromApps o hold
  | @sendApp i k packet _ hi hk =>
    refine ⟨h.bound, h.fromApps, fun o ho => ?_⟩
    rcases List.mem_cons.1 ho with rfl | hold
    · exact h.bound _ k hk
    · exact h.toApps o hold
  | _ => exact ⟨h.bound, h.fromApps, h.toApps⟩

/-- The association of a `handle_packet`. -/
def assocAt (handlers : List Handling) (x : ℕ) : Option UInt16 :=
  handlers[x]?.map fun handling => handling.packet.2.2

theorem assocAt_modify (handlers : List Handling) (x : ℕ) {f : Handling → Handling}
    (hf : ∀ handling, (f handling).packet = handling.packet) :
    assocAt (handlers.modify x f) = assocAt handlers := by
  funext y
  have hsame : (handlers.modify x f).map (fun handling => handling.packet.2.2) =
      handlers.map fun handling => handling.packet.2.2 :=
    Pool.map_modify_same fun handling _ => congrArg (fun packet => packet.2.2) (hf handling)
  unfold assocAt
  rw [← List.getElem?_map, hsame, List.getElem?_map]

/-- A packet is with a session of its association, and going where it says. -/
def PlacedAt (sessions : Server.UdpSessions) (handling : Handling) : Prop :=
  match handling.phase with
  | .located session => sessions.assocOf session = some handling.packet.2.2
  | .resolved session socketAddr => sessions.assocOf session = some handling.packet.2.2 ∧
      (resolveDns handling.answer handling.packet.2.1).bind List.head? = some socketAddr
  | _ => True

/-- A packet that has gone where it said, through a session of its association. -/
structure SentTo (cfg : SocketConfig) (sessions : Server.UdpSessions) (handlers : List Handling)
    (o : Outgoing) : Prop where
  assoc : sessions.assocOf o.session = some o.packet.2.2
  socket : cfg.hasSocket o.socketAddr
  answer : ∃ answer, handlers[o.handler]? = some ⟨o.packet, .done, answer⟩ ∧
    (resolveDns answer o.packet.2.1).bind List.head? = some o.socketAddr

/-- What holds at the server: the tasks that wait for the lock are those whose
associations the table knows of, and whatever goes through the socket of a session
belongs to its association. -/
structure Placed (cfg : SocketConfig) (s : Tunnel) : Prop where
  bound : s.sessions.Bound
  waiting : s.waiting.map (assocAt s.handlers) = s.sessions.waiting.map some
  handlers : ∀ handling ∈ s.handlers, PlacedAt s.sessions handling
  toTargets : ∀ o ∈ s.toTargets, SentTo cfg s.sessions s.handlers o
  fromTargets : ∀ o ∈ s.fromTargets, s.sessions.assocOf o.1 = some o.2.assocId

theorem PlacedAt.step {sessions sessions' : Server.UdpSessions} {a : UdpStep}
    (he : Server.Effect sessions a sessions') {handling : Handling}
    (h : PlacedAt sessions handling) : PlacedAt sessions' handling := by
  obtain ⟨packet, phase, answer⟩ := handling
  cases phase with
  | located session => exact assocOf_step he h
  | resolved session socketAddr => exact ⟨assocOf_step he h.1, h.2⟩
  | _ => exact trivial

variable {cfg : SocketConfig}

theorem Placed.tasks (h : s.Placed cfg) (forwards relays : List UdpPacket) :
    ({ s with forwards, relays } : Tunnel).Placed cfg :=
  ⟨h.bound, h.waiting, h.handlers, h.toTargets, h.fromTargets⟩

/-- The sessions do a step, and the list of those that wait follows it. -/
theorem Placed.sessions (h : s.Placed cfg) (a : UdpStep) (waiting : List ℕ)
    (hwaiting : waiting.map (assocAt s.handlers) = (s.sessions.step a).1.waiting.map some) :
    ({ s with sessions := (s.sessions.step a).1, waiting } : Tunnel).Placed cfg := by
  have he := Server.step_effect s.sessions a
  refine ⟨bound_step he h.bound, hwaiting, fun handling hmem => (h.handlers handling hmem).step he,
    fun o ho => ?_, fun o ho => assocOf_step he (h.fromTargets o ho)⟩
  obtain ⟨hassoc, hsocket, hanswer⟩ := h.toTargets o ho
  exact ⟨assocOf_step he hassoc, hsocket, hanswer⟩

/-- A task that is not done goes on with its packet. -/
theorem Placed.modify (h : s.Placed cfg) {handling : Handling} (hx : s.handlers[x]? = some handling)
    (hphase : handling.phase ≠ .done) {f : Handling → Handling}
    (hf : ∀ handling, (f handling).packet = handling.packet) (hplaced : PlacedAt s.sessions (f handling)) :
    ({ s with handlers := s.handlers.modify x f } : Tunnel).Placed cfg := by
  refine ⟨h.bound, ?_, ?_, fun o ho => ?_, h.fromTargets⟩
  · simp only [assocAt_modify s.handlers x hf]
    exact h.waiting
  · refine Pool.forall_mem_modify h.handlers fun u hu => ?_
    rw [hx] at hu
    cases hu
    exact hplaced
  · obtain ⟨hassoc, hsocket, answer, hdone, hdns⟩ := h.toTargets o ho
    refine ⟨hassoc, hsocket, answer, Pool.modify_eq_some.2 ⟨_, hdone, ?_⟩, hdns⟩
    -- what has been sent is done
    rw [if_neg]
    rintro rfl
    rw [hx] at hdone
    cases hdone
    exact hphase rfl

theorem Placed.goOn (h : s.Placed cfg) {handling : Handling} {phase' : HandlePacket}
    (hx : s.handlers[x]? = some handling) (hphase : handling.phase ≠ .done)
    (hplaced : PlacedAt s.sessions { handling with phase := phase' }) : (s.goOn x phase').Placed cfg :=
  h.modify hx hphase (fun _ => rfl) hplaced

/-- A task begins to wait. -/
theorem Placed.wait (h : s.Placed cfg) {assocId : UInt16} (hx : assocAt s.handlers x = some assocId) :
    ({ s with
        sessions := { s.sessions with waiting := s.sessions.waiting ++ [assocId] }
        waiting := s.waiting ++ [x] } : Tunnel).Placed cfg := by
  refine ⟨h.bound, ?_, h.handlers, fun o ho => ⟨(h.toTargets o ho).assoc, (h.toTargets o ho).socket,
    (h.toTargets o ho).answer⟩, h.fromTargets⟩
  rw [List.map_append, List.map_append, h.waiting]
  exact congrArg (fun assoc => s.sessions.waiting.map some ++ [assoc]) hx

/-- A packet leaves through a session of its association. -/
theorem Placed.send (h : s.Placed cfg) {session : WeakSession} {socketAddr : SocketAddr} {packet : Delivery}
    {answer : Option (List SocketAddr)}
    (hx : s.handlers[x]? = some ⟨packet, .resolved session socketAddr, answer⟩) (hcfg : cfg.hasSocket socketAddr) :
    ({ s with toTargets := ⟨x, session, socketAddr, packet⟩ :: s.toTargets }.goOn x .done).Placed cfg := by
  obtain ⟨hassoc, hdns⟩ := h.handlers _ (List.mem_of_getElem? hx)
  have hdone : (s.goOn x .done).Placed cfg := h.goOn hx nofun trivial
  refine ⟨hdone.bound, hdone.waiting, hdone.handlers, fun o ho => ?_, hdone.fromTargets⟩
  rcases List.mem_cons.1 ho with rfl | hold
  · exact ⟨hassoc, hcfg, answer, Pool.modify_eq_some.2 ⟨_, hx, (if_pos rfl).symm⟩, hdns⟩
  · exact hdone.toTargets o hold

theorem Placed.onLink (h : s.Placed cfg) (q : Datagrams b σ) (a : LinkStep σ) : (s.onLink q a).Placed cfg := by
  refine ⟨h.bound, ?_, fun handling hmem => ?_, fun o ho => ?_, h.fromTargets⟩
  · refine Eq.trans (List.map_congr_left fun x hx => ?_) h.waiting
    -- whoever waits is among the old tasks
    have hmem : assocAt s.handlers x ∈ s.sessions.waiting.map some := h.waiting ▸ List.mem_map_of_mem hx
    obtain ⟨assocId, -, hassoc⟩ := List.mem_map.1 hmem
    obtain ⟨handling, hhandling, -⟩ := Option.map_eq_some_iff.1 hassoc.symm
    unfold assocAt
    rw [Tunnel.onLink, List.getElem?_append_left (Pool.lt_of_eq_some hhandling)]
  · rcases List.mem_append.1 hmem with hold | hnew
    · exact h.handlers handling hold
    · obtain ⟨packet, -, rfl⟩ := List.mem_map.1 hnew
      exact trivial
  · obtain ⟨hassoc, hsocket, answer, hdone, hdns⟩ := h.toTargets o ho
    refine ⟨hassoc, hsocket, answer, ?_, hdns⟩
    rw [Tunnel.onLink, List.getElem?_append_left (Pool.lt_of_eq_some hdone)]
    exact hdone

theorem Placed.step {s' : Tunnel} {q : Datagrams b σ} {a : TunnelStep σ} (he : Effect q cfg s a s')
    (h : s.Placed cfg) : s'.Placed cfg := by
  cases he with
  | link a => exact h.onLink q a
  | forward mode conn => exact Placed.onLink (h.tasks _ _) q _
  | relay mode conn => exact Placed.onLink (h.tasks _ _) q _
  | session _ a' hw =>
    refine h.sessions a' s.waiting ?_
    rw [hw]
    exact h.waiting
  | waits _ hx =>
    have hassoc := congrArg (Option.map fun handling : Handling => handling.packet.2.2) hx
    exact (h.wait hassoc).goOn hx nofun trivial
  | found _ hx hget => exact h.goOn hx nofun (h.bound _ _ hget)
  | @entered i x packet answer _ bound hi hx phase hphase =>
    have hassoc : s.sessions.waiting[i]? = some packet.2.2 := by
      have hat := congrArg (·[i]?) h.waiting
      simp only [List.getElem?_map, hi, Option.map_some, assocAt, hx] at hat
      obtain ⟨assocId, hsome, heq⟩ := Option.map_eq_some_iff.1 hat.symm
      rw [hsome, Option.some.inj heq]
    obtain ⟨hwaiting, hfound⟩ := entry_spec hassoc bound
    have hentry := h.sessions (.entry i bound) (s.waiting.eraseIdx i) (by
      rw [← List.eraseIdx_map, h.waiting, List.eraseIdx_map, ← hwaiting]
      rfl)
    refine hentry.goOn hx nofun ?_
    rcases hphase with ⟨-, rfl⟩ | ⟨session, hsession, rfl⟩
    · exact trivial
    · exact hentry.bound _ _ (hfound session hsession)
  | @answered x session packet answer dns hx phase hphase =>
    have hassoc := h.handlers _ (List.mem_of_getElem? hx)
    refine (h.modify (f := ({ · with answer := dns })) hx nofun (fun _ => rfl) hassoc).goOn
      (Pool.modify_eq_some.2 ⟨_, hx, (if_pos rfl).symm⟩) nofun ?_
    rcases hphase with rfl | ⟨socketAddr, hdns, rfl⟩
    · exact trivial
    · exact ⟨hassoc, hdns⟩
  | failed _ hx hphase => exact h.goOn hx hphase trivial
  | sent _ hx hcfg => exact h.send hx hcfg
  | recv _ hsession =>
    refine ⟨h.bound, h.waiting, h.handlers, h.toTargets, fun o ho => ?_⟩
    rcases List.mem_cons.1 ho with rfl | hold
    · exact hsession
    · exact h.fromTargets o hold
  | _ => exact ⟨h.bound, h.waiting, h.handlers, h.toTargets, h.fromTargets⟩

end Tunnel

/-! ### Runs -/

/-- A packet is sent only under a key of which nothing is left, and with a fitting
count. -/
def TunnelStep.Safe {b : Build} {σ : Type} (q : Datagrams b σ) (s : Tunnel) : TunnelStep σ → Prop
  | .link a => a.Safe q s.link
  | .forward i mode conn => ∀ packet, s.forwards[i]? = some packet → (packet.send .client conn mode).Safe q s.link
  | .relay i mode conn => ∀ packet, s.relays[i]? = some packet → (packet.send .server conn mode).Safe q s.link
  | _ => True

namespace Tunnel

variable {b : Build} {σ : Type} {q : Datagrams b σ} {cfg : SocketConfig} {s s' : Tunnel}

theorem fair_of_effect {a : TunnelStep σ} (he : Effect q cfg s a s') (hsafe : a.Safe q s)
    (h : ∀ side, (s.link.channel side).Fair b) (side : Side) : (s'.link.channel side).Fair b := by
  cases he with
  | link a => exact fair_step hsafe h side
  | forward mode conn hi => exact fair_step (hsafe _ hi) h side
  | relay mode conn hi => exact fair_step (hsafe _ hi) h side
  | _ => exact h side

/-- The entries of a log that belong to an association, when each entry belongs to the
association that its packet names. -/
theorem on_eq {α : Type} (log : List α) (owner : α → Option UInt16) (delivery : α → Delivery)
    (h : ∀ o ∈ log, owner o = some (delivery o).2.2) (assocId : UInt16) :
    (log.filter fun o => owner o = some assocId).map (fun o => ((delivery o).1, (delivery o).2.1)) =
      ((log.map delivery).filter fun d => d.2.2 = assocId).map fun d => (d.1, d.2.1) := by
  rw [List.filter_map, List.map_map]
  refine congrArg _ (List.filter_congr fun o ho => ?_)
  simp [h o ho]

theorem subperm_on {new old : List Delivery} (h : new.Subperm old) (assocId : UInt16) :
    ((new.filter fun d => d.2.2 = assocId).map fun d => (d.1, d.2.1)).Subperm
      ((old.filter fun d => d.2.2 = assocId).map fun d => (d.1, d.2.1)) :=
  Multiset.coe_le.1 (Multiset.map_le_map (Multiset.coe_le.2 (h.filter _)))

theorem Conserved.out (h : s.Conserved fun _ => none) (hfair : ∀ side, (s.link.channel side).Fair b) :
    (s.toTargets.map Outgoing.packet).Subperm (s.fromApps.map fun o => o.2.delivery) := by
  have hto := le_trans (Multiset.le_add_right _ _) h.accepted
  have hlink := Multiset.coe_le.2 (delivered_subperm (hfair .server))
  have hfrom := le_trans (Multiset.le_add_right _ _) (le_trans (Multiset.le_add_right _ _) h.apps)
  exact Multiset.coe_le.1 (le_trans hto (le_trans hlink hfrom))

theorem Conserved.back (h : s.Conserved fun _ => none) (hfair : ∀ side, (s.link.channel side).Fair b) :
    (s.toApps.map fun o => o.2).Subperm (s.fromTargets.map fun o => o.2.delivery) := by
  have hto := le_trans (Multiset.le_add_right _ _) h.arrived
  have hlink := Multiset.coe_le.2 (delivered_subperm (hfair .client))
  have hfrom := le_trans (Multiset.le_add_right _ _) (le_trans (Multiset.le_add_right _ _) h.targets)
  exact Multiset.coe_le.1 (le_trans hto (le_trans hlink hfrom))

theorem isolated_of (hfair : ∀ side, (s.link.channel side).Fair b) (hcons : s.Conserved fun _ => none)
    (hlisted : s.Listed) (hplaced : s.Placed cfg) : s.Isolated cfg where
  out assocId := by
    have hfrom := on_eq s.fromApps (fun o => s.socks5.assocOf o.1) (fun o => o.2.delivery) hlisted.fromApps assocId
    have hto := on_eq s.toTargets (fun o => s.sessions.assocOf o.session) Outgoing.packet
      (fun o ho => (hplaced.toTargets o ho).assoc) assocId
    have hon := subperm_on (hcons.out hfair) assocId
    rw [← hfrom, ← hto] at hon
    exact hon
  back assocId := by
    have hfrom := on_eq s.fromTargets (fun o => s.sessions.assocOf o.1) (fun o => o.2.delivery)
      hplaced.fromTargets assocId
    have hto := on_eq s.toApps (fun o => s.socks5.assocOf o.1) (fun o => o.2) hlisted.toApps assocId
    have hon := subperm_on (hcons.back hfair) assocId
    rw [← hfrom, ← hto] at hon
    exact hon
  resolved o ho := by
    obtain ⟨-, hsocket, answer, hdone, hdns⟩ := hplaced.toTargets o ho
    exact ⟨hsocket, _, hdone, rfl, hdns⟩

/-- In every run that sends packets only under unused keys and with fitting counts,
whatever is lost, reordered, delayed, timed out or dissociated: on each association id,
what leaves at either end came in at the other, and no more often. -/
theorem isolated (q : Datagrams b σ) (cfg : SocketConfig) (steps : List (TunnelStep σ))
    (hsafe : (tunnel q cfg).Keeps (fun s a => a.Safe q s) .init steps) :
    ((tunnel q cfg).exec .init steps).Isolated cfg := by
  have hinv : ∀ s : Tunnel, ∀ a : TunnelStep σ, a.Safe q s →
      ((∀ side, (s.link.channel side).Fair b) ∧ (s.Conserved fun _ => none) ∧ s.Listed ∧ s.Placed cfg) →
      (∀ side, ((s.step q cfg a).link.channel side).Fair b) ∧
        ((s.step q cfg a).Conserved fun _ => none) ∧ (s.step q cfg a).Listed ∧ (s.step q cfg a).Placed cfg := by
    rintro s a ha ⟨hfair, hcons, hlisted, hplaced⟩
    have he := effect q cfg s a
    exact ⟨fair_of_effect he ha hfair, hcons.step he, hlisted.step he, hplaced.step he⟩
  obtain ⟨hfair, hcons, hlisted, hplaced⟩ := hsafe.invariant hinv
    ⟨fun _ => Channel.fair_init, ⟨le_rfl, le_rfl, le_rfl, le_rfl⟩, ⟨nofun, nofun, nofun⟩,
      ⟨nofun, rfl, nofun, nofun, nofun⟩⟩
  exact isolated_of hfair hcons hlisted hplaced

/-- The program names its target. -/
def named : WireAddress :=
  ⟨.domainAddress "t" 53, show (asBytes "t").length ≤ 255 by decide +kernel⟩

/-- A packet to a target in mode `quic`, for which the resolver has two addresses, and a
longer one back in mode `native`. -/
def thereAndBack : List (TunnelStep Build.release64.Usize) :=
  [.socks5 .associate, .socks5 (.insert 0), .recvApp 0 ⟨[6, 1], by decide⟩ named,
    .forward 0 .quic ⟨30, by decide⟩, .link (.send .client (.openUni 0)), .link (.send .client (.write 0 100)),
    .link (.receive .server (.pollHeader 0
      [.chunk [5, 2, 0, 0, 0, 0, 1, 0, 0, 2, 0, 1, 116, 0, 53] nofun, .pending])),
    .link (.receive .server (.pollPayload 0 [.chunk [6, 1] nofun] 7)),
    .lookUp 0, .entry 0 true,
    .resolve 0 (some [.v4 ⟨127, 0, 0, 1⟩ 53, .v4 ⟨127, 0, 0, 2⟩ 53]), .send 0 true,
    .recv 0 ⟨[8, 0, 8], by decide⟩ (.v4 ⟨127, 0, 0, 1⟩ 53), .relay 0 .native ⟨30, by decide⟩,
    .link (.receive .client (.acceptDatagram 0)), .link (.receive .client (.accept 0 9)), .sendApp 0]

theorem thereAndBack_safe : (tunnel (limited .release64) ⟨false, 2⟩).Keeps
    (fun s a => a.Safe (limited .release64) s) .init thereAndBack := by
  refine ⟨trivial, trivial, trivial, fun packet h => ?_, trivial, trivial, trivial, trivial, trivial, trivial,
    trivial, trivial, trivial, fun packet h => ?_, trivial, trivial, trivial, trivial⟩
  · cases h
    refine ⟨?_, .inl (by decide)⟩
    rintro (⟨frag, hf, -⟩ | hbuf)
    · exact absurd hf (Multiset.notMem_zero _)
    · exact hbuf rfl
  · cases h
    rintro max hmax
    cases hmax
    refine ⟨?_, .inl (by decide)⟩
    rintro (⟨frag, hf, -⟩ | hbuf)
    · exact absurd hf (Multiset.notMem_zero _)
    · exact hbuf rfl

theorem isolated_thereAndBack :
    let s := (tunnel (limited .release64) ⟨false, 2⟩).exec .init thereAndBack
    s.toTargetsOn 0 = [([6, 1], .domainAddress "t" 53)] ∧
      s.toTargets.map Outgoing.socketAddr = [.v4 ⟨127, 0, 0, 1⟩ 53] ∧
      s.toAppsOn 0 = [([8, 0], localhost)] ∧ s.Isolated ⟨false, 2⟩ :=
  ⟨by decide +kernel, by decide +kernel, by decide +kernel,
    isolated (limited .release64) ⟨false, 2⟩ thereAndBack thereAndBack_safe⟩

end Tunnel

end Tuic
