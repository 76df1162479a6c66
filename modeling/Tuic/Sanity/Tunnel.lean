import Tuic.Proofs.Link
import Tuic.Proofs.Socks5
import Tuic.Proofs.UdpSession
import Tuic.Spec.Tunnel

/-! What a step of the relay can do: to the logs of the connection, to the ids of
associations and sessions, and to the whole. -/

namespace Tuic

open Lib Model Quinn
open Server (UdpRelayMode WeakSession UdpStep)
open Client (Socks5 Socks5Step)

/-! ### The connection -/

namespace Quinn

variable {b : Build} {σ : Type}

/-- The packet that a call sends, as it is handed on. -/
def SendStep.delivery : SendStep σ → Option Delivery
  | .packetNative _ pkt addr assocId | .packetQuic pkt addr assocId => some (pkt.1, addr.1.onWire, assocId)
  | _ => none

/-- What a step of the sender adds to the packets sent. -/
theorem Pipe.send_logs (q : Datagrams b σ) (side : Side) (model : UdpSessions (List UInt8)) (self : Pipe)
    (a : SendStep σ) :
    (self.send q side model a).2.delivered = self.delivered ∧
      ∃ new, (self.send q side model a).2.sends = new ++ self.sends ∧
        (new.map Quinn.delivered).Sublist a.delivery.toList := by
  cases a with
  | packetNative conn pkt addr assocId =>
    refine ⟨rfl, _, rfl, ?_⟩
    cases q.maxDatagramSize conn with
    | none => exact List.nil_sublist _
    | some max => exact List.Sublist.refl _
  | packetQuic pkt addr assocId => exact ⟨rfl, [_], rfl, List.Sublist.refl _⟩
  | dissociate assocId =>
    simp only [Pipe.send]
    split_ifs <;> exact ⟨rfl, [], rfl, List.nil_sublist _⟩
  | authenticate auth =>
    simp only [Pipe.send]
    split_ifs <;> exact ⟨rfl, [], rfl, List.nil_sublist _⟩
  | heartbeat =>
    simp only [Pipe.send]
    split_ifs <;> exact ⟨rfl, [], rfl, List.nil_sublist _⟩
  | openUni j =>
    simp only [Pipe.send, Pipe.openUni]
    split <;> exact ⟨rfl, [], rfl, List.nil_sublist _⟩
  | write j num =>
    simp only [Pipe.send, Pipe.write]
    split <;> exact ⟨rfl, [], rfl, List.nil_sublist _⟩
  | finish j =>
    simp only [Pipe.send, Pipe.finish]
    split
    · split <;> exact ⟨rfl, [], rfl, List.nil_sublist _⟩
    · exact ⟨rfl, [], rfl, List.nil_sublist _⟩
  | abandon j =>
    simp only [Pipe.send, Pipe.abandon]
    split <;> exact ⟨rfl, [], rfl, List.nil_sublist _⟩

/-- What a step of the receiver adds to the packets handed on. -/
theorem Pipe.receive_logs (side : Side) (model : UdpSessions (List UInt8)) (self : Pipe) (a : ReceiveStep) :
    (self.receive b side model a).2.sends = self.sends ∧
      ∃ new, (self.receive b side model a).2.delivered = new ++ self.delivered := by
  cases a with
  | loseDatagram i => exact ⟨rfl, [], rfl⟩
  | drop i => exact ⟨rfl, [], rfl⟩
  | reset i => exact ⟨rfl, [], rfl⟩
  | collectGarbage now timeout => exact ⟨rfl, [], rfl⟩
  | acceptDatagram i =>
    simp only [Pipe.receive, Pipe.acceptDatagram]
    split
    · exact ⟨rfl, [], rfl⟩
    · split <;> exact ⟨rfl, [], rfl⟩
  | accept i now =>
    simp only [Pipe.receive, Pipe.accept]
    split
    · exact ⟨rfl, [], rfl⟩
    · exact ⟨rfl, _, rfl⟩
  | pollHeader i meets =>
    simp only [Pipe.receive, Pipe.pollHeader]
    split
    · split_ifs
      · split <;> exact ⟨rfl, [], rfl⟩
      · exact ⟨rfl, [], rfl⟩
    · exact ⟨rfl, [], rfl⟩
  | pollPayload i meets now =>
    simp only [Pipe.receive, Pipe.pollPayload]
    split
    · split_ifs
      · split
        · exact ⟨rfl, _, rfl⟩
        · exact ⟨rfl, [], rfl⟩
        · exact ⟨rfl, [], rfl⟩
      · exact ⟨rfl, [], rfl⟩
    · exact ⟨rfl, [], rfl⟩

/-- The packet that a step sends to a side. -/
def LinkStep.deliveryTo (side : Side) : LinkStep σ → Option Delivery
  | .send sender a => if sender.other = side then a.delivery else none
  | .receive _ _ => none

theorem LinkStep.deliveryTo_eq_none {a : LinkStep σ} (h : a.sendsPacket = false) (side : Side) :
    a.deliveryTo side = none := by
  cases a with
  | receive receiver a => rfl
  | send sender a =>
    have hnone : a.delivery = none := by
      cases a with
      | packetNative conn pkt addr assocId => cases h
      | packetQuic pkt addr assocId => cases h
      | _ => rfl
    rw [deliveryTo, hnone, ite_self]

/-- What a step of the link adds in either direction. -/
theorem Link.step_logs (q : Datagrams b σ) (c : Link) (a : LinkStep σ) (side : Side) :
    (∃ new, ((c.step q a).pipe side).delivered = new ++ (c.pipe side).delivered) ∧
      ∃ new, ((c.step q a).pipe side).sends = new ++ (c.pipe side).sends ∧
        (new.map Quinn.delivered).Sublist (a.deliveryTo side).toList := by
  cases a with
  | send sender a =>
    simp only [Link.step, Link.put, LinkStep.deliveryTo]
    by_cases hside : side = sender.other
    · subst hside
      rw [Function.update_self, if_pos rfl]
      have h := Pipe.send_logs q sender (c.model sender) (c.pipe sender.other) a
      exact ⟨⟨[], h.1⟩, h.2⟩
    · rw [Function.update_of_ne hside]
      exact ⟨⟨[], rfl⟩, [], rfl, List.nil_sublist _⟩
  | receive receiver a =>
    simp only [Link.step, Link.put]
    by_cases hside : side = receiver
    · subst hside
      rw [Function.update_self]
      have h := Pipe.receive_logs (b := b) side (c.model side) (c.pipe side) a
      exact ⟨h.2, [], h.1, List.nil_sublist _⟩
    · rw [Function.update_of_ne hside]
      exact ⟨⟨[], rfl⟩, [], rfl, List.nil_sublist _⟩

end Quinn

theorem newly_append {α : Type} (new before : List α) : newly before (new ++ before) = new := by
  rw [newly, List.length_append, Nat.add_sub_cancel, List.take_left]

/-! ### The ids -/

/-- Every entry of the table is a session of its association. -/
def Server.UdpSessions.Bound (s : Server.UdpSessions) : Prop :=
  ∀ assocId x, s.table.get assocId = some x → s.assocOf x = some assocId

section

open Server

variable {s s' : Server.UdpSessions} {a : UdpStep} {assocId : UInt16} {x : WeakSession}

theorem created_ids (he : Server.Effect s a s') :
    ∃ ids, s'.created.map UdpSession.assocId = s.created.map UdpSession.assocId ++ ids := by
  have hsame : ∀ (y : ℕ) (f : UdpSession → UdpSession), (∀ u, (f u).assocId = u.assocId) →
      ∃ ids, (s.created.modify y f).map UdpSession.assocId = s.created.map UdpSession.assocId ++ ids := by
    intro y f hf
    refine ⟨[], ?_⟩
    rw [Pool.map_modify_same fun u _ => hf u, List.append_nil]
  cases he with
  | created i id waiting => exact ⟨[id], List.map_append⟩
  | dissociated id y => exact hsame y _ fun _ => rfl
  | timedOut y => exact hsame y _ fun _ => rfl
  | left y => exact hsame y _ fun _ => rfl
  | cleaned y => exact hsame y _ fun _ => rfl
  | _ => exact ⟨[], (List.append_nil _).symm⟩

/-- A session keeps its association. -/
theorem assocOf_step (he : Server.Effect s a s') (h : s.assocOf x = some assocId) :
    s'.assocOf x = some assocId := by
  obtain ⟨ids, hids⟩ := created_ids he
  unfold UdpSessions.assocOf at h ⊢
  rw [← List.getElem?_map] at h ⊢
  rw [hids, List.getElem?_append_left (Pool.lt_of_eq_some h)]
  exact h

theorem bound_step (he : Server.Effect s a s') (h : s.Bound) : s'.Bound := by
  intro assocId x hx
  refine (?_ : s.table.get assocId = some x ∨ _).elim (fun hold => assocOf_step he (h assocId x hold)) id
  cases he with
  | created i id waiting =>
    rw [Table.get_insert] at hx
    split_ifs at hx with heq
    · cases hx
      right
      subst heq
      simp [UdpSessions.assocOf, Server.UdpSession.new]
    · exact .inl hx
  | dissociated id y =>
    rw [Table.get_remove] at hx
    split_ifs at hx
    exact .inl hx
  | cleaned y u hy =>
    rw [Table.get_remove] at hx
    split_ifs at hx
    exact .inl hx
  | _ => exact .inl hx

/-- The second half of `handle_packet` takes one out of those that wait, and goes on with
the entry of its association. -/
theorem entry_spec {i : ℕ} (hi : s.waiting[i]? = some assocId) (bound : Bool) :
    (s.entry i bound).1.waiting = s.waiting.eraseIdx i ∧
      ∀ x, (s.entry i bound).2 = some x → (s.entry i bound).1.table.get assocId = some x := by
  simp only [Server.UdpSessions.entry, hi]
  cases hget : s.table.get assocId with
  | some session =>
    refine ⟨rfl, fun x hx => ?_⟩
    cases hx
    exact hget
  | none =>
    cases bound with
    | false => exact ⟨rfl, fun x hx => by cases hx⟩
    | true =>
      refine ⟨rfl, fun x hx => ?_⟩
      cases hx
      exact Table.get_insert_self s.table assocId s.created.length

end

/-- Every entry of the table is an association with its id. -/
def Client.Socks5.Bound (s : Socks5) : Prop :=
  ∀ assocId k, s.udpSessions.get assocId = some k → s.assocOf k = some assocId

section

open Client

variable {s s' : Socks5} {a : Socks5Step} {o : Outcome Empty Unit} {assocId : UInt16} {k : ℕ}

theorem association_ids (he : Client.Socks5Effect s a s' o) :
    ∃ ids, s'.associations.map Association.assocId = s.associations.map Association.assocId ++ ids := by
  have hsame : ∀ (k : ℕ) (stage : Stage), ∃ ids, (s.enter k stage).associations.map Association.assocId =
      s.associations.map Association.assocId ++ ids := by
    intro k stage
    refine ⟨[], (Pool.map_modify_same ?_).trans (List.append_nil _).symm⟩
    exact fun _ _ => rfl
  cases he with
  | associated => exact ⟨[_], List.map_append⟩
  | failed k => exact hsame k _
  | inserted k => exact hsame k _
  | removed k => exact hsame k _
  | panicked k => exact hsame k _
  | idle => exact ⟨[], (List.append_nil _).symm⟩

/-- An association keeps its id. -/
theorem socks5_assocOf_step (he : Client.Socks5Effect s a s' o) (h : s.assocOf k = some assocId) :
    s'.assocOf k = some assocId := by
  obtain ⟨ids, hids⟩ := association_ids he
  unfold Socks5.assocOf at h ⊢
  rw [← List.getElem?_map] at h ⊢
  rw [hids, List.getElem?_append_left (Pool.lt_of_eq_some h)]
  exact h

theorem socks5_bound_step (he : Client.Socks5Effect s a s' o) (h : s.Bound) : s'.Bound := by
  intro assocId k hk
  refine (?_ : s.udpSessions.get assocId = some k ∨ s.assocOf k = some assocId).elim
    (fun hold => socks5_assocOf_step he (h assocId k hold)) (socks5_assocOf_step he)
  cases he with
  | inserted k' id entry =>
    rw [Table.get_insert] at hk
    split_ifs at hk with heq
    · cases hk
      subst heq
      exact .inr (congrArg (Option.map Association.assocId) entry)
    · exact .inl hk
  | removed k' session id entry =>
    rw [Table.get_remove] at hk
    split_ifs at hk
    exact .inl hk
  | _ => exact .inl hk

end

/-! ### The relay -/

namespace Tunnel

variable {b : Build} {σ : Type} {q : Datagrams b σ} {cfg : SocketConfig}

/-- All that a step can do. -/
inductive Effect (q : Datagrams b σ) (cfg : SocketConfig) (s : Tunnel) : TunnelStep σ → Tunnel → Prop
  | same (a : TunnelStep σ) : Effect q cfg s a s
  | link (a : LinkStep σ) : a.sendsPacket = false → Effect q cfg s (.link a) (s.onLink q a)
  | socks5 (a : Socks5Step) : Effect q cfg s (.socks5 a) { s with socks5 := (s.socks5.step a).1 }
  | recvApp {k : ℕ} (packet : UdpPacket) (a : TunnelStep σ) (hk : s.socks5.assocOf k = some packet.assocId) :
      Effect q cfg s a
        { s with forwards := packet :: s.forwards, fromApps := (k, packet) :: s.fromApps }
  | forward {i : ℕ} {packet : UdpPacket} (mode : UdpRelayMode) (conn : σ) (hi : s.forwards[i]? = some packet) :
      Effect q cfg s (.forward i mode conn)
        ({ s with forwards := s.forwards.eraseIdx i }.onLink q (packet.send .client conn mode))
  | dropForward (a : TunnelStep σ) (i : ℕ) : Effect q cfg s a { s with forwards := s.forwards.eraseIdx i }
  | sendApp {i k : ℕ} {packet : Delivery} (a : TunnelStep σ) (hi : s.arrivals[i]? = some packet)
      (hk : s.socks5.udpSessions.get packet.2.2 = some k) :
      Effect q cfg s a
        { s with arrivals := s.arrivals.eraseIdx i, toApps := (k, packet) :: s.toApps }
  | dropArrival (a : TunnelStep σ) (i : ℕ) : Effect q cfg s a { s with arrivals := s.arrivals.eraseIdx i }
  | session (a : TunnelStep σ) (a' : UdpStep) (hw : (s.sessions.step a').1.waiting = s.sessions.waiting) :
      Effect q cfg s a { s with sessions := (s.sessions.step a').1 }
  | waits {x : ℕ} {packet : Delivery} {answer : Option (List SocketAddr)} (a : TunnelStep σ)
      (hx : s.handlers[x]? = some ⟨packet, .accepted, answer⟩) :
      Effect q cfg s a
        ({ s with
            sessions := { s.sessions with waiting := s.sessions.waiting ++ [packet.2.2] }
            waiting := s.waiting ++ [x] }.goOn x .waiting)
  | found {x session : ℕ} {packet : Delivery} {answer : Option (List SocketAddr)} (a : TunnelStep σ)
      (hx : s.handlers[x]? = some ⟨packet, .accepted, answer⟩)
      (hget : s.sessions.table.get packet.2.2 = some session) :
      Effect q cfg s a (s.goOn x (.located session))
  | entered {i x : ℕ} {packet : Delivery} {answer : Option (List SocketAddr)} (a : TunnelStep σ) (bound : Bool)
      (hi : s.waiting[i]? = some x) (hx : s.handlers[x]? = some ⟨packet, .waiting, answer⟩) {phase : HandlePacket}
      (hphase : (s.sessions.entry i bound).2 = none ∧ phase = .done ∨
        ∃ session, (s.sessions.entry i bound).2 = some session ∧ phase = .located session) :
      Effect q cfg s a
        ({ s with
            sessions := (s.sessions.entry i bound).1
            waiting := s.waiting.eraseIdx i }.goOn x phase)
  | answered {x session : ℕ} {packet : Delivery} {answer : Option (List SocketAddr)}
      (dns : Option (List SocketAddr)) (hx : s.handlers[x]? = some ⟨packet, .located session, answer⟩)
      {phase : HandlePacket} (hphase : phase = .done ∨ ∃ socketAddr,
        (resolveDns dns packet.2.1).bind List.head? = some socketAddr ∧ phase = .resolved session socketAddr) :
      Effect q cfg s (.resolve x dns)
        ({ s with handlers := s.handlers.modify x ({ · with answer := dns }) }.goOn x phase)
  | failed {x : ℕ} {handling : Handling} (a : TunnelStep σ) (hx : s.handlers[x]? = some handling)
      (hphase : handling.phase ≠ .done) : Effect q cfg s a (s.goOn x .done)
  | sent {x session : ℕ} {packet : Delivery} {socketAddr : SocketAddr} {answer : Option (List SocketAddr)}
      (a : TunnelStep σ) (hx : s.handlers[x]? = some ⟨packet, .resolved session socketAddr, answer⟩)
      (hcfg : cfg.hasSocket socketAddr) :
      Effect q cfg s a
        ({ s with toTargets := ⟨x, session, socketAddr, packet⟩ :: s.toTargets }.goOn x .done)
  | recv {session : WeakSession} {packet : UdpPacket} (a : TunnelStep σ)
      (hsession : s.sessions.assocOf session = some packet.assocId) :
      Effect q cfg s a
        { s with relays := packet :: s.relays, fromTargets := (session, packet) :: s.fromTargets }
  | relay {i : ℕ} {packet : UdpPacket} (mode : UdpRelayMode) (conn : σ) (hi : s.relays[i]? = some packet) :
      Effect q cfg s (.relay i mode conn)
        ({ s with relays := s.relays.eraseIdx i }.onLink q (packet.send .server conn mode))
  | dropRelay (a : TunnelStep σ) (i : ℕ) : Effect q cfg s a { s with relays := s.relays.eraseIdx i }

theorem effect (q : Datagrams b σ) (cfg : SocketConfig) (s : Tunnel) (a : TunnelStep σ) :
    Effect q cfg s a (s.step q cfg a) := by
  cases a with
  | link a =>
    simp only [step]
    split_ifs with hsends
    · exact .same _
    · exact .link a (Bool.eq_false_iff.2 hsends)
  | socks5 a => exact .socks5 a
  | recvApp k pkt addr =>
    simp only [step, recvApp]
    split
    · rename_i assocId hk
      exact .recvApp ⟨pkt, addr, assocId⟩ _ (congrArg (Option.map Client.Association.assocId) hk)
    · exact .same _
  | forward i mode conn =>
    simp only [step, forward]
    split
    · exact .forward mode conn ‹_›
    · exact .same _
  | dropForward i => exact .dropForward _ i
  | sendApp i =>
    simp only [step, sendApp]
    split
    · rename_i pkt addr assocId hi
      split
      · exact .sendApp _ hi ‹_›
      · exact .dropArrival _ i
    · exact .same _
  | session a =>
    cases a with
    | lookUp assocId => exact .same _
    | entry i bound => exact .same _
    | dissociate assocId =>
      refine .session _ (.dissociate assocId) ?_
      simp only [Server.UdpSessions.step, Server.UdpSessions.dissociate]
      split <;> rfl
    | timeout x =>
      refine .session _ (.timeout x) ?_
      simp only [Server.UdpSessions.step, Server.UdpSessions.timeout]
      split <;> rfl
    | leave x =>
      refine .session _ (.leave x) ?_
      simp only [Server.UdpSessions.step, Server.UdpSessions.leave]
      split <;> rfl
    | cleanUp x =>
      refine .session _ (.cleanUp x) ?_
      simp only [Server.UdpSessions.step, Server.UdpSessions.cleanUp]
      split <;> rfl
  | lookUp x =>
    simp only [step, lookUp]
    split
    · rename_i pkt addr assocId answer hx
      simp only [Server.UdpSessions.lookUp]
      cases hget : s.sessions.table.get assocId with
      | some session => exact .found _ hx hget
      | none => exact .waits _ hx
    · exact .same _
  | entry i bound =>
    simp only [step, entry]
    split
    · rename_i x hi
      split
      · rename_i hx
        split
        · rename_i sessions session hentry
          have hentered : Effect q cfg s (.entry i bound) _ := .entered _ bound hi hx
            (.inr ⟨session, congrArg Prod.snd hentry, rfl⟩)
          rwa [hentry] at hentered
        · rename_i sessions hentry
          have hentered : Effect q cfg s (.entry i bound) _ := .entered _ bound hi hx
            (.inl ⟨congrArg Prod.snd hentry, rfl⟩)
          rwa [hentry] at hentered
      · exact .same _
    · exact .same _
  | resolve x dns =>
    simp only [step, resolve]
    split
    · rename_i hx
      split
      · rename_i socketAddr hdns
        exact .answered dns hx (.inr ⟨socketAddr, hdns, rfl⟩)
      · exact .answered dns hx (.inl rfl)
    · exact .same _
  | send x ok =>
    simp only [step, send]
    split
    · rename_i hx
      split_ifs with hok
      · exact .sent _ hx (Bool.and_eq_true_iff.1 hok).2
      · exact .failed _ hx fun heq => by cases heq
    · exact .same _
  | recv session pkt srcAddr =>
    simp only [step, recv]
    split
    · rename_i hsession
      split_ifs
      · exact .recv _ (congrArg (Option.map Server.UdpSession.assocId) hsession)
      · exact .same _
    · exact .same _
  | relay i mode conn =>
    simp only [step, relay]
    split
    · exact .relay mode conn ‹_›
    · exact .same _
  | dropRelay i => exact .dropRelay _ i

end Tunnel

end Tuic
