import Mathlib.Data.Option.Basic
import Tuic.Spec.Socks5Session

/-! Whose datagrams an association relays: those of the first source it connects to,
whatever was wrong with the datagram that came from there. -/

namespace Tuic

open Lib

/-! ### Mapped addresses -/

theorem Ipv6Addr.toIpv4Mapped_eq_some {ip : Ipv6Addr} {ip' : Ipv4Addr} :
    ip.toIpv4Mapped = some ip' ↔ ip = ip'.toIpv6Mapped := by
  unfold toIpv4Mapped Ipv4Addr.toIpv6Mapped
  constructor
  · intro h
    split_ifs at h with hmapped
    rw [← Option.some.inj h, ofBeBytes_bytes, ofBeBytes_bytes]
    exact hmapped
  · rintro rfl
    have hg := beBytes_ofBeBytes ip'.a ip'.b
    have hh := beBytes_ofBeBytes ip'.c ip'.d
    simp only [beBytes, List.cons.injEq, and_true] at hg hh
    simp only [if_true, hg.1, hg.2, hh.1, hh.2]

/-- Two forms have an IPv4 form without the mapping. -/
theorem SocketAddr.canon_eq_v4 {s : SocketAddr} (hs : s.Plain) {ip : Ipv4Addr} {port : UInt16} :
    s.canon = .v4 ip port ↔ s = .v4 ip port ∨ s = .v6 ip.toIpv6Mapped port 0 0 := by
  cases s with
  | v4 ip' port' => simp [canon]
  | v6 ip' port' flow scope =>
    obtain ⟨rfl, rfl⟩ := hs
    simp only [canon, reduceCtorEq, false_or, SocketAddr.v6.injEq, and_true]
    rw [← Ipv6Addr.toIpv4Mapped_eq_some]
    cases ip'.toIpv4Mapped <;> simp

namespace Client

open Socks5Session

/-- The comparison of two addresses is the one of their forms without the mapping. -/
theorem comparable_iff {p s : SocketAddr} (hp : p.Plain) (hs : s.Plain) :
    s = comparable p s ↔ s.canon = p.canon := by
  cases p with
  | v4 ip port =>
    cases s with
    | v4 ip' port' => exact Iff.rfl
    | v6 ip' port' flow scope =>
      change _ ↔ _ = SocketAddr.v4 ip port
      rw [SocketAddr.canon_eq_v4 hs]
      simp [comparable]
  | v6 ip port flow scope =>
    cases s with
    | v4 ip' port' => exact Iff.rfl
    | v6 ip' port' flow' scope' =>
      change SocketAddr.v6 ip' port' flow' scope' = SocketAddr.v6 ip port flow scope ↔ _
      constructor
      · exact congrArg SocketAddr.canon
      · intro h
        cases hmap : ip.toIpv4Mapped with
        | some m =>
          have hcanon : (SocketAddr.v6 ip port flow scope).canon = .v4 m port := by
            simp only [SocketAddr.canon, hmap]
          rcases (SocketAddr.canon_eq_v4 hs).1 (h.trans hcanon) with hv4 | hmapped
          · cases hv4
          · rcases (SocketAddr.canon_eq_v4 hp).1 hcanon with hv4 | hmapped'
            · cases hv4
            · exact hmapped.trans hmapped'.symm
        | none =>
          have hcanon : (SocketAddr.v6 ip port flow scope).canon = .v6 ip port flow scope := by
            simp only [SocketAddr.canon, hmap]
          rw [hcanon] at h
          simp only [SocketAddr.canon] at h
          split at h
          · cases h
          · exact h

/-! ### The peer along a run -/

/-- Where the socket is connected to if it is not connected yet. -/
def Arrival.source : Arrival → Option SocketAddr
  | .datagram d true => some d.srcAddr
  | _ => none

theorem recv_peerAddr (s : Socks5Session) (a : Arrival) :
    (s.recv a).1.peerAddr = s.peerAddr.or a.source := by
  rcases s with ⟨_ | p⟩
  · rcases a with _ | ⟨d, _ | _⟩ <;> rfl
  · rcases a with _ | ⟨d, connects⟩
    · rfl
    · simp only [recv]
      split_ifs <;> rfl

section

variable {arrivals : List Arrival}

theorem peerAddr_succ {i : ℕ} {a : Arrival} (ha : arrivals[i]? = some a) :
    (socks5Session.stateAt arrivals (i + 1)).peerAddr =
      (socks5Session.stateAt arrivals i).peerAddr.or a.source := by
  rw [socks5Session.stateAt_succ ha]
  exact recv_peerAddr _ a

/-- Nothing is fixed before the first datagram that the socket can be connected to. -/
theorem peerAddr_before {i : ℕ} (hi : i ≤ arrivals.length)
    (hnone : ∀ j < i, ∀ d, arrivals[j]? ≠ some (.datagram d true)) :
    (socks5Session.stateAt arrivals i).peerAddr = none := by
  refine Machine.run_induction (P := fun k => k ≤ i → (socks5Session.stateAt arrivals k).peerAddr = none)
    (fun _ => rfl) (fun k a _ ha ih hk => ?_) (Nat.zero_le i) hi (Nat.le_refl i)
  rw [peerAddr_succ ha, ih (Nat.le_of_succ_le hk)]
  rcases a with _ | ⟨d, _ | _⟩
  · rfl
  · rfl
  · exact absurd ha (hnone k hk d)

theorem Connects.before {i : ℕ} {d : Datagram} (h : Connects arrivals i d) :
    (socks5Session.stateAt arrivals i).peerAddr = none :=
  peerAddr_before (Nat.le_of_lt (List.getElem?_eq_some_iff.1 h.1).1) h.2

/-- And that datagram fixes the peer for good. -/
theorem Connects.after {i j : ℕ} {d : Datagram} (h : Connects arrivals i d) (hij : i < j)
    (hj : j ≤ arrivals.length) : (socks5Session.stateAt arrivals j).peerAddr = some d.srcAddr := by
  have hfirst : (socks5Session.stateAt arrivals (i + 1)).peerAddr = some d.srcAddr := by
    rw [peerAddr_succ h.1, h.before]
    rfl
  refine Machine.run_induction (P := fun k => (socks5Session.stateAt arrivals k).peerAddr = some d.srcAddr)
    hfirst (fun k a _ ha ih => ?_) hij hj
  rw [peerAddr_succ ha, ih]
  rfl

/-- It is fixed behind every such datagram. -/
theorem peerAddr_ne_none {i j : ℕ} {d : Datagram} (hd : arrivals[i]? = some (.datagram d true)) (hij : i < j)
    (hj : j ≤ arrivals.length) : (socks5Session.stateAt arrivals j).peerAddr ≠ none := by
  refine Machine.run_induction (P := fun k => (socks5Session.stateAt arrivals k).peerAddr ≠ none)
    ?_ (fun k a _ ha ih => ?_) hij hj
  · rw [peerAddr_succ hd]
    simp [Arrival.source]
  · rw [peerAddr_succ ha]
    simp [ih]

/-- A datagram that changes the peer is the first of them. -/
theorem connects_of_ne {i : ℕ} {a : Arrival} (ha : arrivals[i]? = some a)
    (hne : (socks5Session.stateAt arrivals (i + 1)).peerAddr ≠
      (socks5Session.stateAt arrivals i).peerAddr) : ∃ d, Connects arrivals i d := by
  have hi := (List.getElem?_eq_some_iff.1 ha).1
  rw [peerAddr_succ ha] at hne
  cases hpeer : (socks5Session.stateAt arrivals i).peerAddr with
  | some p => simp [hpeer] at hne
  | none =>
    rw [hpeer] at hne
    rcases a with _ | ⟨d, _ | _⟩
    · exact absurd rfl hne
    · exact absurd rfl hne
    · exact ⟨d, ha, fun j hj d' hd' => peerAddr_ne_none hd' hj (Nat.le_of_lt hi) hpeer⟩

theorem outAt_of_arrival {i : ℕ} {a : Arrival} (ha : arrivals[i]? = some a) :
    socks5Session.outAt arrivals i = some ((socks5Session.stateAt arrivals i).recv a).2 :=
  socks5Session.outAt_eq ha

theorem eq_of_peerAddr {s t : Socks5Session} (h : s.peerAddr = t.peerAddr) : s = t := by
  cases s
  cases t
  exact congrArg Socks5Session.mk h

end

/-- A refused datagram has no effect exactly if the first one that the socket can be
connected to is not a fragment. -/
theorem refusalsIgnored_iff (arrivals : List Arrival) :
    RefusalsIgnored arrivals ↔ ∀ i d, Connects arrivals i d → d.frag = 0 := by
  constructor
  · intro h i d hd
    by_contra hfrag
    have hi := (List.getElem?_eq_some_iff.1 hd.1).1
    have hout : socks5Session.outAt arrivals i = some (.error .fragmented) := by
      rw [outAt_of_arrival hd.1, recv, hd.before]
      simp [checkFrag, hfrag]
    have hpeer := h.peer i _ hout trivial
    rw [hd.after (Nat.lt_succ_self i) hi, hd.before] at hpeer
    cases hpeer
  · intro h
    have hpeer : ∀ i e, socks5Session.outAt arrivals i = some (.error e) → e.Refusal →
        (socks5Session.stateAt arrivals (i + 1)).peerAddr =
          (socks5Session.stateAt arrivals i).peerAddr := by
      intro i e hout hrefusal
      by_contra hne
      obtain ⟨a, ha, -⟩ := socks5Session.outAt_some hout
      obtain ⟨d, hd⟩ := connects_of_ne ha hne
      -- the datagram is returned, not refused
      rw [outAt_of_arrival hd.1, recv, hd.before] at hout
      simp [checkFrag, h i d hd] at hout
    exact ⟨hpeer, fun i e hout hrefusal later => by rw [eq_of_peerAddr (hpeer i e hout hrefusal)]⟩

/-- Where the examples send to. -/
def resolver : Address := .socketAddress (.v4 ⟨9, 9, 9, 9⟩ 53)

/-- A datagram from this host, whose ports can be connected to. -/
def fromPort (port : UInt16) (frag : UInt8) : Arrival :=
  .datagram ⟨.v4 ⟨127, 0, 0, 1⟩ port, frag, resolver, [1]⟩ true

theorem refusalsIgnored_stranger :
    RefusalsIgnored [fromPort 4000 0, fromPort 4001 0, fromPort 4000 1, fromPort 4000 0] := by
  refine (refusalsIgnored_iff [fromPort 4000 0, fromPort 4001 0, fromPort 4000 1, fromPort 4000 0]).2
    fun i d hd => ?_
  rcases i with _ | i
  · cases hd.1
    rfl
  · exact absurd rfl (hd.2 0 (Nat.succ_pos i) _)

/-- A fragment from somewhere else comes first. It is refused, and then so is the
application. -/
theorem refusalsIgnored_not : ¬ RefusalsIgnored [fromPort 4001 1, fromPort 4000 0] ∧
    socks5Session.outAt [fromPort 4001 1, fromPort 4000 0] 0 = some (.error .fragmented) ∧
    socks5Session.outAt [fromPort 4001 1, fromPort 4000 0] 1 =
      some (.error (.invalidSource (.v4 ⟨127, 0, 0, 1⟩ 4000))) ∧
    socks5Session.outAt [fromPort 4000 0] 0 = some (.ok ([1], resolver)) := by
  refine ⟨fun h => ?_, by decide, by decide, by decide⟩
  have hpeer := h.peer 0 .fragmented (by decide) trivial
  revert hpeer
  decide

/-- Once a datagram has fixed the peer, unfragmented ones are returned if and only if
their source is the same address up to the mapping of IPv4 addresses. -/
theorem lockedTo (arrivals : List Arrival)
    (hplain : ∀ d connects, .datagram d connects ∈ arrivals → d.srcAddr.Plain) (i : ℕ) (first : Datagram)
    (hfirst : Connects arrivals i first) (j : ℕ) (hij : i < j) (d : Datagram) (connects : Bool)
    (hd : arrivals[j]? = some (.datagram d connects)) : LockedTo arrivals first.srcAddr j d := by
  have hj := (List.getElem?_eq_some_iff.1 hd).1
  have hpeer := hfirst.after hij (Nat.le_of_lt hj)
  have hsame := comparable_iff (hplain _ _ (List.mem_of_getElem? hfirst.1))
    (hplain _ _ (List.mem_of_getElem? hd))
  have hout : socks5Session.outAt arrivals j =
      some (if d.srcAddr.canon = first.srcAddr.canon then checkFrag d
        else .error (.invalidSource d.srcAddr)) := by
    rw [outAt_of_arrival hd, recv, hpeer]
    by_cases hs : d.srcAddr = comparable first.srcAddr d.srcAddr
    · rw [if_pos (hsame.1 hs)]
      simp only [if_neg (not_not.2 hs)]
    · rw [if_neg (mt hsame.2 hs)]
      simp only [if_pos hs]
  refine ⟨hpeer, fun hfrag => ?_, fun res hres => ?_⟩
  · rw [hout]
    split_ifs with hc
    · simp [checkFrag, hfrag, hc]
    · simp [hc]
  · rw [hout] at hres
    by_contra hc
    rw [if_neg hc] at hres
    cases hres

/-- The peer is an IPv4 address, and the socket reports it as a mapped one later. -/
theorem lockedTo_mapped :
    LockedTo [fromPort 4000 0, .datagram ⟨.v6 ⟨0, 0, 0, 0, 0, 0xffff, 0x7f00, 1⟩ 4000 0 0, 0, resolver, [2]⟩ true]
      (.v4 ⟨127, 0, 0, 1⟩ 4000) 1 ⟨.v6 ⟨0, 0, 0, 0, 0, 0xffff, 0x7f00, 1⟩ 4000 0 0, 0, resolver, [2]⟩ := by
  refine lockedTo _ ?_ 0 ⟨.v4 ⟨127, 0, 0, 1⟩ 4000, 0, resolver, [1]⟩ ⟨rfl, ?_⟩ 1 Nat.one_pos _ true rfl
  · intro d connects hmem
    rcases List.mem_cons.1 hmem with heq | hmem
    · cases heq
      trivial
    · cases List.mem_singleton.1 hmem
      exact ⟨rfl, rfl⟩
  · intro j hj
    cases hj

end Client

end Tuic
