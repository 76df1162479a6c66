import Tuic.Sanity.Fragments
import Tuic.Spec.Network

/-! No packet is assembled from two sends as long as ids are not used again while
something of their last use is left. The invariant gives every key an owner, the
last packet sent under it, to which all that is in flight and stored belongs. -/

namespace Tuic.Model

open Lib Lib.Slots

def PacketTx.key (tx : PacketTx) : Key := (tx.assocId, tx.pktId)

/-- The last packet sent under a key. -/
def owner (sends : List (PacketTx × List UInt8)) (key : Key) : Option (PacketTx × List UInt8) :=
  sends.find? fun x => x.1.key = key

/-- `frag` is one of the fragments that the packet yields. -/
def IsYield (b : Build) (x : PacketTx × List UInt8) (frag : Fragment) : Prop :=
  ∃ n i, x.1.fragCount b x.2.length = .ok n ∧ i < n % 256 ∧ frag = x.1.frag b x.2 (UInt8.ofNat n) i

/-- The buffer has the size that the packet announces, and holds pieces of it. -/
structure FilledBy (b : Build) (x : PacketTx × List UInt8) (p : PacketBuffer (List UInt8)) : Prop where
  total : ∃ n, x.1.fragCount b x.2.length = .ok n ∧ p.fragTotal = UInt8.ofNat n
  piece : ∀ (i : ℕ) data, p.buf[i]? = some (some data) → data = x.1.piece b x.2 i
  addr : ∀ data, p.buf[0]? = some (some data) → p.addr = x.1.addr

section

variable {b : Build} {x : PacketTx × List UInt8} {frag : Fragment} {p : PacketBuffer (List UInt8)}

theorem IsYield.key_eq (h : IsYield b x frag) : PacketRx.key frag.1 = x.1.key := by
  obtain ⟨n, i, -, -, rfl⟩ := h
  rfl

theorem isYield_of_mem (hmem : PacketTx.InMemory b x.1 x.2) (h : frag ∈ (x.1.fragments b x.2).1) :
    IsYield b x frag := by
  rcases PacketTx.fragments_eq hmem with ⟨hnil, -⟩ | ⟨n, k, hn, hk, hfrags, -⟩
  · rw [hnil] at h
    cases h
  · rw [hfrags] at h
    obtain ⟨i, hi, rfl⟩ := List.mem_map.1 h
    exact ⟨n, i, hn, Nat.lt_of_lt_of_le (List.mem_range.1 hi) hk, rfl⟩

theorem filledBy_new (h : IsYield b x frag) (now : Instant) :
    FilledBy b x (.new now frag.1.fragTotal) := by
  obtain ⟨n, i, hn, -, rfl⟩ := h
  refine ⟨⟨n, hn, rfl⟩, fun i data hi => ?_, fun data hi => ?_⟩
  · simp [PacketBuffer.new, List.getElem?_replicate] at hi
  · simp [PacketBuffer.new, List.getElem?_replicate] at hi

theorem FilledBy.fill (h : FilledBy b x p) (hy : IsYield b x frag) (hadm : p.Admits frag.1 frag.2) :
    FilledBy b x (p.fill frag.1 frag.2) := by
  obtain ⟨n, i, hn, hi, rfl⟩ := hy
  obtain ⟨hlt, -⟩ := List.getElem?_eq_some_iff.1 hadm.free
  have hid : (x.1.frag b x.2 (UInt8.ofNat n) i).1.fragId.toNat = i := by
    change (UInt8.ofNat i).toNat = i
    rw [UInt8.toNat_ofNat']
    omega
  rw [hid] at hlt
  have hbuf : (p.fill (x.1.frag b x.2 (UInt8.ofNat n) i).1 (x.1.frag b x.2 (UInt8.ofNat n) i).2).buf =
      p.buf.set i (some (x.1.piece b x.2 i)) := by
    rw [PacketBuffer.fill, hid]
    rfl
  refine ⟨h.total, fun j data hj => ?_, fun data h0 => ?_⟩
  · rw [hbuf] at hj
    by_cases hji : j = i
    · subst hji
      rw [List.getElem?_set_self hlt] at hj
      cases hj
      rfl
    · rw [List.getElem?_set_ne (Ne.symm hji)] at hj
      exact h.piece j data hj
  · rw [hbuf] at h0
    rw [PacketBuffer.fill]
    by_cases hz : i = 0
    · rw [if_pos (uint8_eq_zero.2 (hid.trans hz))]
      simp [PacketTx.frag, hz]
    · rw [if_neg fun hf => hz (hid.symm.trans (uint8_eq_zero.1 hf))]
      rw [List.getElem?_set_ne hz] at h0
      exact h.addr data h0

theorem fragCount_of_countFits {tx : PacketTx} {len n : ℕ} (hlen : len ≤ b.isizeMax)
    (hfits : CountFits (tx.firstSize b) (tx.restSize b) len) (hn : tx.fragCount b len = .ok n) :
    n ≤ 255 ∨ n % 256 = 0 := by
  have hcount := PacketTx.fragCount_eq hlen hn
  split_ifs at hcount with hlt
  · obtain ⟨hpos, rfl⟩ := hcount
    rcases hfits with hlo | ⟨k, hlo, hhi⟩
    · have := Nat.div_lt_iff_lt_mul (x := len - tx.firstSize b) (y := 254) hpos
      omega
    · have hq : (len - tx.firstSize b) / tx.restSize b = 256 * k + 254 := by
        have h1 := Nat.le_div_iff_mul_le (x := 256 * k + 254) (y := len - tx.firstSize b) hpos
        have h2 := Nat.div_lt_iff_lt_mul (x := len - tx.firstSize b) (y := 256 * k + 255) hpos
        omega
      omega
  · omega

/-- A full buffer of a packet with a fitting count holds its whole payload. -/
theorem FilledBy.assemble (h : FilledBy b x p) (hlen : p.buf.length = p.fragTotal.toNat)
    (hpos : 0 < p.buf.length) (hfull : Full p.buf) (hmem : x.2.length ≤ b.isizeMax)
    (hfits : CountFits (x.1.firstSize b) (x.1.restSize b) x.2.length) (assocId : UInt16) :
    Assemblable.assemble ⟨p.buf, p.addr, assocId⟩ = .ok (x.2, x.1.addr, assocId) := by
  obtain ⟨n, hn, htotal⟩ := h.total
  have hmod : p.fragTotal.toNat = n % 256 := by rw [htotal, UInt8.toNat_ofNat']
  obtain ⟨-, hcut⟩ := PacketTx.cut_fragCount hmem hn
  have hnmod : n % 256 = n := by
    rcases fragCount_of_countFits hmem hfits hn with hle | hz
    · exact Nat.mod_eq_of_lt (by omega)
    · omega
  have hbuf : p.buf = ((List.range n).map (x.1.piece b x.2)).map some := by
    apply List.ext_getElem?
    intro i
    by_cases hi : i < p.buf.length
    · obtain ⟨data, hdata⟩ := Option.isSome_iff_exists.1 (hfull _ (List.getElem_mem hi))
      have hslot : p.buf[i]? = some (some data) := by rw [List.getElem?_eq_getElem hi, hdata]
      have hin : i < n := by omega
      rw [hslot, h.piece i data hslot]
      simp [hin]
    · have hin : n ≤ i := by omega
      rw [List.getElem?_eq_none (Nat.not_lt.1 hi), List.getElem?_eq_none (by simpa using hin)]
  obtain ⟨data, hzero⟩ : ∃ data, p.buf[0]? = some (some data) := by
    obtain ⟨data, hdata⟩ := Option.isSome_iff_exists.1 (hfull _ (List.getElem_mem hpos))
    exact ⟨data, by rw [List.getElem?_eq_getElem hpos, hdata]⟩
  have hpayload : ((List.range n).map (x.1.piece b x.2)).flatMap asRef = x.2 := by
    have := PacketTx.flatMap_piece b x.1 x.2 n
    rw [hcut, List.take_length] at this
    rw [List.flatMap_map]
    exact this
  simp only [Assemblable.assemble, hbuf, unwrapAll_map_some, Outcome.ok_bind, Outcome.pure_eq, hpayload,
    h.addr data hzero]

end

/-! ### The invariant -/

/-- What is in flight and stored under a key belongs to the owner of the key, and
what was delivered was sent. -/
structure Network.Owned (b : Build) (s : Network) : Prop where
  wf : s.receiver.buffers.WF
  flight : ∀ frag, .fragment frag ∈ s.flight →
    ∃ x, owner s.sends (PacketRx.key frag.1) = some x ∧ IsYield b x frag
  buffers : ∀ key p, s.receiver.buffers.get key = some p →
    ∃ x, owner s.sends key = some x ∧ FilledBy b x p
  sends : ∀ x ∈ s.sends, PacketTx.InMemory b x.1 x.2 ∧
    CountFits (x.1.firstSize b) (x.1.restSize b) x.2.length
  delivered : ∀ payload addr assocId, (payload, addr, assocId) ∈ s.delivered →
    ∃ tx, (tx, payload) ∈ s.sends ∧ tx.assocId = assocId ∧ tx.addr = addr

theorem owner_mem {sends : List (PacketTx × List UInt8)} {key : Key} {x : PacketTx × List UInt8}
    (h : owner sends key = some x) : x ∈ sends ∧ x.1.key = key := by
  have hkey := List.find?_some h
  exact ⟨List.mem_of_find?_eq_some h, by simpa using hkey⟩

theorem owner_cons (x : PacketTx × List UInt8) (sends : List (PacketTx × List UInt8)) (key : Key) :
    owner (x :: sends) key = if x.1.key = key then some x else owner sends key := by
  simp only [owner, List.find?_cons]
  split_ifs with h <;> simp [h]

variable {b : Build}

theorem owned_init : Network.Owned b .init where
  wf := empty_wf
  flight := fun _ h => nomatch h
  buffers := fun _ _ h => nomatch h
  sends := fun _ h => nomatch h
  delivered := fun _ _ _ h => nomatch h

/-- Less in flight and fewer buffers keep the invariant. -/
theorem Network.Owned.mono {s s' : Network} (h : s.Owned b) (hsends : s'.sends = s.sends)
    (hdel : s'.delivered = s.delivered)
    (hflight : ∀ frag, .fragment frag ∈ s'.flight → .fragment frag ∈ s.flight)
    (hbuf : ∀ key p, s'.receiver.buffers.get key = some p → s.receiver.buffers.get key = some p) :
    s'.Owned b := by
  refine ⟨fun key p hp => h.wf key p (hbuf key p hp), ?_, ?_, ?_, ?_⟩
  · rw [hsends]
    exact fun frag hf => h.flight frag (hflight frag hf)
  · rw [hsends]
    exact fun key p hp => h.buffers key p (hbuf key p hp)
  · rw [hsends]
    exact h.sends
  · rw [hsends, hdel]
    exact h.delivered

theorem sendPacket_tx (s : UdpSessions (List UInt8)) (assocId : UInt16) (addr : Address) (max : ℕ) :
    (s.sendPacket assocId addr max).2 = ⟨assocId, s.nextPktId assocId, addr, max⟩ := by
  unfold UdpSessions.sendPacket UdpSessions.entry UdpSessions.nextPktId
  cases s.sessions.get assocId <;> rfl

theorem Network.Owned.send {s : Network} (h : s.Owned b) {assocId : UInt16} {addr : Address}
    {maxPktSize : b.Usize} {payload : b.Slice}
    (hsafe : Action.Safe s (.send assocId addr maxPktSize payload)) :
    (s.step b (.send assocId addr maxPktSize payload)).Owned b := by
  obtain ⟨⟨hflight, hbuf⟩, hfits⟩ := hsafe
  simp only [Network.step, sendPacket_tx]
  generalize htx : (⟨assocId, s.sender.nextPktId assocId, addr, maxPktSize⟩ : PacketTx) = tx
  have hkey : tx.key = (assocId, s.sender.nextPktId assocId) := by rw [← htx]; rfl
  have hmem : PacketTx.InMemory b tx payload := ⟨payload.2, by rw [← htx]; exact maxPktSize.2⟩
  have hown : ∀ key, key ≠ tx.key → owner ((tx, payload.1) :: s.sends) key = owner s.sends key := by
    intro key hne
    rw [owner_cons, if_neg (Ne.symm hne)]
  refine ⟨h.wf, fun frag hf => ?_, fun key p hp => ?_, fun x hx => ?_, fun pl ad as hd => ?_⟩
  · rcases List.mem_append.1 hf with hf | hf
    · obtain ⟨x, hx, hy⟩ := h.flight frag hf
      exact ⟨x, (hown _ (hkey ▸ hflight frag hf)).trans hx, hy⟩
    · obtain ⟨frag', hmem', heq⟩ := List.mem_map.1 hf
      cases heq
      have hy : IsYield b (tx, payload.1) frag := isYield_of_mem hmem hmem'
      refine ⟨(tx, payload.1), ?_, hy⟩
      rw [owner_cons, if_pos hy.key_eq.symm]
  · obtain ⟨x, hx, hfill⟩ := h.buffers key p hp
    refine ⟨x, (hown key fun heq => ?_).trans hx, hfill⟩
    rw [heq, hkey, hbuf] at hp
    cases hp
  · rcases List.mem_cons.1 hx with rfl | hx
    · refine ⟨hmem, ?_⟩
      rw [← htx]
      exact hfits
    · exact h.sends x hx
  · obtain ⟨tx', hmem', heq⟩ := h.delivered pl ad as hd
    exact ⟨tx', List.mem_cons_of_mem _ hmem', heq⟩

theorem delivery_eq_some {res : Inserted (List UInt8)} {out : List UInt8 × Address × UInt16}
    (h : (Answer.assembled res).delivery = some out) :
    ∃ asm, res = .ok (some asm) ∧ asm.assemble = .ok out := by
  rcases res with (_ | asm) | e | p
  · cases h
  · refine ⟨asm, rfl, ?_⟩
    simp only [Answer.delivery] at h
    split at h
    · rename_i res hres
      rw [hres, Option.some.inj h]
    · cases h
  · cases h
  · cases h

section

variable {t : Buffers (List UInt8)} {sends : List (PacketTx × List UInt8)} {now : Instant}
  {frag : Fragment} {x : PacketTx × List UInt8}

theorem current_filledBy (now : Instant)
    (hbufs : ∀ key p, t.get key = some p → ∃ x, owner sends key = some x ∧ FilledBy b x p)
    (hx : owner sends (PacketRx.key frag.1) = some x) (hy : IsYield b x frag) :
    FilledBy b x (t.current now frag.1) := by
  unfold Buffers.current
  cases hp : t.get (PacketRx.key frag.1) with
  | none => exact filledBy_new hy now
  | some p =>
    obtain ⟨x', hx', hfill⟩ := hbufs _ p hp
    rw [hx] at hx'
    cases hx'
    exact hfill

/-- A fragment of the owner of its key leaves all buffers with their owners. -/
theorem assemble_filledBy (hwf : t.WF)
    (hbufs : ∀ key p, t.get key = some p → ∃ x, owner sends key = some x ∧ FilledBy b x p)
    (hx : owner sends (PacketRx.key frag.1) = some x) (hy : IsYield b x frag) (key : Key)
    (p : PacketBuffer (List UInt8)) (hp : (t.assemble b now frag.1 frag.2).1.get key = some p) :
    ∃ x, owner sends key = some x ∧ FilledBy b x p := by
  have hcur := current_filledBy now hbufs hx hy
  rcases get_assemble hwf hp with ⟨-, hold⟩ | ⟨rfl, ⟨hadm, -, rfl⟩ | ⟨-, rfl⟩⟩
  · exact hbufs key p hold
  · exact ⟨x, hx, hcur.fill hy hadm⟩
  · exact ⟨x, hx, hcur⟩

/-- What it completes is the packet of the owner. -/
theorem assemble_delivers (hwf : t.WF)
    (hbufs : ∀ key p, t.get key = some p → ∃ x, owner sends key = some x ∧ FilledBy b x p)
    (hx : owner sends (PacketRx.key frag.1) = some x) (hy : IsYield b x frag)
    (hmem : x.2.length ≤ b.isizeMax)
    (hfits : CountFits (x.1.firstSize b) (x.1.restSize b) x.2.length) {asm : Assemblable (List UInt8)}
    (h : (t.assemble b now frag.1 frag.2).2 = .ok (some asm)) :
    asm.assemble = .ok (x.2, x.1.addr, x.1.assocId) := by
  obtain ⟨hadm, hfull, -, rfl⟩ := assemble_complete hwf h
  have hcur := current_filledBy now hbufs hx hy
  have hlt := (List.getElem?_eq_some_iff.1 hadm.free).1
  have hlen : ((t.current now frag.1).fill frag.1 frag.2).buf.length =
      (t.current now frag.1).buf.length := by simp [PacketBuffer.fill]
  have hassoc : frag.1.assocId = x.1.assocId := congrArg Prod.fst hy.key_eq
  have hasm := (hcur.fill hy hadm).assemble (hlen.trans (hwf.current now frag.1).len) (by omega) hfull hmem
    hfits frag.1.assocId
  rwa [hassoc] at hasm ⊢

end

/-- A fragment of the owner arrives. -/
theorem Network.Owned.fragment {s : Network} (h : s.Owned b) (now : Instant) {frag : Fragment}
    {x : PacketTx × List UInt8} (hx : owner s.sends (PacketRx.key frag.1) = some x)
    (hy : IsYield b x frag) : (s.handle b now (.fragment frag)).Owned b := by
  obtain ⟨hmem, hfits⟩ := h.sends x (owner_mem hx).1
  have hbuf : (s.receiver.recvPacketUnrestricted frag.1).1.buffers = s.receiver.buffers :=
    entry_buffers s.receiver frag.1.assocId
  obtain ⟨hstep, hres⟩ := assemble_buffers b now (s.receiver.recvPacketUnrestricted frag.1).1 frag.1 frag.2
  rw [hbuf] at hstep hres
  have hwf : Buffers.WF (s.receiver.buffers.assemble b now frag.1 frag.2).1 := h.wf.assemble
  refine ⟨hstep ▸ hwf, h.flight, fun key p hp => ?_, h.sends, fun payload addr assocId hd => ?_⟩
  · exact assemble_filledBy h.wf h.buffers hx hy key p (hstep ▸ hp)
  · rcases List.mem_append.1 hd with hd | hd
    · obtain ⟨asm, hasm, hok⟩ := delivery_eq_some (Option.mem_toList.1 hd)
      have hdel := assemble_delivers h.wf h.buffers hx hy hmem.payload hfits (hres ▸ hasm)
      rw [hok] at hdel
      cases hdel
      exact ⟨x.1, (owner_mem hx).1, rfl, rfl⟩
    · exact h.delivered payload addr assocId hd

theorem Network.Owned.handle {s : Network} (h : s.Owned b) (now : Instant) {wire : Wire}
    (hwire : ∀ frag, wire = .fragment frag →
      ∃ x, owner s.sends (PacketRx.key frag.1) = some x ∧ IsYield b x frag) :
    (s.handle b now wire).Owned b := by
  cases wire with
  | fragment frag =>
    obtain ⟨x, hx, hy⟩ := hwire frag rfl
    exact h.fragment now hx hy
  | dissociate dissoc =>
    refine h.mono rfl rfl (fun _ hf => hf) fun key p hp => ?_
    have hrem : (s.receiver.recvDissociate dissoc).1.buffers = s.receiver.buffers.dissociate dissoc.assocId :=
      remove_buffers s.receiver dissoc.assocId
    change (s.receiver.recvDissociate dissoc).1.buffers.get key = some p at hp
    rw [hrem, Buffers.get_dissociate] at hp
    split_ifs at hp
    exact hp

theorem Network.Owned.step {s : Network} (h : s.Owned b) {a : Action b} (hsafe : a.Safe s) :
    (s.step b a).Owned b := by
  cases a with
  | send assocId addr maxPktSize payload => exact h.send hsafe
  | sendDissociate assocId =>
    refine h.mono rfl rfl (fun frag hf => ?_) fun _ _ hp => hp
    rcases List.mem_append.1 hf with hf | hf
    · exact hf
    · cases List.mem_singleton.1 hf
  | arrive i now =>
    have hless : ({ s with flight := s.flight.eraseIdx i } : Network).Owned b :=
      h.mono rfl rfl (fun _ hf => List.mem_of_mem_eraseIdx hf) fun _ _ hp => hp
    simp only [Network.step]
    cases hw : s.flight[i]? with
    | none => exact h
    | some wire =>
      refine hless.handle now fun frag heq => ?_
      exact h.flight frag (heq ▸ List.mem_of_getElem? hw)
  | lose i => exact h.mono rfl rfl (fun _ hf => List.mem_of_mem_eraseIdx hf) fun _ _ hp => hp
  | collectGarbage now timeout =>
    refine h.mono rfl rfl (fun _ hf => hf) fun key p hp => ?_
    change (s.receiver.collectGarbage now timeout).buffers.get key = some p at hp
    rw [collectGarbage_buffers] at hp
    exact (get_collectGarbage.1 hp).1

/-- In every run that sends packets only under unused keys and with fitting
counts, every payload that was delivered on an association is the payload of one
packet that was sent on it. -/
theorem delivered_was_sent (b : Build) (actions : List (Action b))
    (hsafe : ∀ (i : ℕ) a, actions[i]? = some a → a.Safe ((network b).stateAt actions i)) :
    ∀ n ≤ actions.length, ∀ payload addr assocId,
      (payload, addr, assocId) ∈ ((network b).stateAt actions n).delivered →
      ∃ tx, (tx, payload) ∈ ((network b).stateAt actions n).sends ∧ tx.assocId = assocId ∧
        tx.addr = addr := by
  intro n hn
  have hrun := Machine.run_invariant (m := network b) actions (P := fun _ s => s.Owned b)
    owned_init (fun i a ha h => h.step (hsafe i a ha)) n hn
  exact hrun.delivered

/-- The address of the examples. -/
def localhost : Address := .socketAddress (.v4 ⟨127, 0, 0, 1⟩ 53)

/-- Two fragments that arrive in the other order. -/
def swapped : List (Action .release64) :=
  [.send 1 localhost ⟨20, by decide⟩ ⟨[1, 2, 3, 4], by decide⟩, .arrive 1 0, .arrive 0 5]

theorem swapped_safe (i : ℕ) (a : Action .release64) (h : swapped[i]? = some a) :
    a.Safe ((network .release64).stateAt swapped i) := by
  rcases i with _ | _ | _ | i <;> cases h
  · exact ⟨⟨nofun, rfl⟩, .inl (by decide)⟩
  · exact trivial
  · exact trivial

theorem swapped_was_sent :
    ∃ tx, (tx, [1, 2, 3, 4]) ∈ ((network .release64).stateAt swapped 3).sends ∧ tx.assocId = 1 ∧
      tx.addr = localhost :=
  delivered_was_sent .release64 swapped swapped_safe 3 (by decide) [1, 2, 3, 4] localhost 1
    (by decide +kernel)

/-- The first fragment of a packet arrives; its association ends and is used again,
and packet 0 of the new session overtakes the `Dissociate`. -/
def reused : List (Action .release64) :=
  [.send 1 localhost ⟨20, by decide⟩ ⟨[1, 2, 3, 4], by decide⟩, .arrive 0 0, .sendDissociate 1,
    .send 1 localhost ⟨20, by decide⟩ ⟨[5, 6, 7, 8], by decide⟩, .arrive 3 1]

theorem reused_mixes :
    ((network .release64).stateAt reused 5).delivered = [([1, 2, 3, 8], localhost, 1)] ∧
      ¬ ∃ tx, (tx, [1, 2, 3, 8]) ∈ ((network .release64).stateAt reused 5).sends := by
  have hsends : ((network .release64).stateAt reused 5).sends =
      [(⟨1, 0, localhost, 20⟩, [5, 6, 7, 8]), (⟨1, 0, localhost, 20⟩, [1, 2, 3, 4])] := rfl
  refine ⟨rfl, ?_⟩
  rw [hsends]
  simp

end Tuic.Model
