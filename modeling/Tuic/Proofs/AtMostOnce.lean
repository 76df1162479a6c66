import Mathlib.Data.Multiset.MapFold
import Tuic.Proofs.Network
import Tuic.Spec.Channel

/-! No packet is handed on more often than it was sent, and none that was not sent.
The invariant counts, for each key, the sends that are already handed on: the last
one is not among them while something of it is left. -/

namespace Tuic.Model

open Lib Lib.Slots

/-- What a receiver has to hand on of a packet that was sent. -/
def delivery (x : PacketTx × List UInt8) : Delivery := (x.2, x.1.addr, x.1.assocId)

/-- Everything in flight and stored is of the last packet sent under its key, each
of its fragments is there once, and what was handed on was sent as often. -/
structure Channel.Fair (b : Build) (s : Channel) : Prop where
  wf : s.buffers.WF
  flight : ∀ frag, .fragment frag ∈ s.flight →
    ∃ x, owner s.sends (PacketRx.key frag.1) = some x ∧ IsYield b x frag
  buffers : ∀ key p, s.buffers.get key = some p → ∃ x, owner s.sends key = some x ∧ FilledBy b x p
  sends : ∀ x ∈ s.sends, PacketTx.InMemory b x.1 x.2 ∧
    CountFits (x.1.firstSize b) (x.1.restSize b) x.2.length
  once : ∀ frag, s.flight.count (.fragment frag) ≤ 1
  apart : ∀ frag p data, .fragment frag ∈ s.flight → s.buffers.get (PacketRx.key frag.1) = some p →
    p.buf[frag.1.fragId.toNat]? ≠ some (some data)
  delivered : ∃ done : Multiset (PacketTx × List UInt8), done ≤ ↑s.sends ∧
    s.delivered = done.map delivery ∧
    ∀ x, s.Outstanding x.1.key → owner s.sends x.1.key = some x →
      done.count x < Multiset.count x ↑s.sends

section

variable {b : Build} {x y : PacketTx × List UInt8} {frag g : Fragment}

/-- A fragment of a packet is its id. -/
theorem IsYield.eq_of_fragId (hf : IsYield b x frag) (hg : IsYield b x g)
    (hid : frag.1.fragId = g.1.fragId) : frag = g := by
  obtain ⟨n, i, hn, hi, rfl⟩ := hf
  obtain ⟨n', i', hn', hi', rfl⟩ := hg
  obtain rfl := Outcome.ok.inj (hn.symm.trans hn')
  have hmod := congrArg UInt8.toNat hid
  simp only [PacketTx.frag, UInt8.toNat_ofNat'] at hmod
  obtain rfl : i = i' := by omega
  rfl

/-- The fragments of one send are different. -/
theorem fragments_nodup {tx : PacketTx} {payload : List UInt8}
    (hmem : PacketTx.InMemory b tx payload) : (tx.fragments b payload).1.Nodup := by
  rcases PacketTx.fragments_eq hmem with ⟨hnil, -⟩ | ⟨n, k, -, hk, hfrags, -⟩
  · rw [hnil]
    exact List.nodup_nil
  · rw [hfrags]
    refine List.nodup_range.map_on fun i hi j hj heq => ?_
    rw [List.mem_range] at hi hj
    have hid := congrArg (fun frag => UInt8.toNat frag.1.fragId) heq
    simp only [PacketTx.frag, UInt8.toNat_ofNat'] at hid
    omega

/-- What the current buffer of a fragment holds was stored before. -/
theorem current_slot {t : Buffers (List UInt8)} {now : Instant} {pkt : PacketRx} {i : ℕ}
    {data : List UInt8} (h : (t.current now pkt).buf[i]? = some (some data)) :
    ∃ p, t.get pkt.key = some p ∧ p.buf[i]? = some (some data) := by
  unfold Buffers.current at h
  cases hp : t.get pkt.key with
  | some p =>
    rw [hp] at h
    exact ⟨p, rfl, h⟩
  | none =>
    rw [hp] at h
    simp [PacketBuffer.new, List.getElem?_replicate] at h

end

namespace Channel

variable {b : Build} {s s' : Channel}

theorem fair_init : Channel.Fair b .init where
  wf := empty_wf
  flight := fun _ h => absurd h (Multiset.notMem_zero _)
  buffers := fun _ _ h => nomatch h
  sends := fun _ h => nomatch h
  once := fun _ => by simp [init]
  apart := fun _ _ _ h => absurd h (Multiset.notMem_zero _)
  delivered := ⟨0, Multiset.zero_le _, rfl, fun _ _ h => nomatch h⟩

theorem Outstanding.mono (hflight : ∀ frag, .fragment frag ∈ s'.flight → .fragment frag ∈ s.flight)
    (hbuf : ∀ key p, s'.buffers.get key = some p → s.buffers.get key = some p) {key : Key}
    (h : s'.Outstanding key) : s.Outstanding key := by
  rcases h with ⟨frag, hf, hkey⟩ | hp
  · exact .inl ⟨frag, hflight frag hf, hkey⟩
  · obtain ⟨p, hp⟩ := Option.ne_none_iff_exists'.1 hp
    exact .inr (by rw [hbuf key p hp]; nofun)

/-- Less in flight and fewer buffers keep the invariant. -/
theorem Fair.mono (h : s.Fair b) (hsends : s'.sends = s.sends) (hdel : s'.delivered = s.delivered)
    (hcount : ∀ frag, s'.flight.count (.fragment frag) ≤ s.flight.count (.fragment frag))
    (hbuf : ∀ key p, s'.buffers.get key = some p → s.buffers.get key = some p) : s'.Fair b := by
  have hflight : ∀ frag, .fragment frag ∈ s'.flight → .fragment frag ∈ s.flight := fun frag hf =>
    Multiset.count_pos.1 (Nat.lt_of_lt_of_le (Multiset.count_pos.2 hf) (hcount frag))
  obtain ⟨done, hle, hmap, hopen⟩ := h.delivered
  refine ⟨fun key p hp => h.wf key p (hbuf key p hp), ?_, ?_, ?_, fun frag => ?_, ?_, done, ?_, ?_, ?_⟩
  · rw [hsends]
    exact fun frag hf => h.flight frag (hflight frag hf)
  · rw [hsends]
    exact fun key p hp => h.buffers key p (hbuf key p hp)
  · rw [hsends]
    exact h.sends
  · exact Nat.le_trans (hcount frag) (h.once frag)
  · exact fun frag p data hf hp => h.apart frag p data (hflight frag hf) (hbuf _ p hp)
  · rwa [hsends]
  · rwa [hdel]
  · rw [hsends]
    exact fun x hx => hopen x (hx.mono hflight hbuf)

theorem Fair.erase (h : s.Fair b) (wire : Wire) :
    ({ s with flight := s.flight.erase wire } : Channel).Fair b :=
  h.mono rfl rfl (fun _ => Multiset.count_le_of_le _ (Multiset.erase_le _ _)) fun _ _ hp => hp

theorem Fair.dissociate (h : s.Fair b) (assocId : UInt16) :
    ({ s with buffers := s.buffers.dissociate assocId } : Channel).Fair b := by
  refine h.mono rfl rfl (fun _ => Nat.le_refl _) fun key p hp => ?_
  change (s.buffers.dissociate assocId).get key = some p at hp
  rw [Buffers.get_dissociate] at hp
  split_ifs at hp
  exact hp

theorem Fair.send (h : s.Fair b) {tx : PacketTx} {payload : List UInt8}
    (hsafe : ChannelStep.Safe b s (.send tx payload)) : (s.step b (.send tx payload)).Fair b := by
  obtain ⟨hmem, hunused, hfits⟩ := hsafe
  have hown : ∀ key, key ≠ tx.key → owner ((tx, payload) :: s.sends) key = owner s.sends key := by
    intro key hne
    rw [owner_cons, if_neg (Ne.symm hne)]
  have hself : owner ((tx, payload) :: s.sends) tx.key = some (tx, payload) := by
    rw [owner_cons, if_pos rfl]
  -- a fragment in flight is an old one of another key, or a new one
  have hcases : ∀ frag, .fragment frag ∈ (s.step b (.send tx payload)).flight →
      (.fragment frag ∈ s.flight ∧ PacketRx.key frag.1 ≠ tx.key) ∨
        (frag ∈ (tx.fragments b payload).1 ∧ IsYield b (tx, payload) frag) := by
    intro frag hf
    rcases Multiset.mem_add.1 hf with hf | hf
    · exact .inl ⟨hf, fun heq => hunused (.inl ⟨frag, hf, heq⟩)⟩
    · obtain ⟨frag', hfrag, heq⟩ := List.mem_map.1 (Multiset.mem_coe.1 hf)
      cases heq
      exact .inr ⟨hfrag, isYield_of_mem hmem hfrag⟩
  have hbufkey : ∀ key p, s.buffers.get key = some p → key ≠ tx.key := by
    rintro key p hp rfl
    exact hunused (.inr (by rw [show (tx.assocId, tx.pktId) = tx.key from rfl, hp]; nofun))
  obtain ⟨done, hle, hmap, hopen⟩ := h.delivered
  refine ⟨h.wf, fun frag hf => ?_, fun key p hp => ?_, fun x hx => ?_, fun frag => ?_,
    fun frag p data hf hp => ?_, done, ?_, hmap, fun x hx hxown => ?_⟩
  · rcases hcases frag hf with ⟨hold, hne⟩ | ⟨-, hy⟩
    · obtain ⟨x, hx, hy⟩ := h.flight frag hold
      exact ⟨x, (hown _ hne).trans hx, hy⟩
    · refine ⟨(tx, payload), ?_, hy⟩
      rw [hy.key_eq]
      exact hself
  · obtain ⟨x, hx, hfill⟩ := h.buffers key p hp
    exact ⟨x, (hown key (hbufkey key p hp)).trans hx, hfill⟩
  · rcases List.mem_cons.1 hx with rfl | hx
    · exact ⟨hmem, hfits⟩
    · exact h.sends x hx
  · have hnew : ((tx.fragments b payload).1.map Wire.fragment).Nodup :=
      (fragments_nodup hmem).map fun x y (heq : Wire.fragment x = Wire.fragment y) => Wire.fragment.inj heq
    have hcount := Multiset.nodup_iff_count_le_one.1 (Multiset.coe_nodup.2 hnew) (.fragment frag)
    change Multiset.count (Wire.fragment frag)
      (s.flight + (↑((tx.fragments b payload).1.map Wire.fragment) : Multiset Wire)) ≤ 1
    rw [Multiset.count_add]
    by_cases hin : .fragment frag ∈ s.flight
    · -- an old fragment has another key than the new ones
      have hout : Wire.fragment frag ∉ (↑((tx.fragments b payload).1.map Wire.fragment) : Multiset Wire) := by
        intro hmem'
        obtain ⟨frag', hfrag, heq⟩ := List.mem_map.1 (Multiset.mem_coe.1 hmem')
        cases heq
        have hy : IsYield b (tx, payload) frag := isYield_of_mem hmem hfrag
        exact hunused (.inl ⟨frag, hin, hy.key_eq⟩)
      rw [Multiset.count_eq_zero.2 hout]
      exact h.once frag
    · rw [Multiset.count_eq_zero.2 hin, Nat.zero_add]
      exact hcount
  · have hne := hbufkey _ p hp
    rcases hcases frag hf with ⟨hold, -⟩ | ⟨-, hy⟩
    · exact h.apart frag p data hold hp
    · exact absurd hy.key_eq hne
  · exact le_trans hle (Multiset.le_cons_self _ _)
  · -- the new packet is not done yet, and the others are as before
    change done.count x < Multiset.count x ((tx, payload) ::ₘ ↑s.sends)
    rw [Multiset.count_cons]
    by_cases hx0 : x = (tx, payload)
    · rw [if_pos hx0]
      exact Nat.lt_succ_of_le (Multiset.count_le_of_le x hle)
    · have hne : x.1.key ≠ tx.key := by
        intro heq
        simp only [step] at hxown
        rw [heq, hself] at hxown
        exact hx0 (Option.some.inj hxown).symm
      have hxold : s.Outstanding x.1.key := by
        rcases hx with ⟨frag, hf, hfkey⟩ | hp
        · rcases hcases frag hf with ⟨hold, -⟩ | ⟨-, hy⟩
          · exact .inl ⟨frag, hold, hfkey⟩
          · exact absurd (hfkey.symm.trans hy.key_eq) hne
        · exact .inr hp
      rw [if_neg hx0]
      exact hopen x hxold ((hown _ hne).symm.trans hxown)

/-- Where a fragment that has arrived leaves the buffer of its key, its own slot is
the only one that is new. -/
theorem slot_assemble {t : Buffers (List UInt8)} {now : Instant} {pkt : PacketRx} {new data : List UInt8}
    {key : Key} {p : PacketBuffer (List UInt8)} {i : ℕ} (hwf : t.WF)
    (hp : (t.assemble b now pkt new).1.get key = some p) (hslot : p.buf[i]? = some (some data)) :
    (key = pkt.key ∧ i = pkt.fragId.toNat) ∨
      ∃ p', t.get key = some p' ∧ p'.buf[i]? = some (some data) := by
  rcases get_assemble hwf hp with ⟨-, hold⟩ | ⟨rfl, ⟨hadm, -, rfl⟩ | ⟨-, rfl⟩⟩
  · exact .inr ⟨p, hold, hslot⟩
  · by_cases hi : i = pkt.fragId.toNat
    · exact .inl ⟨rfl, hi⟩
    · rw [PacketBuffer.fill, List.getElem?_set_ne (Ne.symm hi)] at hslot
      exact .inr (current_slot hslot)
  · exact .inr (current_slot hslot)

/-- What is left of a key once a fragment has completed its packet. -/
theorem not_outstanding_of_complete (now : Instant) {frag : Fragment} {x : PacketTx × List UInt8}
    {asm : Assemblable (List UInt8)} (h : s.Fair b) (hin : .fragment frag ∈ s.flight)
    (hx : owner s.sends (PacketRx.key frag.1) = some x) (hy : IsYield b x frag)
    (hasm : (s.buffers.assemble b now frag.1 frag.2).2 = .ok (some asm)) :
    ¬ (({ s with flight := s.flight.erase (.fragment frag) } : Channel).handle b now
      (.fragment frag)).Outstanding (PacketRx.key frag.1) := by
  obtain ⟨hadm, hfull, -, rfl⟩ := assemble_complete h.wf hasm
  rintro (⟨g, hg, hkey⟩ | hbuf)
  · -- its slot is taken, but not by what was stored, and not by `frag`
    have hg : Wire.fragment g ∈ s.flight.erase (.fragment frag) := hg
    have hgold := Multiset.mem_of_mem_erase hg
    obtain ⟨x', hx', hyg⟩ := h.flight g hgold
    rw [hkey, hx] at hx'
    cases hx'
    have hne : g ≠ frag := by
      rintro rfl
      have hpos := Multiset.count_pos.2 hg
      rw [Multiset.count_erase_self] at hpos
      have := h.once g
      omega
    have hid : g.1.fragId.toNat ≠ frag.1.fragId.toNat := fun heq =>
      hne (hyg.eq_of_fragId hy (UInt8.toNat_inj.1 heq))
    have hlen : g.1.fragId.toNat < ((s.buffers.current now frag.1).fill frag.1 frag.2).buf.length := by
      obtain ⟨n, hn, htotal⟩ := (current_filledBy now h.buffers hx hy).total
      obtain ⟨n', i, hn', hi, rfl⟩ := hyg
      obtain rfl := Outcome.ok.inj (hn.symm.trans hn')
      have hwf := (h.wf.current now frag.1).len
      rw [htotal, UInt8.toNat_ofNat'] at hwf
      simp only [PacketBuffer.fill, List.length_set, hwf, PacketTx.frag, UInt8.toNat_ofNat']
      omega
    obtain ⟨data, hdata⟩ := Option.isSome_iff_exists.1 (hfull _ (List.getElem_mem hlen))
    have hslot : (s.buffers.current now frag.1).buf[g.1.fragId.toNat]? = some (some data) := by
      have hfill : ((s.buffers.current now frag.1).fill frag.1 frag.2).buf[g.1.fragId.toNat]? =
          some (some data) := by
        rw [List.getElem?_eq_getElem hlen, hdata]
      rwa [PacketBuffer.fill, List.getElem?_set_ne (Ne.symm hid)] at hfill
    obtain ⟨p, hp, hpslot⟩ := current_slot hslot
    exact h.apart g p data hgold (hkey ▸ hp) hpslot
  · apply hbuf
    change (s.buffers.assemble b now frag.1 frag.2).1.get (PacketRx.key frag.1) = none
    rw [assemble_admitted h.wf hadm, if_pos hfull]
    exact Table.get_remove_self _ _

/-- A fragment of the owner of its key arrives. -/
theorem Fair.fragment (h : s.Fair b) (now : Instant) {frag : Fragment} {x : PacketTx × List UInt8}
    (hin : .fragment frag ∈ s.flight) (hx : owner s.sends (PacketRx.key frag.1) = some x)
    (hy : IsYield b x frag) :
    (({ s with flight := s.flight.erase (.fragment frag) } : Channel).handle b now
      (.fragment frag)).Fair b := by
  have hnot : ∀ asm, (s.buffers.assemble b now frag.1 frag.2).2 = .ok (some asm) → _ := fun asm =>
    not_outstanding_of_complete now h hin hx hy
  have hless := h.erase (.fragment frag)
  obtain ⟨hmem, hfits⟩ := h.sends x (owner_mem hx).1
  obtain ⟨done, hle, hmap, hopen⟩ := h.delivered
  -- what is outstanding afterwards was outstanding before
  have hout : ∀ key, (({ s with flight := s.flight.erase (.fragment frag) } : Channel).handle b now
      (.fragment frag)).Outstanding key → s.Outstanding key := by
    rintro key (⟨g, hg, hkey⟩ | hbuf)
    · exact .inl ⟨g, Multiset.mem_of_mem_erase hg, hkey⟩
    · obtain ⟨p, hp⟩ := Option.ne_none_iff_exists'.1 hbuf
      rcases get_assemble h.wf hp with ⟨-, hold⟩ | ⟨hkey, -⟩
      · exact .inr (by rw [hold]; nofun)
      · exact .inl ⟨frag, hin, hkey.symm⟩
  refine ⟨h.wf.assemble, hless.flight, fun key p hp => assemble_filledBy h.wf h.buffers hx hy key p hp,
    h.sends, hless.once, fun g p data hg hp hslot => ?_, ?_⟩
  · have hgold := Multiset.mem_of_mem_erase hg
    rcases slot_assemble h.wf hp hslot with ⟨hkey, hid⟩ | ⟨p', hp', hslot'⟩
    · -- the slot of `frag` is not the slot of another fragment in flight
      obtain ⟨x', hx', hyg⟩ := h.flight g hgold
      rw [hkey, hx] at hx'
      cases hx'
      obtain rfl := hyg.eq_of_fragId hy (UInt8.toNat_inj.1 hid)
      have hpos := Multiset.count_pos.2 hg
      change 0 < (s.flight.erase (Wire.fragment g)).count (Wire.fragment g) at hpos
      rw [Multiset.count_erase_self] at hpos
      have := h.once g
      omega
    · exact h.apart g p' data hgold hp' hslot'
  · cases hres : (Answer.assembled (s.buffers.assemble b now frag.1 frag.2).2).delivery with
    | none =>
      refine ⟨done, hle, ?_, fun y hyout hyown => hopen y (hout _ hyout) hyown⟩
      change ↑(Answer.assembled (s.buffers.assemble b now frag.1 frag.2).2).delivery.toList +
        s.delivered = _
      rw [hres, hmap]
      exact Multiset.zero_add _
    | some out =>
      obtain ⟨asm, hasm, hok⟩ := delivery_eq_some hres
      have hdel := assemble_delivers h.wf h.buffers hx hy hmem.payload hfits hasm
      obtain rfl : delivery x = out := Outcome.ok.inj (hdel.symm.trans hok)
      have hxout : s.Outstanding x.1.key := .inl ⟨frag, hin, hy.key_eq⟩
      have hlt : done.count x < Multiset.count x ↑s.sends := hopen x hxout (hy.key_eq ▸ hx)
      refine ⟨x ::ₘ done, Multiset.le_iff_count.2 fun y => ?_, ?_, fun y hyout hyown => ?_⟩
      · change (x ::ₘ done).count y ≤ Multiset.count y ↑s.sends
        rw [Multiset.count_cons]
        split_ifs with hyx
        · exact hyx ▸ hlt
        · exact Multiset.count_le_of_le y hle
      · change ↑(Answer.assembled (s.buffers.assemble b now frag.1 frag.2).2).delivery.toList +
          s.delivered = _
        rw [hres, hmap, Multiset.map_cons]
        rfl
      · have hne : y ≠ x := by
          rintro rfl
          exact hnot asm hasm (hy.key_eq ▸ hyout)
        rw [Multiset.count_cons_of_ne hne]
        exact hopen y (hout _ hyout) hyown

theorem Fair.step (h : s.Fair b) {a : ChannelStep} (hsafe : a.Safe b s) : (s.step b a).Fair b := by
  cases a with
  | send tx payload => exact h.send hsafe
  | sendDissociate assocId =>
    refine h.mono rfl rfl (fun frag => ?_) fun _ _ hp => hp
    simp [Channel.step]
  | arrive wire now =>
    simp only [Channel.step]
    split_ifs with hin
    · cases wire with
      | fragment frag =>
        obtain ⟨x, hx, hy⟩ := h.flight frag hin
        exact h.fragment now hin hx hy
      | dissociate dissoc => exact (h.erase _).dissociate dissoc.assocId
    · exact h
  | lose wire => exact h.erase wire
  | forget assocId => exact h.dissociate assocId
  | collectGarbage now timeout =>
    exact h.mono rfl rfl (fun _ => Nat.le_refl _) fun key p hp => (get_collectGarbage.1 hp).1

/-- What was handed on was sent, and as often at least. -/
theorem Fair.delivered_le (h : s.Fair b) : s.delivered ≤ ↑(s.sends.map delivery) := by
  obtain ⟨done, hle, hmap, -⟩ := h.delivered
  rw [hmap, ← Multiset.map_coe]
  exact Multiset.map_le_map hle

end Channel

end Tuic.Model
