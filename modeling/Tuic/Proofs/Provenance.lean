import Tuic.Sanity.Buffers

/-! Where the pieces of a delivered packet come from. Along any run, with any
headers and any payloads, the invariant traces every filled slot of a stored
buffer back to one accepted fragment since the buffer was created. -/

namespace Tuic.Model

open Lib Lib.Slots

variable {B : Type} [AsRef B] (b : Build) (calls : List (Call B))

/-- The buffers before call number `i`. -/
def buffersAt (i : ℕ) : Buffers B := ((connection b).stateAt calls i).buffers

/-- Call `j` is an `assemble` that was answered with `Ok`. -/
def AcceptedAt (j : ℕ) (pkt : PacketRx) (data : B) : Prop :=
  ∃ now res, calls[j]? = some (.assemble now pkt data) ∧
    (connection b).outAt calls j = some (.assembled (.ok res))

/-- Call `d` is an `assemble` that was answered with a complete packet. -/
def DeliveredAt (d : ℕ) (pkt : PacketRx) (asm : Assemblable B) : Prop :=
  ∃ now data, calls[d]? = some (.assemble now pkt data) ∧
    (connection b).outAt calls d = some (.assembled (.ok (some asm)))

/-- The buffer of `key` that call `d` works on was created by call `c`. -/
structure CreatedAt (key : Key) (c d : ℕ) : Prop where
  le : c ≤ d
  absent : (buffersAt b calls c).get key = none
  alive : ∀ j, c < j → j ≤ d → (buffersAt b calls j).get key ≠ none

/-- Call `j` accepted a fragment for slot `i` of the buffer of `key` that call `d`
works on. -/
def Source (key : Key) (d i j : ℕ) : Prop :=
  ∃ c, CreatedAt b calls key c d ∧ c ≤ j ∧ j ≤ d ∧
    ∃ pkt data, AcceptedAt b calls j pkt data ∧ pkt.key = key ∧ pkt.fragId.toNat = i

/-- The slots of `p` are filled by exactly the fragments accepted for `key` from
call `c` on and before call `n`, one for each slot. -/
structure Traced (c n : ℕ) (key : Key) (p : PacketBuffer B) : Prop where
  filled : ∀ (i : ℕ) x, p.buf[i]? = some (some x) → ∃ j pkt, c ≤ j ∧ j < n ∧
    AcceptedAt b calls j pkt x ∧ pkt.key = key ∧ pkt.fragId.toNat = i ∧ (i = 0 → p.addr = pkt.addr)
  kept : ∀ j pkt x, c ≤ j → j < n → AcceptedAt b calls j pkt x → pkt.key = key →
    p.buf[pkt.fragId.toNat]? = some (some x)
  unique : ∀ j j' pkt pkt' x x', c ≤ j → j < n → c ≤ j' → j' < n →
    AcceptedAt b calls j pkt x → AcceptedAt b calls j' pkt' x' → pkt.key = key → pkt'.key = key →
    pkt.fragId = pkt'.fragId → j = j'

variable {b calls}

theorem AcceptedAt.unique {j : ℕ} {pkt pkt' : PacketRx} {x x' : B} (h : AcceptedAt b calls j pkt x)
    (h' : AcceptedAt b calls j pkt' x') : pkt = pkt' ∧ x = x' := by
  obtain ⟨now, res, hc, -⟩ := h
  obtain ⟨now', res', hc', -⟩ := h'
  rw [hc] at hc'
  cases hc'
  exact ⟨rfl, rfl⟩

theorem buffersAt_wf (i : ℕ) : (buffersAt b calls i).WF :=
  reachable_wf ((connection b).stateAt_reachable calls i)

theorem buffersAt_succ {i : ℕ} {call : Call B} (h : calls[i]? = some call) :
    buffersAt b calls (i + 1) = (buffersAt b calls i).step b call := by
  unfold buffersAt
  rw [(connection b).stateAt_succ h]
  exact step_buffers b _ call

/-- What call `i` answers is what the buffers answer. -/
theorem outAt_assemble {i : ℕ} {now : Instant} {pkt : PacketRx} {data : B}
    (h : calls[i]? = some (.assemble now pkt data)) {res : Inserted B} :
    (connection b).outAt calls i = some (.assembled res) ↔
      ((buffersAt b calls i).assemble b now pkt data).2 = res := by
  rw [outAt_of_assemble h, (assemble_buffers b now _ pkt data).2, Option.some_inj,
    Answer.assembled.injEq]
  rfl

theorem acceptedAt_iff {i : ℕ} {now : Instant} {pkt : PacketRx} {data : B}
    (h : calls[i]? = some (.assemble now pkt data)) :
    AcceptedAt b calls i pkt data ↔ ((buffersAt b calls i).current now pkt).Admits pkt data := by
  rw [← assemble_ok_iff (b := b) (buffersAt_wf i)]
  constructor
  · rintro ⟨now', res, hc, hout⟩
    obtain ⟨⟩ : now = now' := by
      rw [h] at hc
      cases hc
      rfl
    exact ⟨res, (outAt_assemble h).1 hout⟩
  · rintro ⟨res, hres⟩
    exact ⟨now, res, h, (outAt_assemble h).2 hres⟩

section

variable {c n : ℕ} {key : Key} {p : PacketBuffer B}

theorem CreatedAt.succ (h : CreatedAt b calls key c n)
    (hn : (buffersAt b calls (n + 1)).get key ≠ none) : CreatedAt b calls key c (n + 1) := by
  refine ⟨Nat.le_succ_of_le h.le, h.absent, fun j hcj hj => ?_⟩
  rcases Nat.lt_or_eq_of_le hj with hj | rfl
  · exact h.alive j hcj (Nat.le_of_lt_succ hj)
  · exact hn

theorem CreatedAt.unique {c' : ℕ} (h : CreatedAt b calls key c n) (h' : CreatedAt b calls key c' n) :
    c = c' := by
  rcases Nat.lt_trichotomy c c' with hlt | heq | hgt
  · exact absurd h'.absent (h.alive c' hlt h'.le)
  · exact heq
  · exact absurd h.absent (h'.alive c hgt h.le)

/-- A new buffer is traced to no fragment. -/
theorem traced_new (now : Instant) (fragTotal : UInt8) :
    Traced b calls n n key (.new now fragTotal) where
  filled := by
    intro i x h
    simp [PacketBuffer.new, List.getElem?_replicate] at h
  kept := fun j _ _ hj hn => absurd hn (Nat.not_lt.2 hj)
  unique := fun j _ _ _ _ _ hj hn => absurd hn (Nat.not_lt.2 hj)

/-- A call that accepts nothing for the key keeps the trace. -/
theorem Traced.skip (h : Traced b calls c n key p)
    (hno : ∀ pkt data, AcceptedAt b calls n pkt data → pkt.key ≠ key) :
    Traced b calls c (n + 1) key p := by
  have hlt : ∀ {j pkt x}, j < n + 1 → AcceptedAt b calls j pkt x → pkt.key = key → j < n := by
    intro j pkt x hj hacc hkey
    refine Nat.lt_of_le_of_ne (Nat.le_of_lt_succ hj) fun heq => ?_
    exact hno pkt x (heq ▸ hacc) hkey
  refine ⟨fun i x hx => ?_, fun j pkt x hc hj hacc hkey => ?_, ?_⟩
  · obtain ⟨j, pkt, hc, hj, rest⟩ := h.filled i x hx
    exact ⟨j, pkt, hc, Nat.lt_succ_of_lt hj, rest⟩
  · exact h.kept j pkt x hc (hlt hj hacc hkey) hacc hkey
  · intro j j' pkt pkt' x x' hc hj hc' hj' hacc hacc' hkey hkey'
    exact h.unique j j' pkt pkt' x x' hc (hlt hj hacc hkey) hc' (hlt hj' hacc' hkey') hacc hacc' hkey hkey'

/-- Accepting a fragment into its free slot extends the trace by its call. -/
theorem Traced.fill (h : Traced b calls c n key p) (hcn : c ≤ n) {pkt : PacketRx} {data : B}
    (hacc : AcceptedAt b calls n pkt data) (hkey : pkt.key = key) (hadm : p.Admits pkt data) :
    Traced b calls c (n + 1) key (p.fill pkt data) := by
  obtain ⟨hlt, -⟩ := List.getElem?_eq_some_iff.1 hadm.free
  -- an earlier fragment is in another slot, since this one is free
  have hother : ∀ {j q x}, c ≤ j → j < n → AcceptedAt b calls j q x → q.key = key →
      q.fragId ≠ pkt.fragId := by
    intro j q x hc hj hq hqk heq
    have hkept := h.kept j q x hc hj hq hqk
    rw [heq, hadm.free] at hkept
    cases hkept
  refine ⟨fun i x hx => ?_, fun j q x hc hj hq hqk => ?_, ?_⟩
  · by_cases hi : i = pkt.fragId.toNat
    · subst hi
      obtain rfl : data = x := by simpa [PacketBuffer.fill, List.getElem?_set_self hlt] using hx
      refine ⟨n, pkt, hcn, Nat.lt_succ_self n, hacc, hkey, rfl, fun h0 => ?_⟩
      rw [PacketBuffer.fill, if_pos (uint8_eq_zero.2 h0)]
    · have hx' : p.buf[i]? = some (some x) := by
        simpa [PacketBuffer.fill, List.getElem?_set_ne (Ne.symm hi)] using hx
      obtain ⟨j, q, hc, hj, hq, hqk, hqi, haddr⟩ := h.filled i x hx'
      refine ⟨j, q, hc, Nat.lt_succ_of_lt hj, hq, hqk, hqi, fun h0 => ?_⟩
      have hne : pkt.fragId ≠ 0 := fun hz => hi (h0.trans (uint8_eq_zero.1 hz).symm)
      rw [PacketBuffer.fill, if_neg hne]
      exact haddr h0
  · rcases Nat.lt_or_eq_of_le (Nat.le_of_lt_succ hj) with hj | rfl
    · have hne := hother hc hj hq hqk
      have hne' : pkt.fragId.toNat ≠ q.fragId.toNat := fun h => hne (UInt8.toNat_inj.1 h).symm
      simpa [PacketBuffer.fill, List.getElem?_set_ne hne'] using h.kept j q x hc hj hq hqk
    · obtain ⟨rfl, rfl⟩ := hq.unique hacc
      simp [PacketBuffer.fill, List.getElem?_set_self hlt]
  · intro j j' q q' x x' hc hj hc' hj' hq hq' hqk hqk' hid
    rcases Nat.lt_or_eq_of_le (Nat.le_of_lt_succ hj) with hj | rfl
    · rcases Nat.lt_or_eq_of_le (Nat.le_of_lt_succ hj') with hj' | rfl
      · exact h.unique j j' q q' x x' hc hj hc' hj' hq hq' hqk hqk' hid
      · obtain ⟨rfl, rfl⟩ := hq'.unique hacc
        exact absurd hid (hother hc hj hq hqk)
    · obtain ⟨rfl, rfl⟩ := hq.unique hacc
      rcases Nat.lt_or_eq_of_le (Nat.le_of_lt_succ hj') with hj' | rfl
      · exact absurd hid.symm (hother hc' hj' hq' hqk')
      · rfl

end

/-- Every stored buffer has a trace. -/
def TracedAt (b : Build) (calls : List (Call B)) (n : ℕ) (t : Buffers B) : Prop :=
  ∀ key p, t.get key = some p →
    ∃ c, CreatedAt b calls key c n ∧ Traced b calls c n key p

/-- The buffer a fragment goes to has one too: it is stored, or created now. -/
theorem current_traced {n : ℕ} (h : TracedAt b calls n (buffersAt b calls n)) (now : Instant)
    (pkt : PacketRx) :
    ∃ c, CreatedAt b calls pkt.key c n ∧
      Traced b calls c n pkt.key ((buffersAt b calls n).current now pkt) := by
  unfold Buffers.current
  cases hp : (buffersAt b calls n).get pkt.key with
  | some p => exact h pkt.key p hp
  | none =>
    refine ⟨n, ⟨Nat.le_refl n, hp, fun j hcj hj => absurd hcj (Nat.not_lt.2 hj)⟩, ?_⟩
    exact traced_new now pkt.fragTotal

/-- A buffer that a call leaves in place, and to which it adds nothing. -/
theorem TracedAt.keep {n : ℕ} (h : TracedAt b calls n (buffersAt b calls n)) {key : Key}
    {p : PacketBuffer B} (hp : (buffersAt b calls n).get key = some p)
    (hp' : (buffersAt b calls (n + 1)).get key = some p)
    (hno : ∀ pkt data, AcceptedAt b calls n pkt data → pkt.key ≠ key) :
    ∃ c, CreatedAt b calls key c (n + 1) ∧ Traced b calls c (n + 1) key p := by
  obtain ⟨c, hc, ht⟩ := h key p hp
  exact ⟨c, hc.succ (hp' ▸ nofun), ht.skip hno⟩

theorem tracedAt_assemble {n : ℕ} {now : Instant} {pkt : PacketRx} {data : B}
    (hn : calls[n]? = some (.assemble now pkt data))
    (h : TracedAt b calls n (buffersAt b calls n)) :
    TracedAt b calls (n + 1) (buffersAt b calls (n + 1)) := by
  intro key p hp
  have hsucc : buffersAt b calls (n + 1) = ((buffersAt b calls n).assemble b now pkt data).1 :=
    buffersAt_succ hn
  have honly : ∀ q x, AcceptedAt b calls n q x → q = pkt := fun q x hq => by
    obtain ⟨now', res, hc, -⟩ := hq
    rw [hn] at hc
    cases hc
    rfl
  rcases get_assemble (buffersAt_wf n) (hsucc ▸ hp) with ⟨hkey, hold⟩ | ⟨rfl, hnew⟩
  · exact h.keep hold hp fun q x hq hqk => hkey (honly q x hq ▸ hqk).symm
  · obtain ⟨c, hc, ht⟩ := current_traced h now pkt
    refine ⟨c, hc.succ (hp ▸ nofun), ?_⟩
    rcases hnew with ⟨hadm, -, rfl⟩ | ⟨hadm, rfl⟩
    · exact ht.fill hc.le ((acceptedAt_iff hn).2 hadm) rfl hadm
    · refine ht.skip fun q x hq _ => hadm ?_
      obtain ⟨now', res, hc', -⟩ := id hq
      rw [hn] at hc'
      cases hc'
      exact (acceptedAt_iff hn).1 hq

/-- The other calls create no buffer and change none. -/
theorem step_get {t : Buffers B} {call : Call B} (hcall : ∀ now pkt data, call ≠ .assemble now pkt data)
    {key : Key} {p : PacketBuffer B} (h : (t.step b call).get key = some p) : t.get key = some p := by
  cases call with
  | sendPacket assocId addr max => exact h
  | recvPacket header => exact h
  | recvPacketUnrestricted header => exact h
  | assemble now pkt data => exact absurd rfl (hcall now pkt data)
  | sendDissociate assocId =>
    rw [Buffers.step, Buffers.get_dissociate] at h
    split_ifs at h
    exact h
  | recvDissociate header =>
    rw [Buffers.step, Buffers.get_dissociate] at h
    split_ifs at h
    exact h
  | collectGarbage now timeout => exact (get_collectGarbage.1 h).1

theorem tracedAt_step {n : ℕ} {call : Call B} (hn : calls[n]? = some call)
    (h : TracedAt b calls n (buffersAt b calls n)) :
    TracedAt b calls (n + 1) (buffersAt b calls (n + 1)) := by
  by_cases hcall : ∃ now pkt data, call = .assemble now pkt data
  · obtain ⟨now, pkt, data, rfl⟩ := hcall
    exact tracedAt_assemble hn h
  · intro key p hp
    have hother : ∀ now pkt data, call ≠ .assemble now pkt data := fun now pkt data heq =>
      hcall ⟨now, pkt, data, heq⟩
    have hp' : (buffersAt b calls n).get key = some p := step_get hother (buffersAt_succ hn ▸ hp)
    refine h.keep hp' hp fun q x hq => ?_
    obtain ⟨now, res, hc, -⟩ := hq
    rw [hn] at hc
    exact absurd (Option.some.inj hc) (hother now q x)

theorem tracedAt_run (b : Build) (calls : List (Call B)) :
    ∀ n, n ≤ calls.length → TracedAt b calls n (buffersAt b calls n) := by
  intro n
  induction n with
  | zero => exact fun _ key p hp => nomatch hp
  | succ n ih =>
    intro hn
    exact tracedAt_step (List.getElem?_eq_getElem hn) (ih (Nat.le_of_lt hn))

/-- What a delivery returns is traced, up to and including its own fragment, and
its buffer is gone after it. -/
theorem delivered_traced {d : ℕ} {pkt : PacketRx} {asm : Assemblable B}
    (h : DeliveredAt b calls d pkt asm) :
    Full asm.buf ∧ 0 < asm.buf.length ∧ asm.assocId = pkt.assocId ∧
      (buffersAt b calls (d + 1)).get pkt.key = none ∧
      ∃ c p, CreatedAt b calls pkt.key c d ∧ Traced b calls c (d + 1) pkt.key p ∧
        asm.buf = p.buf ∧ asm.addr = p.addr := by
  obtain ⟨now, data, hd, hout⟩ := h
  have hlt : d < calls.length := (List.getElem?_eq_some_iff.1 hd).1
  have hres := (outAt_assemble hd).1 hout
  obtain ⟨hadm, hfull, -, rfl⟩ := assemble_complete (buffersAt_wf d) hres
  obtain ⟨c, hc, ht⟩ := current_traced (tracedAt_run b calls d (Nat.le_of_lt hlt)) now pkt
  refine ⟨hfull, ?_, rfl, ?_, c, _, hc, ht.fill hc.le ((acceptedAt_iff hd).2 hadm) rfl hadm, rfl, rfl⟩
  · have := (List.getElem?_eq_some_iff.1 hadm.free).1
    simp only [PacketBuffer.fill, List.length_set]
    omega
  · have hsucc : buffersAt b calls (d + 1) = ((buffersAt b calls d).assemble b now pkt data).1 :=
      buffersAt_succ hd
    rw [hsucc, assemble_admitted (buffersAt_wf d) hadm, if_pos hfull]
    exact Table.get_remove_self _ _

theorem Traced.source {c d : ℕ} {key : Key} {p : PacketBuffer B} (hc : CreatedAt b calls key c d)
    (h : Traced b calls c (d + 1) key p) {i : ℕ} {x : B} (hx : p.buf[i]? = some (some x)) :
    ∃ j, Source b calls key d i j ∧ (∀ j', Source b calls key d i j' → j' = j) ∧
      ∃ pkt, AcceptedAt b calls j pkt x ∧ (i = 0 → p.addr = pkt.addr) := by
  obtain ⟨j, pkt, hcj, hj, hacc, hkey, hid, haddr⟩ := h.filled i x hx
  refine ⟨j, ⟨c, hc, hcj, Nat.le_of_lt_succ hj, pkt, x, hacc, hkey, hid⟩, ?_, pkt, hacc, haddr⟩
  rintro j' ⟨c', hc', hcj', hj', pkt', x', hacc', hkey', hid'⟩
  obtain rfl := hc.unique hc'
  exact h.unique j' j pkt' pkt x' x hcj' (Nat.lt_succ_of_le hj') hcj hj hacc' hacc hkey' hkey
    (UInt8.toNat_inj.1 (hid'.trans hid.symm))

/-- A call that fed one delivery fed no later one. -/
theorem source_not_later {d d' i i' j : ℕ} {pkt pkt' : PacketRx} {asm : Assemblable B}
    (h : DeliveredAt b calls d pkt asm) (hs : Source b calls pkt.key d i j)
    (hs' : Source b calls pkt'.key d' i' j) (hkey : pkt.key = pkt'.key) : ¬ d < d' := by
  intro hlt
  obtain ⟨-, -, -, hgone, -⟩ := delivered_traced h
  obtain ⟨c, -, -, hjd, -⟩ := hs
  obtain ⟨c', hc', hcj', -⟩ := hs'
  refine hc'.alive (d + 1) ?_ hlt (hkey ▸ hgone)
  omega

/-- Soundness of reassembly on every run. Each piece `i` of a delivered packet is
the payload of one accepted fragment, under the same key and with id `i`, since
the buffer was created; the address is that of fragment 0; and no accepted
fragment is a piece of two deliveries, or twice of one. -/
theorem delivered_sound (b : Build) (calls : List (Call B)) :
    (∀ d pkt asm, DeliveredAt b calls d pkt asm →
      asm.assocId = pkt.assocId ∧ 0 < asm.buf.length ∧
      ∀ i < asm.buf.length, ∃ j, Source b calls pkt.key d i j ∧
        (∀ j', Source b calls pkt.key d i j' → j' = j) ∧
        ∃ frag data, AcceptedAt b calls j frag data ∧ asm.buf[i]? = some (some data) ∧
          (i = 0 → asm.addr = frag.addr)) ∧
    ∀ d d' pkt pkt' asm asm' i i' j, DeliveredAt b calls d pkt asm → DeliveredAt b calls d' pkt' asm' →
      Source b calls pkt.key d i j → Source b calls pkt'.key d' i' j → d = d' ∧ i = i' := by
  constructor
  · intro d pkt asm h
    obtain ⟨hfull, hpos, hassoc, -, c, p, hc, ht, hbuf, haddr⟩ := delivered_traced h
    refine ⟨hassoc, hpos, fun i hi => ?_⟩
    obtain ⟨data, hdata⟩ := Option.isSome_iff_exists.1 (hfull _ (List.getElem_mem hi))
    have hslot : asm.buf[i]? = some (some data) := by rw [List.getElem?_eq_getElem hi, hdata]
    obtain ⟨j, hsrc, huniq, frag, hacc, h0⟩ := ht.source hc (hbuf ▸ hslot)
    exact ⟨j, hsrc, huniq, frag, data, hacc, hslot, fun hi0 => haddr.trans (h0 hi0)⟩
  · intro d d' pkt pkt' asm asm' i i' j h h' hs hs'
    obtain ⟨-, -, -, -, q, x, hq, hqk, hqi⟩ := id hs
    obtain ⟨-, -, -, -, q', x', hq', hqk', hqi'⟩ := id hs'
    obtain ⟨rfl, -⟩ := hq.unique hq'
    have hkey : pkt.key = pkt'.key := hqk.symm.trans hqk'
    have h1 := source_not_later h hs hs' hkey
    have h2 := source_not_later h' hs' hs hkey.symm
    exact ⟨by omega, hqi.symm.trans hqi'⟩

end Tuic.Model
