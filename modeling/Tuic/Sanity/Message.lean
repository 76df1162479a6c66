import Tuic.Sanity.Buffers

/-! Reassembly as it is meant: a message is an address and a few pieces, what the
receiver knows of a family of messages is which of their pieces have arrived, and
a message is complete with its last piece. The table of buffers represents this
as long as no two messages share a key and every piece arrives at most once. -/

namespace Tuic.Model

open Lib Lib.Slots

/-- A message that fits the fields of the fragment headers. -/
structure Message where
  assocId : UInt16
  pktId : UInt16
  addr : Address
  pieces : List (List UInt8)
  addressed : addr ≠ .none
  pieces_pos : 0 < pieces.length
  pieces_le : pieces.length ≤ 255
  small : ∀ x ∈ pieces, x.length < 2 ^ 16

namespace Message

variable (m : Message)

def key : Key := (m.assocId, m.pktId)

def total : UInt8 := UInt8.ofNat m.pieces.length

/-- The header of piece `i`. -/
def header (i : ℕ) (x : List UInt8) : Packet :=
  ⟨m.assocId, m.pktId, m.total, UInt8.ofNat i, UInt16.ofNat x.length, if i = 0 then m.addr else .none⟩

/-- Every piece has arrived. -/
def Complete (arrived : ℕ → Prop) : Prop := ∀ i < m.pieces.length, arrived i

/-- No piece has arrived. -/
def Untouched (arrived : ℕ → Prop) : Prop := ∀ i < m.pieces.length, ¬ arrived i

@[simp] theorem total_toNat : m.total.toNat = m.pieces.length := by
  have := m.pieces_le
  rw [total, UInt8.toNat_ofNat']
  omega

@[simp] theorem header_key (i : ℕ) (x : List UInt8) : PacketRx.key (m.header i x) = m.key := rfl

variable {m}

theorem header_fragId {i : ℕ} (hi : i < m.pieces.length) (x : List UInt8) :
    (m.header i x).fragId.toNat = i := by
  have := m.pieces_le
  change (UInt8.ofNat i).toNat = i
  rw [UInt8.toNat_ofNat']
  omega

theorem header_fragId_eq_zero {i : ℕ} (hi : i < m.pieces.length) (x : List UInt8) :
    (m.header i x).fragId = 0 ↔ i = 0 := by
  rw [uint8_eq_zero, header_fragId hi]

/-- `frag` is piece `i` of the message under its header. -/
def IsFrag (m : Message) (i : ℕ) (frag : Packet × List UInt8) : Prop :=
  m.pieces[i]? = some frag.2 ∧ frag.1 = m.header i frag.2

theorem IsFrag.lt {i : ℕ} {frag : Packet × List UInt8} (h : m.IsFrag i frag) : i < m.pieces.length :=
  (List.getElem?_eq_some_iff.1 h.1).1

theorem IsFrag.fragId {i : ℕ} {frag : Packet × List UInt8} (h : m.IsFrag i frag) :
    frag.1.fragId.toNat = i := by
  rw [h.2]
  exact header_fragId h.lt _

/-- The slots and the address of `p` are those of the pieces that have arrived. -/
structure Holds (m : Message) (arrived : ℕ → Prop) (p : PacketBuffer (List UInt8)) : Prop where
  total : p.fragTotal = m.total
  filled : ∀ i x, m.pieces[i]? = some x → arrived i → p.buf[i]? = some (some x)
  free : ∀ i < m.pieces.length, ¬ arrived i → p.buf[i]? = some none
  addr : arrived 0 → p.addr = m.addr

theorem holds_new (now : Instant) {arrived : ℕ → Prop} (hno : m.Untouched arrived) :
    m.Holds arrived (.new now m.total) where
  total := rfl
  filled := fun i x hx h => absurd h (hno i (List.getElem?_eq_some_iff.1 hx).1)
  free := fun i hi _ => by
    simp only [PacketBuffer.new, total_toNat, List.getElem?_replicate, if_pos hi]
  addr := fun h => absurd h (hno 0 m.pieces_pos)

variable {arrived : ℕ → Prop} {p : PacketBuffer (List UInt8)} {i : ℕ} {x : List UInt8}

theorem Holds.admits (h : m.Holds arrived p) (hx : m.pieces[i]? = some x) (hi : ¬ arrived i) :
    p.Admits (m.header i x) x := by
  obtain ⟨hlt, -⟩ := List.getElem?_eq_some_iff.1 hx
  have hid := header_fragId hlt x
  refine ⟨?_, ?_, ?_, ?_⟩
  · have hsmall := m.small x (List.mem_of_getElem? hx)
    change x.length = (UInt16.ofNat x.length).toNat
    rw [UInt16.toNat_ofNat', Nat.mod_eq_of_lt hsmall]
  · rw [UInt8.lt_iff_toNat_lt, hid]
    exact Nat.lt_of_lt_of_eq hlt m.total_toNat.symm
  · rw [ne_eq, header_fragId_eq_zero hlt]
    by_cases h0 : i = 0
    · simp [header, h0, m.addressed]
    · simp [header, h0]
  · rw [hid]
    exact h.free i hlt hi

theorem Holds.fill (h : m.Holds arrived p) (hlen : p.buf.length = m.pieces.length)
    (hx : m.pieces[i]? = some x) : m.Holds (fun j => arrived j ∨ j = i) (p.fill (m.header i x) x) := by
  obtain ⟨hlt, -⟩ := List.getElem?_eq_some_iff.1 hx
  have hid := header_fragId hlt x
  have hbuf : (p.fill (m.header i x) x).buf = p.buf.set i (some x) := by rw [PacketBuffer.fill, hid]
  refine ⟨h.total, fun j y hy hj => ?_, fun j hj hno => ?_, fun h0 => ?_⟩
  · rw [hbuf]
    by_cases hji : j = i
    · subst hji
      rw [List.getElem?_set_self (hlen.symm ▸ hlt), ← hx, hy]
    · rw [List.getElem?_set_ne (Ne.symm hji)]
      exact h.filled j y hy (hj.resolve_right hji)
  · have hji : j ≠ i := fun heq => hno (.inr heq)
    rw [hbuf, List.getElem?_set_ne hji.symm]
    exact h.free j hj fun ha => hno (.inl ha)
  · rw [PacketBuffer.fill]
    by_cases hz : i = 0
    · rw [if_pos ((header_fragId_eq_zero hlt x).2 hz)]
      simp [header, hz]
    · rw [if_neg fun hf => hz ((header_fragId_eq_zero hlt x).1 hf)]
      exact h.addr (h0.resolve_right (Ne.symm hz))

theorem Holds.full_iff (h : m.Holds arrived p) (hlen : p.buf.length = m.pieces.length) :
    Full p.buf ↔ m.Complete arrived := by
  constructor
  · intro hfull i hi
    by_contra hno
    cases hfull none (List.mem_of_getElem? (h.free i hi hno))
  · intro hall s hs
    obtain ⟨i, hi⟩ := List.mem_iff_getElem?.1 hs
    have hlt : i < m.pieces.length := hlen ▸ (List.getElem?_eq_some_iff.1 hi).1
    have := h.filled i _ (List.getElem?_eq_getElem hlt) (hall i hlt)
    rw [hi] at this
    cases this
    rfl

/-- A full buffer holds the pieces in their order. -/
theorem Holds.assemble (h : m.Holds arrived p) (hlen : p.buf.length = m.pieces.length)
    (hall : m.Complete arrived) (assocId : UInt16) :
    Assemblable.assemble ⟨p.buf, p.addr, assocId⟩ = .ok (m.pieces.flatten, m.addr, assocId) := by
  have hbuf : p.buf = m.pieces.map some := by
    apply List.ext_getElem?
    intro i
    rw [List.getElem?_map]
    cases hx : m.pieces[i]? with
    | some x => exact h.filled i x hx (hall i (List.getElem?_eq_some_iff.1 hx).1)
    | none =>
      have := List.getElem?_eq_none_iff.1 hx
      simpa using hlen ▸ this
  simp only [Assemblable.assemble, hbuf, unwrapAll_map_some, h.addr (hall 0 m.pieces_pos)]
  simp [List.flatMap, asRef]

end Message

/-! ### A family of messages -/

section

variable {ι : Type} (ms : ι → Message)

/-- The table of buffers, as a set of arrived pieces of the family: a message with
some pieces here and some missing has a buffer, every other one has none. -/
structure Represents (arrived : ι → ℕ → Prop) (t : Buffers (List UInt8)) : Prop where
  wf : t.WF
  stored : ∀ p buf, t.get (ms p).key = some buf →
    (ms p).Holds (arrived p) buf ∧ ¬ (ms p).Complete (arrived p)
  absent : ∀ p, t.get (ms p).key = none →
    (ms p).Untouched (arrived p) ∨ (ms p).Complete (arrived p)

/-- What has arrived once piece `i` of message `p` has too. -/
def arrive (arrived : ι → ℕ → Prop) (p : ι) (i : ℕ) : ι → ℕ → Prop := fun q j =>
  arrived q j ∨ q = p ∧ j = i

theorem arrive_self (arrived : ι → ℕ → Prop) (p : ι) (i : ℕ) :
    arrive arrived p i p = fun j => arrived p j ∨ j = i := by
  funext j
  simp [arrive]

theorem arrive_ne (arrived : ι → ℕ → Prop) {p q : ι} (i : ℕ) (h : q ≠ p) :
    arrive arrived p i q = arrived q := by
  funext j
  simp [arrive, h]

variable {ms} {arrived : ι → ℕ → Prop} {t : Buffers (List UInt8)}

theorem represents_empty : Represents ms (fun _ _ => False) (Table.empty : Buffers (List UInt8)) where
  wf := empty_wf
  stored := fun _ _ h => nomatch h
  absent := fun _ _ => .inl fun _ _ => id

theorem Represents.current (h : Represents ms arrived t) (now : Instant) {p : ι} {i : ℕ}
    {x : List UInt8} (hx : (ms p).pieces[i]? = some x) (hi : ¬ arrived p i) :
    (ms p).Holds (arrived p) (t.current now ((ms p).header i x)) ∧
      (t.current now ((ms p).header i x)).buf.length = (ms p).pieces.length := by
  have hlt := (List.getElem?_eq_some_iff.1 hx).1
  have hholds : (ms p).Holds (arrived p) (t.current now ((ms p).header i x)) := by
    unfold Buffers.current
    rw [Message.header_key]
    cases hp : t.get (ms p).key with
    | some buf => exact (h.stored p buf hp).1
    | none =>
      refine Message.holds_new now ?_
      exact (h.absent p hp).resolve_right fun hall => hi (hall i hlt)
  refine ⟨hholds, ?_⟩
  rw [(h.wf.current now _).len, hholds.total, Message.total_toNat]

/-- One piece arrives: the table represents one piece more, and the answer is the
message if it was the last one. -/
theorem Represents.assemble (h : Represents ms arrived t) (hkey : Function.Injective fun p => (ms p).key)
    (b : Build) (now : Instant) {p : ι} {i : ℕ} {x : List UInt8} (hx : (ms p).pieces[i]? = some x)
    (hi : ¬ arrived p i) :
    Represents ms (arrive arrived p i) (t.assemble b now ((ms p).header i x) x).1 ∧
      ((ms p).Complete (arrive arrived p i p) →
        ∃ asm, (t.assemble b now ((ms p).header i x) x).2 = .ok (some asm) ∧
          asm.assemble = .ok ((ms p).pieces.flatten, (ms p).addr, (ms p).assocId)) ∧
      (¬ (ms p).Complete (arrive arrived p i p) →
        (t.assemble b now ((ms p).header i x) x).2 = .ok none) := by
  obtain ⟨hcur, hlen⟩ := h.current now hx hi
  have hadm := hcur.admits hx hi
  have hfill := hcur.fill hlen hx
  rw [← arrive_self] at hfill
  have hlen' : ((t.current now ((ms p).header i x)).fill ((ms p).header i x) x).buf.length =
      (ms p).pieces.length := by simpa [PacketBuffer.fill] using hlen
  have hfull := hfill.full_iff hlen'
  have hother : ∀ q, q ≠ p → (ms q).key ≠ (ms p).key := fun q hq heq => hq (hkey heq)
  have hwf : Buffers.WF (t.assemble b now ((ms p).header i x) x).1 := h.wf.assemble
  rw [assemble_admitted h.wf hadm] at hwf ⊢
  by_cases hall : (ms p).Complete (arrive arrived p i p)
  · rw [if_pos (hfull.2 hall)] at hwf ⊢
    refine ⟨⟨hwf, fun q buf hq => ?_, fun q hq => ?_⟩, fun _ => ⟨_, rfl, ?_⟩, fun hno => absurd hall hno⟩
    · rw [Message.header_key, Table.get_remove] at hq
      split_ifs at hq with heq
      have hqp : q ≠ p := fun h => heq (h ▸ rfl)
      rw [arrive_ne arrived i hqp]
      exact h.stored q buf hq
    · by_cases hqp : q = p
      · subst hqp
        exact .inr hall
      · rw [Message.header_key, Table.get_remove_ne _ (hother q hqp)] at hq
        rw [arrive_ne arrived i hqp]
        exact h.absent q hq
    · exact hfill.assemble hlen' hall _
  · rw [if_neg fun hf => hall (hfull.1 hf)] at hwf ⊢
    refine ⟨⟨hwf, fun q buf hq => ?_, fun q hq => ?_⟩, fun h => absurd h hall, fun _ => rfl⟩
    · rw [Message.header_key, Table.get_insert] at hq
      split_ifs at hq with heq
      · obtain rfl := hkey heq
        cases hq
        exact ⟨hfill, hall⟩
      · have hqp : q ≠ p := fun h => heq (h ▸ rfl)
        rw [arrive_ne arrived i hqp]
        exact h.stored q buf hq
    · rw [Message.header_key, Table.get_insert] at hq
      split_ifs at hq with heq
      have hqp : q ≠ p := fun h => heq (h ▸ rfl)
      rw [arrive_ne arrived i hqp]
      exact h.absent q hq

end

end Tuic.Model
