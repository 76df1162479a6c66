import Tuic.Proofs.Provenance

/-! The number of fragments is stored once, when the buffer is made, and declared
again by every later fragment, whose id is compared with its own declaration
only. Whether both agree is up to the peer. -/

namespace Tuic.Model

open Lib Lib.Slots

variable {B : Type} [AsRef B] (b : Build) (calls : List (Call B))

/-- Along the run, a delivered packet has as many pieces as each fragment accepted
into it declared, and a fragment that declares another total than its buffer is
refused with an error. -/
structure TotalsAgree : Prop where
  delivered : ∀ d pkt asm, DeliveredAt b calls d pkt asm → ∀ i j, Source b calls pkt.key d i j →
    ∀ frag data, AcceptedAt b calls j frag data → frag.fragTotal.toNat = asm.buf.length
  refused : ∀ i now pkt data, calls[i]? = some (.assemble now pkt data) →
    ∀ p, (buffersAt b calls i).get pkt.key = some p → p.fragTotal ≠ pkt.fragTotal →
      ∃ e, (connection b).outAt calls i = some (.assembled (.err e))

/-- A fragment that declares another total than its buffer fails one of the checks
on the rest: its header puts it in the wrong place, or its slot is filled. -/
def StopsElsewhere (p : PacketBuffer B) (pkt : PacketRx) (data : B) : Prop :=
  (asRef data).length = pkt.size.toNat ∧
    (pkt.WellPlaced → ∃ x, p.buf[pkt.fragId.toNat]? = some (some x))

variable {b calls}

/-- `insert` answers with an error exactly to what a check on the header or a
filled slot stops. -/
theorem insert_err_iff {p : PacketBuffer B} (hwf : p.WF) {pkt : PacketRx} {data : B} :
    (∃ e, (p.insertPkt b pkt data).2 = .err e) ↔ StopsElsewhere p pkt data := by
  by_cases hadm : p.Admits pkt data
  · have hno : ¬ StopsElsewhere p pkt data := by
      rintro ⟨-, hfilled⟩
      obtain ⟨x, hx⟩ := hfilled ⟨hadm.id, hadm.addr⟩
      rw [hadm.free] at hx
      cases hx
    rw [insert_admitted hwf hadm]
    split_ifs <;> simp [hno]
  · have href := (insert_refused (b := b) hadm).2
    generalize (p.insertPkt b pkt data).2 = res at href
    cases href with
    | wrongSize h => simp [StopsElsewhere, h]
    | misplaced hsize h e => simp [StopsElsewhere, hsize, h]
    | noSlot hsize hplaced h => simp [StopsElsewhere, hplaced, h]
    | duplicate hsize hplaced x h => simp [StopsElsewhere, hsize, h]

theorem errAt_iff {i : ℕ} {now : Instant} {pkt : PacketRx} {data : B} {p : PacketBuffer B}
    (hi : calls[i]? = some (.assemble now pkt data))
    (hp : (buffersAt b calls i).get pkt.key = some p) :
    (∃ e, (connection b).outAt calls i = some (.assembled (.err e))) ↔ StopsElsewhere p pkt data := by
  have hcur : (buffersAt b calls i).current now pkt = p := by rw [Buffers.current, hp, Option.getD_some]
  rw [outAt_of_assemble hi, assemble_res]
  change (∃ e, some (Answer.assembled (((buffersAt b calls i).current now pkt).insertPkt b pkt data).2) =
    some (Answer.assembled (.err e))) ↔ _
  rw [hcur, ← insert_err_iff (b := b) (buffersAt_wf i _ p hp)]
  simp

/-! ### One total for each buffer -/

/-- What a fragment leaves in the table has the total of the buffer it went to. -/
theorem fragTotal_assemble {i : ℕ} {now : Instant} {pkt : PacketRx} {data : B} {p : PacketBuffer B}
    (hi : calls[i]? = some (.assemble now pkt data))
    (hp : (buffersAt b calls (i + 1)).get pkt.key = some p) :
    p.fragTotal = ((buffersAt b calls i).current now pkt).fragTotal := by
  have hsucc : buffersAt b calls (i + 1) = ((buffersAt b calls i).assemble b now pkt data).1 :=
    buffersAt_succ hi
  rcases get_assemble (buffersAt_wf i) (hsucc ▸ hp) with ⟨hne, -⟩ | ⟨-, ⟨-, -, rfl⟩ | ⟨-, rfl⟩⟩
  · exact absurd rfl hne
  · rfl
  · rfl

theorem fragTotal_succ {i : ℕ} {call : Call B} (hi : calls[i]? = some call) {key : Key}
    {p p' : PacketBuffer B} (hp : (buffersAt b calls i).get key = some p)
    (hp' : (buffersAt b calls (i + 1)).get key = some p') : p'.fragTotal = p.fragTotal := by
  by_cases hcall : ∃ now pkt data, call = .assemble now pkt data ∧ key = pkt.key
  · obtain ⟨now, pkt, data, rfl, rfl⟩ := hcall
    rw [fragTotal_assemble hi hp', Buffers.current, hp, Option.getD_some]
  · have hold : (buffersAt b calls i).get key = some p' := by
      have hsucc := buffersAt_succ (b := b) hi
      cases call with
      | assemble now pkt data =>
        have hne : key ≠ pkt.key := fun hk => hcall ⟨now, pkt, data, rfl, hk⟩
        rcases get_assemble (buffersAt_wf i) (hsucc ▸ hp') with ⟨-, hold⟩ | ⟨hk, -⟩
        · exact hold
        · exact absurd hk hne
      | _ => exact step_get (by simp) (hsucc ▸ hp')
    rw [hp] at hold
    cases hold
    rfl

/-- As long as the buffer of a key stays, its total stays. -/
theorem fragTotal_stays {i d : ℕ} {key : Key} {p p' : PacketBuffer B} (hid : i ≤ d)
    (hd : d ≤ calls.length) (halive : ∀ k, i ≤ k → k ≤ d → (buffersAt b calls k).get key ≠ none)
    (hp : (buffersAt b calls i).get key = some p) (hp' : (buffersAt b calls d).get key = some p') :
    p'.fragTotal = p.fragTotal := by
  induction hid generalizing p' with
  | refl =>
    rw [hp] at hp'
    cases hp'
    rfl
  | step hik ih =>
    rename_i k
    obtain ⟨q, hq⟩ := Option.ne_none_iff_exists'.1 (halive k hik (Nat.le_succ k))
    rw [fragTotal_succ (List.getElem?_eq_getElem hd) hq hp']
    exact ih (Nat.le_of_lt hd) (fun m h1 h2 => halive m h1 (Nat.le_succ_of_le h2)) hq

/-- All fragments that go to one buffer go to a buffer of one total. -/
theorem CreatedAt.fragTotal {c j d : ℕ} {now now' : Instant} {pkt pkt' : PacketRx} {data data' : B}
    (hc : CreatedAt b calls pkt'.key c d) (hcj : c ≤ j) (hjd : j ≤ d) (hkey : pkt.key = pkt'.key)
    (hj : calls[j]? = some (.assemble now pkt data)) (hd : calls[d]? = some (.assemble now' pkt' data')) :
    ((buffersAt b calls d).current now' pkt').fragTotal =
      ((buffersAt b calls j).current now pkt).fragTotal := by
  rcases Nat.eq_or_lt_of_le hjd with rfl | hlt
  · rw [hj] at hd
    cases hd
    rfl
  · obtain ⟨p, hp⟩ := Option.ne_none_iff_exists'.1 (hc.alive (j + 1) (by omega) hlt)
    obtain ⟨p', hp'⟩ := Option.ne_none_iff_exists'.1 (hc.alive d (by omega) (Nat.le_refl d))
    have hdlen := (List.getElem?_eq_some_iff.1 hd).1
    have hcur : (buffersAt b calls d).current now' pkt' = p' := by
      rw [Buffers.current, hp', Option.getD_some]
    rw [hcur, fragTotal_stays hlt (Nat.le_of_lt hdlen) (fun k h1 h2 => hc.alive k (by omega) h2) hp hp']
    exact fragTotal_assemble hj (hkey ▸ hp)

/-- Every step that meets a stored buffer of another total stops elsewhere. -/
def MismatchStops (b : Build) (calls : List (Call B)) : Prop :=
  ∀ i now pkt data, calls[i]? = some (.assemble now pkt data) →
    ∀ p, (buffersAt b calls i).get pkt.key = some p → p.fragTotal ≠ pkt.fragTotal →
      StopsElsewhere p pkt data

theorem refused_iff :
    (∀ i now pkt data, calls[i]? = some (.assemble now pkt data) →
      ∀ p, (buffersAt b calls i).get pkt.key = some p → p.fragTotal ≠ pkt.fragTotal →
        ∃ e, (connection b).outAt calls i = some (.assembled (.err e))) ↔ MismatchStops b calls := by
  constructor
  · intro h i now pkt data hi p hp hne
    exact (errAt_iff hi hp).1 (h i now pkt data hi p hp hne)
  · intro h i now pkt data hi p hp hne
    exact (errAt_iff hi hp).2 (h i now pkt data hi p hp hne)

/-- An accepted fragment declares the total of its buffer. -/
theorem MismatchStops.accepted (h : MismatchStops b calls) {j : ℕ} {now : Instant} {pkt : PacketRx}
    {data : B} (hj : calls[j]? = some (.assemble now pkt data)) (hacc : AcceptedAt b calls j pkt data) :
    ((buffersAt b calls j).current now pkt).fragTotal = pkt.fragTotal := by
  have hadm := (acceptedAt_iff hj).1 hacc
  unfold Buffers.current at hadm ⊢
  cases hp : (buffersAt b calls j).get pkt.key with
  | none => rfl
  | some p =>
    rw [hp, Option.getD_some] at hadm
    by_contra hne
    obtain ⟨-, hfilled⟩ := h j now pkt data hj p hp hne
    obtain ⟨x, hx⟩ := hfilled ⟨hadm.id, hadm.addr⟩
    rw [hadm.free] at hx
    cases hx

/-- On every run, delivered packets are consistent and other totals are refused if
and only if every fragment that declares another total than its stored buffer is
stopped by its own header or by a filled slot. -/
theorem totalsAgree_iff (b : Build) (calls : List (Call B)) :
    TotalsAgree b calls ↔ MismatchStops b calls := by
  constructor
  · exact fun h => refused_iff.1 h.refused
  · refine fun h => ⟨?_, refused_iff.2 h⟩
    rintro d pkt asm hdel i j ⟨c, hc, hcj, hjd, pkt', data', hacc', hkey, -⟩ frag data hacc
    obtain ⟨rfl, rfl⟩ := hacc.unique hacc'
    obtain ⟨now', res, hj, -⟩ := id hacc
    obtain ⟨now, last, hd, hout⟩ := hdel
    obtain ⟨hadm, -, -, rfl⟩ := assemble_complete (buffersAt_wf d) ((outAt_assemble hd).1 hout)
    have hwf : (buffersAt b calls d).WF := buffersAt_wf d
    have hlen := (hwf.current now pkt).len
    rw [hc.fragTotal hcj hjd hkey hj hd, h.accepted hj hacc] at hlen
    simpa [PacketBuffer.fill] using hlen.symm

/-- The second fragment of a packet of two declares that there are three, and is
accepted; the packet is delivered with two pieces. -/
theorem totalsAgree_not :
    let addr : Address := .socketAddress (.v4 ⟨127, 0, 0, 1⟩ 53)
    let calls : List (Call (List UInt8)) :=
      [.assemble 0 ⟨1, 0, 2, 0, 1, addr⟩ [7], .assemble 1 ⟨1, 0, 3, 1, 1, .none⟩ [8]]
    DeliveredAt .release64 calls 1 ⟨1, 0, 3, 1, 1, .none⟩ ⟨[some [7], some [8]], addr, 1⟩ ∧
      ¬ TotalsAgree .release64 calls := by
  refine ⟨⟨1, [8], rfl, rfl⟩, fun h => ?_⟩
  obtain ⟨e, he⟩ := h.refused 1 1 ⟨1, 0, 3, 1, 1, .none⟩ [8] rfl _ rfl (by decide)
  cases he

end Tuic.Model
