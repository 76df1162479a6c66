import Mathlib.Data.Nat.Find
import Tuic.Sanity.Fragments

/-! Fragmentation followed by reassembly over a network that reorders and loses
fragments: any family of packets under distinct keys, any schedule of their
fragments, and garbage collection that comes too early for every live buffer. -/

namespace Tuic.Model

open Lib

/-- A packet that was sent: its iteration ran to its end and did not need more
than 255 fragments. -/
structure Sent (b : Build) where
  tx : PacketTx
  payload : List UInt8
  frags : List Fragment
  payload_le : payload.length ≤ b.isizeMax
  addressed : tx.addr ≠ .none
  max_le : tx.maxPktSize ≤ 65535
  count : ∃ n ≤ 255, tx.fragCount b payload.length = .ok n
  done : tx.fragments b payload = (frags, .ok ())

namespace Sent

variable {b : Build} (p : Sent b)

def key : Key := (p.tx.assocId, p.tx.pktId)

/-- The header fits the packet size, or the payload the size field. -/
def Fits : Prop := headerLen p.tx.addr ≤ p.tx.maxPktSize ∨ p.payload.length ≤ 65535

variable {p}

theorem piece_small (h : p.Fits) (i : ℕ) : (p.tx.piece b p.payload i).length < 2 ^ 16 := by
  obtain ⟨hle, hroom⟩ := PacketTx.piece_length_le b p.tx p.payload i
  rcases h with hhdr | hlen
  · have hmax := p.max_le
    have hlt := PacketTx.headerLen_none_lt p.addressed
    have hfirst : p.tx.firstSize b = p.tx.maxPktSize - headerLen p.tx.addr := b.wrappingSub_of_le hhdr
    have hrest : p.tx.restSize b = p.tx.maxPktSize - headerLen .none := b.wrappingSub_of_le (by omega)
    split_ifs at hroom <;> omega
  · omega

theorem inMemory (p : Sent b) : PacketTx.InMemory b p.tx p.payload := by
  have hbits : (2 : ℕ) ^ 32 ≤ 2 ^ b.usizeBits := Nat.pow_le_pow_right (by decide) b.bits_ge
  have := p.max_le
  exact ⟨p.payload_le, by omega⟩

/-- All fragments of a sent packet are yielded, and they cover its payload. -/
theorem frags_eq (p : Sent b) : ∃ n, 0 < n ∧ n ≤ 255 ∧ p.tx.cut b p.payload.length n = p.payload.length ∧
    p.frags = (List.range n).map (p.tx.frag b p.payload (UInt8.ofNat n)) := by
  obtain ⟨n, hn, hfrags⟩ := PacketTx.fragments_done p.inMemory p.done
  obtain ⟨n', hle, hn'⟩ := p.count
  obtain rfl : n = n' := Outcome.ok.inj (hn.symm.trans hn')
  obtain ⟨hpos, hcut⟩ := PacketTx.cut_fragCount p.payload_le hn
  rw [Nat.mod_eq_of_lt (show n < 256 by omega)] at hfrags
  exact ⟨n, hpos, hle, hcut, hfrags⟩

theorem frags_pos (p : Sent b) : 0 < p.frags.length := by
  obtain ⟨n, hpos, -, -, hfrags⟩ := p.frags_eq
  simpa [hfrags] using hpos

/-- The fragments of a sent packet are a message with its payload. -/
theorem exists_message (h : p.Fits) : ∃ m : Message, m.assocId = p.tx.assocId ∧ m.pktId = p.tx.pktId ∧
    m.addr = p.tx.addr ∧ m.pieces.flatten = p.payload ∧ m.pieces.length = p.frags.length ∧
    ∀ (i : ℕ) frag, p.frags[i]? = some frag → m.IsFrag i frag := by
  obtain ⟨n, hpos, hle, hcut, hfrags⟩ := p.frags_eq
  have hmod : n % 256 = n := Nat.mod_eq_of_lt (by omega)
  refine ⟨p.tx.message b p.payload n p.addressed hpos hle (piece_small h), rfl, rfl, rfl, ?_, ?_, ?_⟩
  · rw [PacketTx.message_flatten, hcut, List.take_length]
  · simp [hfrags]
  · intro i frag hi
    have hlt : i < n := by simpa [hfrags] using (List.getElem?_eq_some_iff.1 hi).1
    have hfrag : frag = p.tx.frag b p.payload (UInt8.ofNat n) i := by
      simpa [hfrags, hlt] using hi.symm
    rw [hfrag, PacketTx.frag_eq p.addressed hpos hle (piece_small h) hmod i]
    exact ⟨PacketTx.message_piece p.addressed hpos hle (piece_small h) hlt, rfl⟩

end Sent

/-! ### Schedules -/

section

variable {ι : Type} {b : Build}

/-- What happens at the receiver: it receives a fragment of a sent packet, it
assembles one, or it collects garbage. -/
inductive Event (sent : ι → Sent b)
  | recv (p : ι) (i : Fin (sent p).frags.length)
  | assemble (now : Instant) (p : ι) (i : Fin (sent p).frags.length)
  | collectGarbage (now : Instant) (timeout : Duration)

def Event.call {sent : ι → Sent b} : Event sent → Call (List UInt8)
  | .recv p i => .recvPacketUnrestricted (sent p).frags[i].1
  | .assemble now p i => .assemble now (sent p).frags[i].1 (sent p).frags[i].2
  | .collectGarbage now timeout => .collectGarbage now timeout

variable {sent : ι → Sent b} (events : List (Event sent))

/-- Event `e` assembles fragment `i` of packet `p`. -/
def AssembledAt (e : ℕ) (p : ι) (i : Fin (sent p).frags.length) : Prop :=
  ∃ now, events[e]? = some (.assemble now p i)

/-- The state of the receiver before event `e`. -/
def receiverAt (e : ℕ) : UdpSessions (List UInt8) := (connection b).stateAt (events.map Event.call) e

/-- What the receiver answers to event `e`, if that assembles a fragment. -/
def answerAt (e : ℕ) : Option (Answer (List UInt8)) := (connection b).outAt (events.map Event.call) e

/-- Every fragment is assembled at most once. -/
def NoDuplicates : Prop :=
  ∀ e e' p i, AssembledAt events e p i → AssembledAt events e' p i → e = e'

/-- Garbage collection runs only while no live buffer has reached the timeout. -/
def NoTimeout : Prop :=
  ∀ (e : ℕ) now timeout, events[e]? = some (.collectGarbage now timeout) →
    ∀ key buf, (receiverAt events e).buffers.get key = some buf → now - buf.cTime < timeout

/-! ### The run -/

/-- The fragments assembled before event `e`. -/
def arrivedBefore (e : ℕ) (p : ι) (j : ℕ) : Prop :=
  ∃ e' < e, ∃ i, i.val = j ∧ AssembledAt events e' p i

variable {events}

theorem receiverAt_succ {e : ℕ} {ev : Event sent} (h : events[e]? = some ev) :
    (receiverAt events (e + 1)).buffers = (receiverAt events e).buffers.step b ev.call := by
  have hc : (events.map Event.call)[e]? = some ev.call := by rw [List.getElem?_map, h]; rfl
  unfold receiverAt
  rw [(connection b).stateAt_succ hc]
  exact step_buffers b _ ev.call

theorem AssembledAt.unique {e : ℕ} {p q : ι} {i : Fin (sent p).frags.length}
    {j : Fin (sent q).frags.length} (h : AssembledAt events e p i) (h' : AssembledAt events e q j) :
    p = q ∧ i.val = j.val := by
  obtain ⟨now, h⟩ := h
  obtain ⟨now', h'⟩ := h'
  rw [h] at h'
  cases h'
  exact ⟨rfl, rfl⟩

theorem arrivedBefore_succ {e : ℕ} {p : ι} {i : Fin (sent p).frags.length}
    (h : AssembledAt events e p i) :
    arrivedBefore events (e + 1) = arrive (arrivedBefore events e) p i.val := by
  funext q j
  apply propext
  constructor
  · rintro ⟨e', he', k, rfl, hk⟩
    rcases Nat.lt_or_eq_of_le (Nat.le_of_lt_succ he') with hlt | rfl
    · exact .inl ⟨e', hlt, k, rfl, hk⟩
    · obtain ⟨rfl, hval⟩ := hk.unique h
      exact .inr ⟨rfl, hval⟩
  · rintro (⟨e', he', hk⟩ | ⟨rfl, rfl⟩)
    · exact ⟨e', Nat.lt_succ_of_lt he', hk⟩
    · exact ⟨e, Nat.lt_succ_self e, i, rfl, h⟩

theorem arrivedBefore_succ_of_not {e : ℕ} (h : ∀ p i, ¬ AssembledAt events e p i) :
    arrivedBefore events (e + 1) = arrivedBefore events e := by
  funext q j
  apply propext
  constructor
  · rintro ⟨e', he', k, hkj, hk⟩
    rcases Nat.lt_or_eq_of_le (Nat.le_of_lt_succ he') with hlt | rfl
    · exact ⟨e', hlt, k, hkj, hk⟩
    · exact absurd hk (h q k)
  · rintro ⟨e', he', hk⟩
    exact ⟨e', Nat.lt_succ_of_lt he', hk⟩

theorem NoDuplicates.not_arrived (h : NoDuplicates events) {e : ℕ} {p : ι}
    {i : Fin (sent p).frags.length} (he : AssembledAt events e p i) :
    ¬ arrivedBefore events e p i.val := by
  rintro ⟨e', hlt, k, hk, he'⟩
  obtain rfl : k = i := Fin.ext hk
  exact absurd (h e' e p k he' he) (Nat.ne_of_lt hlt)

theorem collectGarbage_eq {t : Buffers (List UInt8)} {now : Instant} {timeout : Duration}
    (h : ∀ key buf, t.get key = some buf → now - buf.cTime < timeout) :
    t.collectGarbage now timeout = t := by
  ext1 key
  unfold Buffers.collectGarbage
  rw [Table.get_retain]
  cases hp : t.get key with
  | none => rfl
  | some buf => simp [h key buf hp]

variable {ms : ι → Message}

/-- One event of the schedule. -/
theorem represents_step (hkey : Function.Injective fun p => (ms p).key)
    (hms : ∀ p (i : ℕ) frag, (sent p).frags[i]? = some frag → (ms p).IsFrag i frag)
    (hdup : NoDuplicates events) (hgc : NoTimeout events) {e : ℕ} {ev : Event sent}
    (he : events[e]? = some ev)
    (h : Represents ms (arrivedBefore events e) (receiverAt events e).buffers) :
    Represents ms (arrivedBefore events (e + 1)) (receiverAt events (e + 1)).buffers := by
  rw [receiverAt_succ he]
  cases ev with
  | recv p i =>
    rw [arrivedBefore_succ_of_not fun q j ⟨now, hq⟩ => by rw [he] at hq; cases hq]
    exact h
  | assemble now p i =>
    have hat : AssembledAt events e p i := ⟨now, he⟩
    obtain ⟨hx, hhead⟩ := hms p i.val _ (List.getElem?_eq_getElem i.isLt)
    rw [arrivedBefore_succ hat]
    have hstep := (h.assemble hkey b now hx (hdup.not_arrived hat)).1
    rw [← hhead] at hstep
    exact hstep
  | collectGarbage now timeout =>
    rw [arrivedBefore_succ_of_not fun q j ⟨now', hq⟩ => by rw [he] at hq; cases hq]
    change Represents ms _ ((receiverAt events e).buffers.collectGarbage now timeout)
    rw [collectGarbage_eq (hgc e now timeout he)]
    exact h

theorem represents_run (hkey : Function.Injective fun p => (ms p).key)
    (hms : ∀ p (i : ℕ) frag, (sent p).frags[i]? = some frag → (ms p).IsFrag i frag)
    (hdup : NoDuplicates events) (hgc : NoTimeout events) :
    ∀ e, e ≤ events.length → Represents ms (arrivedBefore events e) (receiverAt events e).buffers := by
  intro e
  induction e with
  | zero =>
    intro _
    have hno : arrivedBefore events 0 = fun _ _ => False := by
      funext p j
      simp [arrivedBefore]
    rw [hno]
    exact represents_empty
  | succ e ih =>
    intro he
    exact represents_step hkey hms hdup hgc (List.getElem?_eq_getElem he) (ih (Nat.le_of_lt he))

/-- The answer to a fragment is the packet if all of them have arrived with it, and
`Ok(None)` otherwise. -/
theorem answerAt_assembled (hkey : Function.Injective fun p => (sent p).key) (hdup : NoDuplicates events)
    (hgc : NoTimeout events) (hfits : ∀ p, (sent p).Fits) {e : ℕ} {p : ι}
    {i : Fin (sent p).frags.length} (he : AssembledAt events e p i) :
    ((∀ j, ∃ e' ≤ e, AssembledAt events e' p j) →
      ∃ asm, answerAt events e = some (.assembled (.ok (some asm))) ∧
        asm.assemble = .ok ((sent p).payload, (sent p).tx.addr, (sent p).tx.assocId)) ∧
    (¬ (∀ j, ∃ e' ≤ e, AssembledAt events e' p j) →
      answerAt events e = some (.assembled (.ok none))) := by
  choose ms hassoc hpkt haddr hflat hlen hfrag using fun p => Sent.exists_message (hfits p)
  have hkey' : Function.Injective fun p => (ms p).key := by
    intro p q heq
    refine hkey ?_
    simp only [Message.key, hassoc, hpkt] at heq
    exact heq
  obtain ⟨now, hev⟩ := id he
  have hle : e ≤ events.length := Nat.le_of_lt (List.getElem?_eq_some_iff.1 hev).1
  have hrep := represents_run hkey' hfrag hdup hgc e hle
  obtain ⟨hx, hhead⟩ := hfrag p i.val (sent p).frags[i] (List.getElem?_eq_getElem i.isLt)
  obtain ⟨-, hlast, hmore⟩ := hrep.assemble hkey' b now hx (hdup.not_arrived he)
  have hall : (ms p).Complete (arrive (arrivedBefore events e) p i.val p) ↔
      ∀ j, ∃ e' ≤ e, AssembledAt events e' p j := by
    rw [← arrivedBefore_succ he]
    constructor
    · intro hc j
      obtain ⟨e', hlt, k, hk, hat⟩ := hc j.val (by rw [hlen p]; exact j.isLt)
      obtain rfl : k = j := Fin.ext hk
      exact ⟨e', Nat.le_of_lt_succ hlt, hat⟩
    · intro hc j hj
      obtain ⟨e', hle', hat⟩ := hc ⟨j, hlen p ▸ hj⟩
      exact ⟨e', Nat.lt_succ_of_le hle', _, rfl, hat⟩
  have hout : answerAt events e = some (.assembled
      ((receiverAt events e).buffers.assemble b now ((ms p).header i.val (sent p).frags[i].2)
        (sent p).frags[i].2).2) := by
    have hc : (events.map Event.call)[e]? =
        some (.assemble now (sent p).frags[i].1 (sent p).frags[i].2) := by
      rw [List.getElem?_map, hev]
      rfl
    unfold answerAt
    rw [outAt_of_assemble hc, (assemble_buffers b now _ _ _).2, ← hhead]
    rfl
  rw [hall] at hlast hmore
  rw [hout]
  refine ⟨fun hc => ?_, fun hc => congrArg (fun res => some (Answer.assembled res)) (hmore hc)⟩
  obtain ⟨asm, hasm, hok⟩ := hlast hc
  refine ⟨asm, congrArg (fun res => some (Answer.assembled res)) hasm, ?_⟩
  rw [hok, hflat p, haddr p, hassoc p]

theorem exists_last {P : ℕ → Prop} {n : ℕ} (hn : ∀ e, P e → e ≤ n) (h : ∃ e, P e) :
    ∃ d, P d ∧ ∀ e, P e → e ≤ d := by
  classical
  obtain ⟨e, he⟩ := h
  exact ⟨Nat.findGreatest P n, Nat.findGreatest_spec (hn e he) he,
    fun e' he' => Nat.le_findGreatest (hn e' he') he'⟩

end

/-- Fragments of any packets under distinct keys, each assembled at most once, in
any order and with any of them lost, never fail to assemble; a packet whose
fragments all arrive is delivered exactly once, with its last fragment, as it was
sent; and a packet with a missing fragment is never delivered. -/
theorem lossless {ι : Type} {b : Build} (sent : ι → Sent b) (events : List (Event sent))
    (hkey : Function.Injective fun p => (sent p).key) (hdup : NoDuplicates events)
    (hgc : NoTimeout events) (hfits : ∀ p, (sent p).Fits) :
    (∀ e res, answerAt events e = some (.assembled res) → ∃ o, res = .ok o) ∧
    (∀ p, (∀ i, ∃ e, AssembledAt events e p i) → ∃ d i asm, AssembledAt events d p i ∧
      (∀ e j, AssembledAt events e p j → e ≤ d) ∧
      answerAt events d = some (.assembled (.ok (some asm))) ∧
      asm.assemble = .ok ((sent p).payload, (sent p).tx.addr, (sent p).tx.assocId) ∧
      ∀ e j, AssembledAt events e p j → e ≠ d → answerAt events e = some (.assembled (.ok none))) ∧
    ∀ p, (∃ i, ∀ e, ¬ AssembledAt events e p i) →
      ∀ e j, AssembledAt events e p j → answerAt events e = some (.assembled (.ok none)) := by
  refine ⟨fun e res hres => ?_, fun p hall => ?_, fun p ⟨i, hmiss⟩ e j he => ?_⟩
  · obtain ⟨call, hcall, hout⟩ := (connection b).outAt_some hres
    rw [List.getElem?_map, Option.map_eq_some_iff] at hcall
    obtain ⟨ev, hev, rfl⟩ := hcall
    cases ev with
    | recv p i => cases hout
    | collectGarbage now timeout => cases hout
    | assemble now p i =>
      obtain ⟨hlast, hmore⟩ := answerAt_assembled hkey hdup hgc hfits (e := e) (i := i) ⟨now, hev⟩
      by_cases hc : ∀ j, ∃ e' ≤ e, AssembledAt events e' p j
      · obtain ⟨asm, hasm, -⟩ := hlast hc
        exact ⟨some asm, by simpa [hres] using hasm⟩
      · exact ⟨none, by simpa [hres] using hmore hc⟩
  · obtain ⟨d, ⟨i, hd⟩, hlast⟩ := exists_last (P := fun e => ∃ i, AssembledAt events e p i)
      (n := events.length) (fun e ⟨i, now, he⟩ => Nat.le_of_lt (List.getElem?_eq_some_iff.1 he).1)
      ⟨_, ⟨0, (sent p).frags_pos⟩, (hall ⟨0, (sent p).frags_pos⟩).choose_spec⟩
    have hdone : ∀ j, ∃ e' ≤ d, AssembledAt events e' p j := by
      intro j
      obtain ⟨e, he⟩ := hall j
      exact ⟨e, hlast e ⟨j, he⟩, he⟩
    obtain ⟨asm, hasm, hok⟩ := (answerAt_assembled hkey hdup hgc hfits hd).1 hdone
    refine ⟨d, i, asm, hd, fun e j he => hlast e ⟨j, he⟩, hasm, hok, fun e j he hne => ?_⟩
    refine (answerAt_assembled hkey hdup hgc hfits he).2 fun hc => ?_
    -- the fragment of event `d` has not arrived before it
    obtain ⟨e', hle, he'⟩ := hc i
    have := hdup e' d p i he' hd
    have := hlast e ⟨j, he⟩
    omega
  · refine (answerAt_assembled hkey hdup hgc hfits he).2 fun hc => ?_
    obtain ⟨e', -, he'⟩ := hc i
    exact hmiss e' he'

/-- Four bytes at a packet size of 20, which is two fragments. -/
def twoFragments : Sent .release64 where
  tx := ⟨1, 0, .socketAddress (.v4 ⟨127, 0, 0, 1⟩ 53), 20⟩
  payload := [10, 20, 30, 40]
  frags := [(⟨1, 0, 2, 0, 3, .socketAddress (.v4 ⟨127, 0, 0, 1⟩ 53)⟩, [10, 20, 30]),
    (⟨1, 0, 2, 1, 1, .none⟩, [40])]
  payload_le := by decide
  addressed := by decide
  max_le := by decide
  count := ⟨2, by decide, rfl⟩
  done := rfl

/-- The second fragment arrives before the first. -/
def reordered : List (Event fun _ : Unit => twoFragments) :=
  [.assemble 0 () ⟨1, by decide⟩, .assemble 5 () ⟨0, by decide⟩]

theorem reordered_noDuplicates : NoDuplicates reordered := by
  rintro (_ | _ | e) (_ | _ | e') p i ⟨now, h⟩ ⟨now', h'⟩ <;>
    simp [reordered] at h h' <;> grind

theorem lossless_reordered : ∃ d asm,
    answerAt reordered d = some (.assembled (.ok (some asm))) ∧
      asm.assemble = .ok ([10, 20, 30, 40], .socketAddress (.v4 ⟨127, 0, 0, 1⟩ 53), 1) := by
  obtain ⟨-, hall, -⟩ := lossless (fun _ : Unit => twoFragments) reordered (fun _ _ _ => rfl)
    reordered_noDuplicates (by rintro (_ | _ | e) now timeout h <;> simp [reordered] at h)
    fun _ => .inl (by decide)
  obtain ⟨d, i, asm, -, -, hasm, hok, -⟩ := hall () fun i => by
    obtain ⟨_ | _ | i, hi⟩ := i
    · exact ⟨1, 5, rfl⟩
    · exact ⟨0, 0, rfl⟩
    · exact absurd hi (by simp [twoFragments])
  exact ⟨d, asm, hasm, hok⟩

/-! ### A header larger than the packet size -/

/-- Without overflow checks the room behind such a header wraps to more than any
payload takes, and the payload goes out as one fragment whatever its size. -/
theorem fragments_of_wrap {b : Build} (hc : b.overflowChecks = false) {tx : PacketTx}
    {payload : List UInt8} (hlt : tx.maxPktSize < headerLen tx.addr)
    (hfit : payload.length + headerLen tx.addr ≤ 2 ^ b.usizeBits + tx.maxPktSize)
    (hne : payload ≠ []) :
    tx.fragCount b payload.length = .ok 1 ∧ tx.fragments b payload =
      ([(⟨tx.assocId, tx.pktId, 1, 0, UInt16.ofNat payload.length, tx.addr⟩, payload)], .ok ()) := by
  have hpos := List.length_pos_iff.2 hne
  have hroom : b.wrappingSub tx.maxPktSize (headerLen tx.addr) =
      2 ^ b.usizeBits + tx.maxPktSize - headerLen tx.addr := by
    rw [Build.wrappingSub, if_neg (by omega), Nat.mod_eq_of_lt (by omega)]
  have hcount : tx.fragCount b payload.length = .ok 1 := by
    simp only [PacketTx.fragCount, b.subUsize_unchecked hc, Outcome.ok_bind, hroom]
    rw [if_neg (by omega)]
    rfl
  have hnext : (tx.fragmentsAt b payload 1 0).next b = .ok (some
      ((⟨tx.assocId, tx.pktId, 1, 0, UInt16.ofNat payload.length, tx.addr⟩, payload),
        { tx.fragmentsAt b payload 1 0 with
          addr := .none, nextFragId := 1, nextFragStart := payload.length })) := by
    unfold Fragments.next
    simp only [PacketTx.fragmentsAt, if_true, PacketTx.cut, b.subUsize_unchecked hc,
      Outcome.ok_bind, hroom]
    rw [if_pos (by decide : UInt8.ofNat 0 < 1)]
    rw [b.addUsize_of_lt (by omega), Outcome.ok_bind, Nat.min_eq_right (by omega),
      b.wrappingSub_of_le (Nat.zero_le _), if_pos hpos]
    have hadd : (b.addU8 0 1 : Outcome Empty UInt8) = .ok 1 :=
      b.addU8_of_lt (by decide)
    simp [fromRawParts, hadd]
  refine ⟨hcount, ?_⟩
  have hinto : tx.intoFragments b payload = .ok (tx.fragmentsAt b payload 1 0) := by
    rw [PacketTx.intoFragments, Fragments.new, hcount]
    rfl
  simp only [PacketTx.fragments, hinto]
  change Fragments.take b 1 _ = _
  rw [Fragments.take, hnext]
  rfl

@[irreducible] def zeros : List UInt8 := List.replicate 65536 0

theorem zeros_length : zeros.length = 65536 := by
  rw [zeros, List.length_replicate]

/-- 65536 bytes at a packet size of 5, below that of the header, which is 17. -/
def oversized : Sent .release64 where
  tx := ⟨1, 0, .socketAddress (.v4 ⟨127, 0, 0, 1⟩ 53), 5⟩
  payload := zeros
  frags := [(⟨1, 0, 1, 0, UInt16.ofNat zeros.length, .socketAddress (.v4 ⟨127, 0, 0, 1⟩ 53)⟩, zeros)]
  payload_le := by
    rw [zeros_length]
    decide
  addressed := by decide
  max_le := by decide
  count := ⟨1, by decide, (fragments_of_wrap rfl (by decide) (by rw [zeros_length]; decide)
    (List.ne_nil_of_length_pos (by rw [zeros_length]; decide))).1⟩
  done := (fragments_of_wrap rfl (by decide) (by rw [zeros_length]; decide)
    (List.ne_nil_of_length_pos (by rw [zeros_length]; decide))).2

/-- Its only fragment announces the size 0 and makes the receiver panic. -/
theorem lossless_fails :
    let events : List (Event fun _ : Unit => oversized) := [.assemble 0 () ⟨0, by decide⟩]
    Function.Injective (fun _ : Unit => oversized.key) ∧ NoDuplicates events ∧ NoTimeout events ∧
      answerAt events 0 = some (.assembled (.panic .assertFailed)) := by
  intro events
  refine ⟨fun _ _ _ => rfl, ?_, ?_, ?_⟩
  · rintro (_ | e) (_ | e') p i ⟨now, h⟩ ⟨now', h'⟩ <;> simp [events] at h h' ⊢
  · rintro (_ | e) now timeout h <;> simp [events] at h
  · have hc : (events.map Event.call)[0]? = some (.assemble 0
        ⟨1, 0, 1, 0, UInt16.ofNat zeros.length, .socketAddress (.v4 ⟨127, 0, 0, 1⟩ 53)⟩ zeros) := rfl
    unfold answerAt
    rw [outAt_of_assemble hc, assemble_wrong_size]
    change zeros.length ≠ (UInt16.ofNat zeros.length).toNat
    rw [zeros_length]
    decide

end Tuic.Model
