import Tuic.Proofs.Exchange
import Tuic.Spec.ExchangeCount

/-! When `exchange_tcp` counts what it relays: as long as a `usize` can. Whatever the
counts are, each direction writes a prefix of what was sent. -/

namespace Tuic.Server

open Lib

/-! ### The counts -/

section

variable {b : Build} {s : CountedExchange}

theorem read_of_takes {s : Exchange} {source : End} {num : ℕ} (h : s.Takes source num) (k : End) :
    ((s.read source num).dirs k).num = (s.dirs k).num + if k = source then num else 0 := by
  obtain ⟨hphase, hunread, hnum⟩ := h
  simp only [Exchange.read, hphase, hunread, hnum, ne_eq, not_true_eq_false, if_false, and_self, if_true]
  by_cases hk : k = source
  · subst hk
    simp
  · simp [hk]

/-- No other step counts anything. -/
theorem num_step {s : Exchange} {a : ExchangeStep}
    (h : ∀ source num, a = .read source num → ¬ s.Takes source num) (k : End) :
    ((s.step a).dirs k).num = (s.dirs k).num := by
  have he := step_exchangeEffect s a
  generalize hs' : s.step a = s' at he ⊢
  cases he with
  | arrived source bytes unfinished => exact put_same Direction.num (by rfl) k
  | finished source => exact put_same Direction.num (by rfl) k
  | took source num selecting =>
    exact absurd (takes_of_read selecting (congrArg Exchange.phase hs')) (h source num rfl)
  | ended => rfl
  | wrote source num rest writing => exact put_same Direction.num (by rfl) k
  | failed => rfl
  | idle => rfl

/-- A step is nothing after a panic, a read, or one of the relay that counts nothing. -/
theorem counted_cases (s : CountedExchange) (a : ExchangeStep) :
    s.step b a = s ∨ (∃ source num, a = .read source num ∧ s.step b a = s.read b source num) ∨
      (∀ source num, a ≠ .read source num) ∧ s.step b a = { s with relay := s.relay.step a } := by
  cases a with
  | arrive source bytes => exact .inr (.inr ⟨nofun, rfl⟩)
  | finish source => exact .inr (.inr ⟨nofun, rfl⟩)
  | read source num => exact (ite_eq_or_eq _ _ _).imp_right fun hread => .inl ⟨source, num, rfl, hread⟩
  | write num => exact (ite_eq_or_eq _ _ _).imp_right fun hrelay => .inr ⟨nofun, hrelay⟩
  | readFails => exact (ite_eq_or_eq _ _ _).imp_right fun hrelay => .inr ⟨nofun, hrelay⟩
  | writeFails => exact (ite_eq_or_eq _ _ _).imp_right fun hrelay => .inr ⟨nofun, hrelay⟩

theorem add_relay (b : Build) (s : CountedExchange) (source : End) (num : ℕ) :
    (s.add b source num).relay = s.relay := by
  unfold CountedExchange.add
  split
  · rfl
  · rename_i e _
    cases e
  · rfl

theorem read_relay (b : Build) (s : CountedExchange) (source : End) (num : ℕ) :
    (s.read b source num).relay = s.relay.read source num := by
  unfold CountedExchange.read
  split_ifs
  · exact add_relay b _ source num
  · rfl

theorem relay_reachable (h : (countedExchange b).Reachable s) : exchangeTcp.Reachable s.relay := by
  refine h.invariant (P := fun s => exchangeTcp.Reachable s.relay) exchangeTcp.reachable_init fun s a hs => ?_
  change exchangeTcp.Reachable (s.step b a).relay
  rcases counted_cases (b := b) s a with hsame | ⟨source, num, rfl, hread⟩ | ⟨-, hrelay⟩
  · rwa [hsame]
  · rw [hread, read_relay]
    exact exchangeTcp.reachable_step hs (.read source num)
  · rw [hrelay]
    exact exchangeTcp.reachable_step hs a

/-- A call that has not panicked has what it read modulo the number of `usize` values. -/
def CountedExchange.Wraps (b : Build) (s : CountedExchange) : Prop :=
  s.panicked = false → ∀ k, s.nums k = (s.relay.dirs k).num % 2 ^ b.usizeBits

theorem CountedExchange.Wraps.relay (h : s.Wraps b) {relay : Exchange}
    (hnum : ∀ k, (relay.dirs k).num = (s.relay.dirs k).num) : ({ s with relay } : CountedExchange).Wraps b :=
  fun hok k => (h hok k).trans (by rw [hnum])

theorem CountedExchange.Wraps.read (h : s.Wraps b) (source : End) (num : ℕ) : (s.read b source num).Wraps b := by
  unfold CountedExchange.read
  split_ifs with htakes
  · unfold CountedExchange.add
    split
    · rename_i n hn
      intro hok k
      have hsum := b.eq_of_addUsize hn
      change Function.update s.nums source n k = ((s.relay.read source num).dirs k).num % _
      rw [read_of_takes htakes]
      by_cases hk : k = source
      · subst hk
        rw [Function.update_self, if_pos rfl, hsum, h hok k, Nat.mod_add_mod]
      · rw [Function.update_of_ne hk, if_neg hk, Nat.add_zero]
        exact h hok k
    · rename_i e _
      cases e
    · exact fun hok => by cases hok
  · refine h.relay (num_step (a := .read source num) fun source' num' heq => ?_)
    cases heq
    exact htakes

theorem CountedExchange.Wraps.step (h : s.Wraps b) (a : ExchangeStep) : (s.step b a).Wraps b := by
  rcases counted_cases (b := b) s a with hsame | ⟨source, num, -, hread⟩ | ⟨hno, hrelay⟩
  · rwa [hsame]
  · rw [hread]
    exact h.read source num
  · rw [hrelay]
    exact h.relay (num_step fun source num heq => absurd heq (hno source num))

theorem wraps_of_reachable (h : (countedExchange b).Reachable s) : s.Wraps b :=
  h.invariant (P := CountedExchange.Wraps b) (fun _ _ => (Nat.zero_mod _).symm) fun _ a hs => hs.step a

theorem counted_taken {gap : End → List UInt8} (h : s.relay.Ahead gap) (k : End) :
    s.taken k = (s.relay.dirs k).num := by
  simp only [CountedExchange.taken, h.sent k, h.num k, List.length_append]
  omega

/-- A count that has wrapped is below what has been written. -/
theorem nums_lt_written {gap : End → List UInt8} (h : s.relay.Ahead gap) {k : End}
    (hnum : s.nums k = (s.relay.dirs k).num % 2 ^ b.usizeBits) (hge : 2 ^ b.usizeBits ≤ s.taken k) :
    s.nums k < (s.relay.dirs k).written.length := by
  rw [counted_taken h] at hge
  have hbits : (2 : ℕ) ^ 32 ≤ 2 ^ b.usizeBits := Nat.pow_le_pow_right (by decide) b.bits_ge
  have hsmall : (gap k).length ≤ 8192 := h.small k
  have hlen := h.num k
  rw [Nat.mod_eq_sub_mod hge] at hnum
  have hle := Nat.mod_le ((s.relay.dirs k).num - 2 ^ b.usizeBits) (2 ^ b.usizeBits)
  omega

end

/-- Each direction is a prefix of what was sent, and the counts are what has been written
or, after an error, at most a buffer ahead in one direction, if and only if what has been
read by the return fits a `usize`. -/
theorem countsRelayed_iff (b : Build) (steps : List ExchangeStep) :
    CountsRelayed b steps ↔ ReadsFit b steps := by
  have hwraps : ∀ n, ((countedExchange b).stateAt steps n).Wraps b := fun n =>
    wraps_of_reachable ((countedExchange b).stateAt_reachable steps n)
  have hahead : ∀ n, ∃ gap, ((countedExchange b).stateAt steps n).relay.Ahead gap := fun n =>
    exchange_ahead (relay_reachable ((countedExchange b).stateAt_reachable steps n))
  constructor
  · intro h n hn failed hreturned source
    obtain ⟨gap, hgap⟩ := hahead n
    by_contra hge
    have hlt := nums_lt_written hgap (hwraps n hreturned.1 source) (Nat.not_lt.1 hge)
    cases failed with
    | false =>
      have := h.counts n hn hreturned source
      omega
    | true =>
      obtain ⟨ahead, hother, hwritten, -⟩ := h.failed n hn hreturned
      rcases eq_or_eq_other source ahead with rfl | rfl <;> omega
  · intro h
    have hexact : ∀ n ≤ steps.length, ∀ failed, ((countedExchange b).stateAt steps n).Returned failed →
        ∀ {gap}, ((countedExchange b).stateAt steps n).relay.Ahead gap → ∀ k,
        ((countedExchange b).stateAt steps n).nums k =
          (((countedExchange b).stateAt steps n).relay.dirs k).written.length + (gap k).length := by
      intro n hn failed hreturned gap hgap k
      have hfits := h n hn failed hreturned k
      rw [counted_taken hgap] at hfits
      rw [hwraps n hreturned.1 k, Nat.mod_eq_of_lt hfits, hgap.num k]
    refine ⟨fun n hn source => ?_, fun n hn hreturned source => ?_, fun n hn hreturned => ?_⟩
    · obtain ⟨gap, hgap⟩ := hahead n
      rw [hgap.sent source, List.append_assoc]
      exact List.prefix_append _ _
    · obtain ⟨gap, hgap⟩ := hahead n
      have hnone : gap source = [] := by
        rw [hgap.waits (by simp [hreturned.2]), Exchange.pending, hreturned.2]
      rw [hexact n hn false hreturned hgap, hnone]
      rfl
    · obtain ⟨gap, hgap⟩ := hahead n
      obtain ⟨ahead, hone⟩ := hgap.one
      have hnum := hexact n hn true hreturned hgap
      have hsmall := hgap.small ahead
      refine ⟨ahead, ?_, ?_, ?_⟩
      · rw [hnum, hone]
        rfl
      · rw [hnum]
        exact Nat.le_add_right _ _
      · rw [hnum]
        exact Nat.add_le_add_left hsmall _

/-! ### A long download -/

/-- The targets of 32 bits are built without overflow checks. -/
def release32 : Build := ⟨false, 32, by decide⟩

/-- Bytes of the target on their way to the client. -/
def relayed (bytes : List UInt8) : List ExchangeStep :=
  [.arrive .b bytes, .read .b bytes.length, .write bytes.length]

theorem add_release32 (s : CountedExchange) (source : End) (num : ℕ) :
    (s.add release32 source num).panicked = s.panicked := by
  unfold CountedExchange.add Build.addUsize
  by_cases hfits : s.nums source + num < 2 ^ release32.usizeBits
  · simp only [if_pos hfits]
  · have hc : release32.overflowChecks = false := rfl
    simp only [if_neg hfits, hc, Bool.false_eq_true, if_false]

/-- The loop waits for the target, of which it has read `num` bytes. -/
structure Exchange.Downloading (s : Exchange) (num : ℕ) : Prop where
  selecting : s.phase = .selecting
  unread : (s.dirs .b).unread = []
  unfinished : (s.dirs .b).finished = false
  num : (s.dirs .b).num = num

@[simp] theorem put_phase (s : Exchange) (source : End) (dir : Direction) : (s.put source dir).phase = s.phase :=
  rfl

section

variable {bytes : List UInt8} (hne : bytes ≠ []) (hlen : bytes.length ≤ bufferSize)

include hne hlen

theorem Exchange.Downloading.takes {s : Exchange} {num : ℕ} (h : s.Downloading num) :
    (s.step (.arrive .b bytes)).Takes .b bytes.length := by
  have hunread : ((s.step (.arrive .b bytes)).dirs .b).unread = bytes := by
    simp [Exchange.step, Direction.arrive, h.unfinished, h.unread]
  exact ⟨h.selecting, hunread.symm ▸ hne, List.length_pos_iff.2 hne, hlen, hunread.symm ▸ Nat.le_refl _⟩

theorem Exchange.Downloading.relayed {s : Exchange} {num : ℕ} (h : s.Downloading num) :
    (((s.step (.arrive .b bytes)).read .b bytes.length).write bytes.length).Downloading (num + bytes.length) := by
  have hpos := List.length_pos_iff.2 hne
  have hread : (s.step (.arrive .b bytes)).read .b bytes.length =
      { s.put .b { s.dirs .b with
          sent := (s.dirs .b).sent ++ bytes, unread := [], num := num + bytes.length } with
        phase := .writing .b bytes } := by
    simp [Exchange.read, Exchange.step, Direction.arrive, Exchange.put, h.selecting, h.unfinished, h.unread,
      h.num, hne, hlen, hpos]
  rw [hread]
  refine ⟨?_, ?_, ?_, ?_⟩
  · simp [Exchange.write]
  · simp [Exchange.write]
  · simp [Exchange.write, h.unfinished]
  · simp [Exchange.write]

theorem counted_relayed {s : CountedExchange} {num : ℕ} (h : s.relay.Downloading num)
    (hrunning : s.panicked = false) :
    ((countedExchange release32).exec s (relayed bytes)).relay.Downloading (num + bytes.length) ∧
      ((countedExchange release32).exec s (relayed bytes)).panicked = false := by
  have hread : ({ s with relay := s.relay.step (.arrive .b bytes) } : CountedExchange).step release32
      (.read .b bytes.length) = ({ s with
        relay := (s.relay.step (.arrive .b bytes)).read .b bytes.length } : CountedExchange).add release32 .b
          bytes.length := by
    simp only [CountedExchange.step, CountedExchange.read, hrunning, h.takes hne hlen, if_true]
    rfl
  change ((CountedExchange.step release32 { s with relay := s.relay.step (.arrive .b bytes) }
      (.read .b bytes.length)).step release32 (.write bytes.length)).relay.Downloading _ ∧
    ((CountedExchange.step release32 { s with relay := s.relay.step (.arrive .b bytes) }
      (.read .b bytes.length)).step release32 (.write bytes.length)).panicked = false
  rw [hread]
  have hok := (add_release32 { s with
    relay := (s.relay.step (.arrive .b bytes)).read .b bytes.length } .b bytes.length).trans hrunning
  simp only [CountedExchange.step, hok, Bool.false_eq_true, if_false, add_relay, and_true]
  exact h.relayed hne hlen

theorem counted_buffers {s : CountedExchange} {num : ℕ} (h : s.relay.Downloading num)
    (hrunning : s.panicked = false) (n : ℕ) :
    ((countedExchange release32).exec s (List.replicate n (relayed bytes)).flatten).relay.Downloading
        (num + n * bytes.length) ∧
      ((countedExchange release32).exec s (List.replicate n (relayed bytes)).flatten).panicked = false := by
  induction n generalizing s num with
  | zero => simpa [Machine.exec, hrunning] using h
  | succ n ih =>
    obtain ⟨hnext, hok⟩ := counted_relayed hne hlen h hrunning
    rw [List.replicate_succ, List.flatten_cons, Machine.exec_append, Nat.succ_mul, Nat.add_comm (n * _),
      ← Nat.add_assoc]
    exact ih hnext hok

end

/-- The call returns when the target ends. -/
theorem counted_ends {s : CountedExchange} {num : ℕ} (h : s.relay.Downloading num) (hrunning : s.panicked = false) :
    ((countedExchange release32).exec s [.finish .b, .read .b 0]).Returned false ∧
      (((countedExchange release32).exec s [.finish .b, .read .b 0]).relay.dirs .b).num = num := by
  have htakes : ¬ (s.relay.step (.finish .b)).Takes .b 0 := fun htakes => Nat.lt_irrefl 0 htakes.2.2.1
  have hexec : (countedExchange release32).exec s [.finish .b, .read .b 0] =
      { s with relay := (s.relay.step (.finish .b)).read .b 0 } := by
    change CountedExchange.step release32 { s with relay := s.relay.step (.finish .b) } (.read .b 0) = _
    simp only [CountedExchange.step, CountedExchange.read, hrunning, htakes, Bool.false_eq_true, if_false]
  have hread : (s.relay.step (.finish .b)).read .b 0 =
      { s.relay.put .b { s.relay.dirs .b with finished := true } with phase := .returned false } := by
    simp [Exchange.read, Exchange.step, Direction.finish, h.selecting, h.unread]
  rw [hexec, hread]
  refine ⟨⟨hrunning, rfl⟩, ?_⟩
  simp [h.num]

/-- The target sends 4 GiB and ends. -/
def download : List ExchangeStep :=
  (List.replicate 524288 (relayed (List.replicate bufferSize 0))).flatten ++ [.finish .b, .read .b 0]

/-- All of it is written, and the count is zero. -/
theorem download_not_counted :
    ((countedExchange release32).stateAt download download.length).Returned false ∧
      (((countedExchange release32).stateAt download download.length).relay.dirs .b).written.length = 2 ^ 32 ∧
      ((countedExchange release32).stateAt download download.length).nums .b = 0 ∧
      ¬ CountsRelayed release32 download := by
  have hreach := (countedExchange release32).stateAt_reachable download download.length
  have hwraps := wraps_of_reachable hreach
  obtain ⟨gap, hgap⟩ := exchange_ahead (relay_reachable hreach)
  have hbytes : List.replicate bufferSize (0 : UInt8) ≠ [] :=
    List.ne_nil_of_length_pos (by rw [List.length_replicate]; decide)
  have hnew : CountedExchange.new.relay.Downloading 0 := ⟨rfl, rfl, rfl, rfl⟩
  obtain ⟨hdownloading, hrunning⟩ := counted_buffers hbytes (by rw [List.length_replicate]) hnew rfl 524288
  obtain ⟨hreturned, hnum⟩ := counted_ends hdownloading hrunning
  have htotal : 0 + 524288 * bufferSize = 2 ^ 32 := by decide
  rw [← Machine.exec_append, ← download, List.length_replicate, htotal] at hnum
  rw [← Machine.exec_append, ← download] at hreturned
  have hstate : (countedExchange release32).stateAt download download.length =
      (countedExchange release32).exec .new download := by
    rw [Machine.stateAt, List.take_length]
    rfl
  rw [hstate] at hwraps hgap ⊢
  have hnone : gap .b = [] := by
    rw [hgap.waits (by simp [hreturned.2]), Exchange.pending, hreturned.2]
  have hwritten : (((countedExchange release32).exec .new download).relay.dirs .b).written.length = 2 ^ 32 := by
    have := hgap.num .b
    rw [hnum, hnone, List.length_nil, Nat.add_zero] at this
    exact this.symm
  have hcount : ((countedExchange release32).exec .new download).nums .b = 0 := by
    rw [hwraps hreturned.1 .b, hnum]
    rfl
  refine ⟨hreturned, hwritten, hcount, fun h => ?_⟩
  have hexact := h.counts download.length (Nat.le_refl _) (hstate ▸ hreturned) .b
  rw [hstate, hwritten, hcount] at hexact
  exact absurd hexact (by decide)

end Tuic.Server
