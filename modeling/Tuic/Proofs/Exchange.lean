import Mathlib.Data.List.Infix
import Tuic.Spec.Exchange

/-! When `exchange_tcp` relays all. It returns at the first end of a stream, so the
other stream must have been read to its end by then. -/

namespace Tuic.Server

open Lib

section

variable {s s' : Exchange} {a : ExchangeStep}

@[simp] theorem put_dirs (source other : End) (dir : Direction) :
    (s.put source dir).dirs other = if other = source then dir else s.dirs other :=
  Function.update_apply _ _ _ _

/-- What a replaced direction has in common with the old one is unchanged. -/
theorem put_same {β : Type} (f : Direction → β) {source : End} {dir : Direction}
    (h : f dir = f (s.dirs source)) (k : End) : f ((s.put source dir).dirs k) = f (s.dirs k) := by
  by_cases hk : k = source
  · simpa [hk] using h
  · simp [hk]

/-! ### What a step does -/

inductive ExchangeEffect (s : Exchange) : ExchangeStep → Exchange → Prop
  | arrived (source : End) (bytes : List UInt8) (unfinished : (s.dirs source).finished = false) :
      ExchangeEffect s (.arrive source bytes) (s.put source { s.dirs source with
        sent := (s.dirs source).sent ++ bytes, unread := (s.dirs source).unread ++ bytes })
  | finished (source : End) :
      ExchangeEffect s (.finish source) (s.put source { s.dirs source with finished := true })
  | took (source : End) (num : ℕ) (selecting : s.phase = .selecting) :
      ExchangeEffect s (.read source num) { s.put source { s.dirs source with
        unread := (s.dirs source).unread.drop num, num := (s.dirs source).num + num } with
        phase := .writing source ((s.dirs source).unread.take num) }
  | ended (source : End) (num : ℕ) (sees : SeesEnd source s (.read source num)) :
      ExchangeEffect s (.read source num) { s with phase := .returned false }
  | wrote (source : End) (num : ℕ) (rest : List UInt8) (writing : s.phase = .writing source rest) :
      ExchangeEffect s (.write num) { s.put source { s.dirs source with
        written := (s.dirs source).written ++ rest.take num } with
        phase := if rest.drop num = [] then .selecting else .writing source (rest.drop num) }
  | failed (a : ExchangeStep) (running : ∀ failed, s.phase ≠ .returned failed)
      (silent : ∀ source bytes, a ≠ .arrive source bytes) :
      ExchangeEffect s a { s with phase := .returned true }
  | idle (a : ExchangeStep) (silent : ∀ source bytes, a = .arrive source bytes →
      (s.dirs source).finished = true) : ExchangeEffect s a s

theorem step_exchangeEffect (s : Exchange) (a : ExchangeStep) : ExchangeEffect s a (s.step a) := by
  cases a with
  | arrive source bytes =>
    simp only [Exchange.step, Direction.arrive]
    split_ifs with hfin
    · have hsame : s.put source (s.dirs source) = s := by simp [Exchange.put]
      rw [hsame]
      refine .idle _ fun from' bytes' h => ?_
      cases h
      exact hfin
    · exact .arrived source bytes (by simpa using hfin)
  | finish source => exact .finished source
  | read source num =>
    simp only [Exchange.step, Exchange.read]
    split_ifs with hphase hunread hfin hnum
    · exact .idle _ nofun
    · exact .ended source num ⟨⟨num, rfl⟩, not_not.1 hphase, hunread, hfin⟩
    · exact .idle _ nofun
    · exact .took source num (not_not.1 hphase)
    · exact .idle _ nofun
  | write num =>
    simp only [Exchange.step, Exchange.write]
    cases hphase : s.phase with
    | writing source rest => exact .wrote source num rest hphase
    | selecting => exact .idle _ nofun
    | returned failed => exact .idle _ nofun
  | readFails =>
    simp only [Exchange.step, Exchange.readFails]
    cases hphase : s.phase with
    | selecting => exact .failed _ (by simp [hphase]) nofun
    | writing source rest => exact .idle _ nofun
    | returned failed => exact .idle _ nofun
  | writeFails =>
    simp only [Exchange.step, Exchange.writeFails]
    cases hphase : s.phase with
    | writing source rest => exact .failed _ (by simp [hphase]) nofun
    | selecting => exact .idle _ nofun
    | returned failed => exact .idle _ nofun

/-- What `write_all` still has to write of an end. -/
def Exchange.pending (s : Exchange) (source : End) : List UInt8 :=
  match s.phase with
  | .writing writer rest => if source = writer then rest else []
  | _ => []

theorem pending_writing {source : End} {rest : List UInt8} (h : s.phase = .writing source rest) (k : End) :
    s.pending k = if k = source then rest else [] := by
  rw [Exchange.pending, h]

theorem pending_selecting (h : s.phase = .selecting) (k : End) : s.pending k = [] := by
  rw [Exchange.pending, h]

theorem pending_wrote (source : End) (rest : List UInt8) (num : ℕ)
    (h : s.phase = if rest.drop num = [] then .selecting else .writing source (rest.drop num)) (k : End) :
    s.pending k = if k = source then rest.drop num else [] := by
  split_ifs at h with hdone
  · rw [pending_selecting h, hdone, ite_self]
  · exact pending_writing h k

theorem End.other_ne (k : End) : k.other ≠ k := by
  cases k <;> decide

/-- What has been read of each end and is not written: it waits in `write_all`, or an error
has lost it. -/
structure Exchange.Ahead (s : Exchange) (gap : End → List UInt8) : Prop where
  sent : ∀ k, (s.dirs k).sent = (s.dirs k).written ++ gap k ++ (s.dirs k).unread
  num : ∀ k, (s.dirs k).num = (s.dirs k).written.length + (gap k).length
  small : ∀ k, (gap k).length ≤ bufferSize
  one : ∃ source, gap (End.other source) = []
  waits : s.phase ≠ .returned true → gap = s.pending

section

variable {gap : End → List UInt8}

theorem Exchange.Ahead.selecting (h : s.Ahead gap) (hphase : s.phase = .selecting) (k : End) : gap k = [] := by
  rw [h.waits (by simp [hphase]), pending_selecting hphase]

/-- A read that leads to a write has taken something. -/
theorem takes_of_read {source : End} {num : ℕ} {rest : List UInt8} (hphase : s.phase = .selecting)
    (h : (s.read source num).phase = .writing source rest) : s.Takes source num := by
  simp only [Exchange.read, hphase, ne_eq, not_true_eq_false, if_false] at h
  split_ifs at h with hunread hfin hnum
  · simp [hphase] at h
  · exact ⟨hphase, hunread, hnum⟩
  · simp [hphase] at h

/-- A step at one end leaves what is ahead of the other. -/
theorem Exchange.Ahead.put (h : s.Ahead gap) {source : End} {dir : Direction} (rest : List UInt8) (phase : Exchanging)
    (hsent : dir.sent = dir.written ++ rest ++ dir.unread) (hnum : dir.num = dir.written.length + rest.length)
    (hsmall : rest.length ≤ bufferSize) (hone : rest = gap source ∨ gap source.other = [])
    (hwaits : phase ≠ .returned true →
      Function.update gap source rest = ({ s.put source dir with phase } : Exchange).pending) :
    ({ s.put source dir with phase } : Exchange).Ahead (Function.update gap source rest) := by
  refine ⟨fun k => ?_, fun k => ?_, fun k => ?_, ?_, hwaits⟩
  · by_cases hk : k = source
    · subst hk
      simpa using hsent
    · simpa [hk] using h.sent k
  · by_cases hk : k = source
    · subst hk
      simpa using hnum
    · simpa [hk] using h.num k
  · by_cases hk : k = source
    · subst hk
      simpa using hsmall
    · simpa [hk] using h.small k
  · rcases hone with rfl | hone
    · rw [Function.update_eq_self]
      exact h.one
    · refine ⟨source, ?_⟩
      rw [Function.update_of_ne (End.other_ne source)]
      exact hone

/-- Every step keeps what is read and not written within one buffer of one end. -/
theorem Exchange.Ahead.step (h : s.Ahead gap) (a : ExchangeStep) : ∃ gap', (s.step a).Ahead gap' := by
  have he := step_exchangeEffect s a
  generalize hs' : s.step a = s' at he ⊢
  cases he with
  | arrived source bytes unfinished =>
    refine ⟨_, h.put (gap source) s.phase ?_ (h.num source) (h.small source) (.inl rfl) fun hphase => ?_⟩
    · simp [h.sent source]
    · rw [Function.update_eq_self]
      exact h.waits hphase
  | finished source =>
    refine ⟨_, h.put (gap source) s.phase (h.sent source) (h.num source) (h.small source) (.inl rfl) fun hphase => ?_⟩
    rw [Function.update_eq_self]
    exact h.waits hphase
  | took source num selecting =>
    obtain ⟨-, -, -, hsmall, hle⟩ := takes_of_read selecting (congrArg Exchange.phase hs')
    have hnone := h.selecting selecting
    have hsent := h.sent source
    have hnum := h.num source
    rw [hnone] at hsent hnum
    refine ⟨_, h.put ((s.dirs source).unread.take num) (.writing source _) ?_ ?_ ?_ (.inr (hnone _)) fun _ =>
      funext fun k => ?_⟩
    · simpa using hsent
    · simp [hnum, hle]
    · exact Nat.le_trans (List.length_take_le _ _) hsmall
    · rw [pending_writing rfl, Function.update_apply, hnone]
  | ended source num sees =>
    refine ⟨gap, h.sent, h.num, h.small, h.one, fun _ => funext fun k => ?_⟩
    exact h.selecting sees.2.1 k
  | wrote source num rest writing =>
    have hgap : ∀ k, gap k = if k = source then rest else [] := fun k => by
      rw [h.waits (by simp [writing]), pending_writing writing]
    have hrest : gap source = rest := (hgap source).trans (if_pos rfl)
    have hsent := h.sent source
    have hnum := h.num source
    have hsmall := h.small source
    rw [hrest] at hsent hnum hsmall
    refine ⟨_, h.put (rest.drop num) (if rest.drop num = [] then .selecting else .writing source (rest.drop num))
      ?_ ?_ ?_ (.inr ?_) fun _ => funext fun k => ?_⟩
    · simpa using hsent
    · simp only [List.length_append, List.length_take, List.length_drop]
      omega
    · rw [List.length_drop]
      omega
    · rw [hgap, if_neg (End.other_ne source)]
    · rw [pending_wrote source rest num rfl, Function.update_apply, hgap]
      split_ifs <;> rfl
  | failed _ running silent =>
    exact ⟨gap, h.sent, h.num, h.small, h.one, fun hphase => absurd rfl hphase⟩
  | idle => exact ⟨gap, h⟩

theorem exchange_ahead (h : exchangeTcp.Reachable s) : ∃ gap, s.Ahead gap := by
  refine h.invariant (P := fun s => ∃ gap, s.Ahead gap)
    ⟨fun _ => [], fun _ => rfl, fun _ => rfl, fun _ => Nat.zero_le _, ⟨.a, rfl⟩, fun _ => rfl⟩ ?_
  rintro s a ⟨gap, hgap⟩
  exact hgap.step a

/-- Unless an error ended the relay, what has arrived is written, waits in `write_all`,
or is unread. -/
def Exchange.Whole (s : Exchange) : Prop :=
  s.phase ≠ .returned true → ∀ source,
    (s.dirs source).sent = (s.dirs source).written ++ s.pending source ++ (s.dirs source).unread

theorem exchange_whole (h : exchangeTcp.Reachable s) : s.Whole := by
  obtain ⟨gap, hgap⟩ := exchange_ahead h
  intro hphase source
  rw [← hgap.waits hphase]
  exact hgap.sent source

end

/-- What arrives of an end by a step. -/
def Exchange.arrival (s : Exchange) (source : End) : ExchangeStep → List UInt8
  | .arrive sender bytes => if source = sender ∧ (s.dirs source).finished = false then bytes else []
  | _ => []

theorem sent_step (he : ExchangeEffect s a s') (k : End) :
    (s'.dirs k).sent = (s.dirs k).sent ++ s.arrival k a := by
  cases he with
  | arrived source bytes unfinished =>
    by_cases hk : k = source
    · subst hk
      simp [Exchange.arrival, unfinished]
    · simp [hk, Exchange.arrival]
  | finished source =>
    refine Eq.trans ?_ (List.append_nil _).symm
    exact put_same Direction.sent (by rfl) k
  | took source num selecting =>
    refine Eq.trans ?_ (List.append_nil _).symm
    exact put_same Direction.sent (by rfl) k
  | wrote source num rest writing =>
    refine Eq.trans ?_ (List.append_nil _).symm
    exact put_same Direction.sent (by rfl) k
  | ended source num sees => exact (List.append_nil _).symm
  | failed _ running silent =>
    cases a with
    | arrive source bytes => exact absurd rfl (silent source bytes)
    | _ => exact (List.append_nil _).symm
  | idle _ silent =>
    cases a with
    | arrive source bytes =>
      have hnone : ¬ (k = source ∧ (s.dirs k).finished = false) := by
        rintro ⟨rfl, hfin⟩
        simp [silent k bytes rfl] at hfin
      simp [Exchange.arrival, hnone]
    | _ => exact (List.append_nil _).symm

theorem finished_step (he : ExchangeEffect s a s') {k : End} (h : (s.dirs k).finished = true) :
    (s'.dirs k).finished = true := by
  cases he with
  | arrived source bytes unfinished =>
    rw [← h]
    exact put_same Direction.finished (by rfl) k
  | finished source =>
    by_cases hk : k = source
    · simp [hk]
    · simpa [hk] using h
  | took source num selecting =>
    rw [← h]
    exact put_same Direction.finished (by rfl) k
  | wrote source num rest writing =>
    rw [← h]
    exact put_same Direction.finished (by rfl) k
  | ended => exact h
  | failed => exact h
  | idle => exact h

/-- After the return nothing more is written. -/
theorem returned_step (he : ExchangeEffect s a s') {failed : Bool} (h : s.phase = .returned failed) :
    s'.phase = .returned failed ∧ ∀ k, (s'.dirs k).written = (s.dirs k).written := by
  cases he with
  | arrived source bytes unfinished => exact ⟨h, put_same Direction.written (by rfl)⟩
  | finished source => exact ⟨h, put_same Direction.written (by rfl)⟩
  | took source num selecting => simp [selecting] at h
  | ended source num sees => simp [sees.2.1] at h
  | wrote source num rest writing => simp [writing] at h
  | failed _ running silent => exact absurd h (running failed)
  | idle => exact ⟨h, fun _ => rfl⟩

/-- The relay returns without an error only by seeing the end of a stream. -/
theorem returns_step (he : ExchangeEffect s a s') (h : s'.phase = .returned false) :
    s.phase = .returned false ∨ ∃ source, SeesEnd source s a ∧ s' = { s with phase := .returned false } := by
  cases he with
  | arrived source bytes unfinished => exact .inl h
  | finished source => exact .inl h
  | took source num selecting => cases h
  | ended source num sees => exact .inr ⟨source, sees, rfl⟩
  | wrote source num rest writing =>
    change (if rest.drop num = [] then Exchanging.selecting else _) = _ at h
    split_ifs at h
  | failed _ running silent => cases h
  | idle => exact .inl h

theorem eq_or_eq_other (k source : End) : k = source ∨ k = source.other := by
  cases k <;> cases source <;> decide

/-- Nothing arrives of an end that is finished, and by no other step. -/
theorem arrival_eq_nil {k : End} (h : ∀ bytes, a = .arrive k bytes →
    bytes = [] ∨ (s.dirs k).finished = true) : s.arrival k a = [] := by
  cases a with
  | arrive source bytes =>
    simp only [Exchange.arrival]
    split_ifs with hk
    · obtain ⟨rfl, hfin⟩ := hk
      rcases h bytes rfl with hbytes | hfin'
      · exact hbytes
      · simp [hfin] at hfin'
    · rfl
  | _ => rfl

end

/-! ### Along a run -/

section

variable {steps : List ExchangeStep}

theorem exchangeEffectAt {n : ℕ} {a : ExchangeStep} (ha : steps[n]? = some a) :
    ExchangeEffect (exchangeTcp.stateAt steps n) a (exchangeTcp.stateAt steps (n + 1)) := by
  rw [exchangeTcp.stateAt_succ ha]
  exact step_exchangeEffect _ a

theorem finished_mono {k : End} {m : ℕ} (h : ((exchangeTcp.stateAt steps m).dirs k).finished = true) {n : ℕ}
    (hmn : m ≤ n) (hn : n ≤ steps.length) : ((exchangeTcp.stateAt steps n).dirs k).finished = true := by
  exact Machine.run_induction (P := fun n => ((exchangeTcp.stateAt steps n).dirs k).finished = true) h
    (fun _ _ _ ha ih => finished_step (exchangeEffectAt ha) ih) hmn hn

theorem sent_mono (steps : List ExchangeStep) (k : End) {m n : ℕ} (hmn : m ≤ n) (hn : n ≤ steps.length) :
    ((exchangeTcp.stateAt steps m).dirs k).sent <+: ((exchangeTcp.stateAt steps n).dirs k).sent := by
  refine Machine.run_induction (P := fun n => _ <+: ((exchangeTcp.stateAt steps n).dirs k).sent)
    (List.prefix_refl _) (fun i a _ ha ih => ?_) hmn hn
  rw [sent_step (exchangeEffectAt ha) k]
  exact ih.trans (List.prefix_append _ _)

/-- As long as nothing arrives, what was sent stays. -/
theorem sent_of_silent {k : End} {m n : ℕ} (hmn : m ≤ n) (hn : n ≤ steps.length)
    (h : ∀ j a, m ≤ j → steps[j]? = some a → (exchangeTcp.stateAt steps j).arrival k a = []) :
    ((exchangeTcp.stateAt steps n).dirs k).sent = ((exchangeTcp.stateAt steps m).dirs k).sent := by
  refine Machine.run_induction (P := fun n => ((exchangeTcp.stateAt steps n).dirs k).sent = _) rfl
    (fun i a hmi ha ih => ?_) hmn hn
  rw [sent_step (exchangeEffectAt ha) k, h i a hmi ha, List.append_nil, ih]

theorem returned_mono {failed : Bool} {m : ℕ} (h : (exchangeTcp.stateAt steps m).phase = .returned failed)
    {n : ℕ} (hmn : m ≤ n) (hn : n ≤ steps.length) :
    (exchangeTcp.stateAt steps n).phase = .returned failed ∧ ∀ k,
      ((exchangeTcp.stateAt steps n).dirs k).written = ((exchangeTcp.stateAt steps m).dirs k).written := by
  refine Machine.run_induction (P := fun n => (exchangeTcp.stateAt steps n).phase = .returned failed ∧
    ∀ k, ((exchangeTcp.stateAt steps n).dirs k).written = ((exchangeTcp.stateAt steps m).dirs k).written)
    ⟨h, fun _ => rfl⟩ (fun i a _ ha ih => ?_) hmn hn
  obtain ⟨hphase, hwritten⟩ := returned_step (exchangeEffectAt ha) ih.1
  exact ⟨hphase, fun k => (hwritten k).trans (ih.2 k)⟩

/-- A step that sees the end of a stream is the return. -/
theorem seesEnd_returns {source : End} {i : ℕ} (h : exchangeTcp.At steps (SeesEnd source) i) :
    (exchangeTcp.stateAt steps (i + 1)).phase = .returned false ∧ ∀ k,
      ((exchangeTcp.stateAt steps (i + 1)).dirs k).written =
        ((exchangeTcp.stateAt steps i).dirs k).written := by
  obtain ⟨a, ha, ⟨num, rfl⟩, hphase, hunread, hfin⟩ := h
  rw [exchangeTcp.stateAt_succ ha]
  change (Exchange.read _ source num).phase = _ ∧ ∀ k, ((Exchange.read _ source num).dirs k).written = _
  simp [Exchange.read, hphase, hunread, hfin]

/-- A relay that has returned has seen the end of a stream. -/
theorem returned_sees {n : ℕ} (hn : n ≤ steps.length)
    (h : (exchangeTcp.stateAt steps n).phase = .returned false) :
    ∃ i < n, ∃ source, exchangeTcp.At steps (SeesEnd source) i := by
  induction n with
  | zero => cases h
  | succ n ih =>
    have ha := List.getElem?_eq_getElem hn
    rcases returns_step (exchangeEffectAt ha) h with hold | ⟨source, hsees, -⟩
    · obtain ⟨i, hi, hsees⟩ := ih (Nat.le_of_succ_le hn) hold
      exact ⟨i, Nat.lt_succ_of_lt hi, hsees⟩
    · exact ⟨n, Nat.lt_succ_self n, source, _, ha, hsees⟩

end

/-- A relay that returns without an error has relayed all exactly if both streams
end together. -/
theorem relaysAll_iff (steps : List ExchangeStep)
    (hreturned : (exchangeTcp.stateAt steps steps.length).phase = .returned false) :
    RelaysAll steps ↔ EndsTogether steps := by
  -- where the loop has seen an end, all that follows is arrivals
  have hat : ∀ i source, exchangeTcp.At steps (SeesEnd source) i → i < steps.length ∧ ∀ k,
      ((exchangeTcp.stateAt steps steps.length).dirs k).written =
        ((exchangeTcp.stateAt steps i).dirs k).written ∧
      ((exchangeTcp.stateAt steps i).dirs k).sent =
        ((exchangeTcp.stateAt steps i).dirs k).written ++ ((exchangeTcp.stateAt steps i).dirs k).unread := by
    intro i source hsees
    obtain ⟨hreturn, hwritten⟩ := seesEnd_returns hsees
    obtain ⟨a, ha, -, hphase, -⟩ := hsees
    have hlt := (List.getElem?_eq_some_iff.1 ha).1
    have hwhole := exchange_whole (exchangeTcp.stateAt_reachable steps i) (by simp [hphase])
    refine ⟨hlt, fun k => ⟨((returned_mono hreturn hlt le_rfl).2 k).trans (hwritten k), ?_⟩⟩
    simpa [pending_selecting hphase] using hwhole k
  constructor
  · intro h i source hsees
    obtain ⟨hlt, hk⟩ := hat i source hsees
    obtain ⟨hwritten, hsent⟩ := hk source.other
    have hall := (h source.other).symm.trans hwritten
    refine ⟨?_, fun j bytes hij harrive => ?_⟩
    · have hlength := (sent_mono steps source.other hlt.le le_rfl).length_le
      rw [hall, hsent, List.length_append] at hlength
      exact List.eq_nil_of_length_eq_zero (by omega)
    · have hj := (List.getElem?_eq_some_iff.1 harrive).1
      have hbefore := (sent_mono steps source.other hij.le hj.le).length_le
      have hafter := (sent_mono steps source.other hj le_rfl).length_le
      rw [sent_step (exchangeEffectAt harrive), hall, List.length_append] at hafter
      rw [hsent, List.length_append] at hbefore
      cases hfin : ((exchangeTcp.stateAt steps j).dirs source.other).finished with
      | true => exact .inr rfl
      | false =>
        rw [Exchange.arrival, if_pos ⟨rfl, hfin⟩] at hafter
        exact .inl (List.eq_nil_of_length_eq_zero (by omega))
  · intro h k
    obtain ⟨i, hi, source, hsees⟩ := returned_sees le_rfl hreturned
    obtain ⟨hwritten, hsent⟩ := (hat i source hsees).2 k
    obtain ⟨hother, hlater⟩ := h i source hsees
    obtain ⟨a, ha, ⟨num, rfl⟩, -, hunread, hfin⟩ := hsees
    -- the end that was seen is finished, and the other has sent all
    have hquiet : ((exchangeTcp.stateAt steps i).dirs k).unread = [] ∧
        ∀ j a, i ≤ j → steps[j]? = some a → (exchangeTcp.stateAt steps j).arrival k a = [] := by
      rcases eq_or_eq_other k source with rfl | rfl
      · refine ⟨hunread, fun j a hij hj => arrival_eq_nil fun _ _ => .inr ?_⟩
        exact finished_mono hfin hij (List.getElem?_eq_some_iff.1 hj).1.le
      · refine ⟨hother, fun j a hij hj => arrival_eq_nil fun bytes hbytes => ?_⟩
        rcases Nat.lt_or_eq_of_le hij with hlt | rfl
        · exact hlater j bytes hlt (hbytes ▸ hj)
        · rw [hj, Option.some.injEq] at ha
          subst ha
          cases hbytes
    rw [hwritten, sent_of_silent hi.le le_rfl hquiet.2, hsent, hquiet.1, List.append_nil]

/-- The client and the target both say something, and then both end. -/
def bothEnd : List ExchangeStep :=
  [.arrive .a [1], .read .a 1, .write 1, .arrive .b [2], .read .b 1, .write 1, .finish .a, .finish .b,
    .read .a 0]

theorem bothEnd_relaysAll : RelaysAll bothEnd := by
  refine (relaysAll_iff bothEnd rfl).2 fun i source hsees => ?_
  obtain ⟨a, ha, ⟨num, rfl⟩, -, hunread, -⟩ := hsees
  rcases i with _ | _ | _ | _ | _ | _ | _ | _ | _ | i <;> cases ha
  · exact absurd hunread (by decide)
  · exact absurd hunread (by decide)
  · refine ⟨rfl, fun j bytes hj harrive => ?_⟩
    rw [List.getElem?_eq_none hj] at harrive
    cases harrive

/-- The client ends first, and the answer comes after. -/
def clientEndsFirst : List ExchangeStep :=
  [.arrive .a [1], .read .a 1, .write 1, .finish .a, .read .a 0, .arrive .b [2], .finish .b]

theorem clientEndsFirst_loses :
    (exchangeTcp.stateAt clientEndsFirst 7).phase = .returned false ∧
    (∀ source, ((exchangeTcp.stateAt clientEndsFirst 7).dirs source).finished = true) ∧
    ¬ RelaysAll clientEndsFirst := by
  refine ⟨rfl, fun source => by cases source <;> rfl, fun h => ?_⟩
  exact absurd (h .b) (by decide)

end Tuic.Server
