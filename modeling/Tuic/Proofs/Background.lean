import Tuic.Sanity.Buffers
import Tuic.Sanity.Sessions
import Tuic.Spec.Background

/-! What the tasks of a connection do in time. Heartbeats follow each other while something is
relayed, and incomplete packets do not stay. -/

namespace Tuic.Client

open Lib Model

variable {B : Type}

/-! ### What a step does -/

theorem callAt_arrives {now : Instant} {call call' : Call B} (h : callAt now call = some call') {t : Instant}
    {pkt : PacketRx} {data : B} (h' : call' = .assemble t pkt data) :
    t = now ∧ ∃ t', call = .assemble t' pkt data := by
  subst h'
  cases call with
  | assemble t' pkt' data' =>
    cases h
    exact ⟨rfl, t', rfl⟩
  | _ => cases h

/-- The key of the fragment that comes by a step. -/
def BackgroundStep.key : BackgroundStep B → Option Key
  | .call (.assemble _ pkt _) => some pkt.key
  | _ => none

theorem Intervals.le_window {cfg : Intervals} {clock start time late : ℕ} (hle : clock ≤ start + cfg.gcInterval + late)
    (hstart : start ≤ time + cfg.gcLifetime) : clock ≤ time + cfg.window late := by
  rw [Intervals.window, ← Nat.add_assoc, ← Nat.add_assoc]
  exact hle.trans (Nat.add_le_add_right (Nat.add_le_add_right hstart cfg.gcInterval) late)

/-- The two counters say whether there is something to keep alive. -/
theorem relaying_iff {s : Background B} (h : s.model.Counted) :
    s.Relaying ↔ s.taskConnectCount + s.model.taskAssociateCount ≠ 0 := by
  have hsessions : s.model.sessions.keys.Nonempty ↔ 0 < s.model.taskAssociateCount := by
    rw [h, Set.ncard_pos]
  rw [Background.Relaying, hsessions]
  omega

variable [AsRef B] {b : Build} {cfg : Intervals}

/-- The model changes by calls. -/
theorem step_model (b : Build) (cfg : Intervals) (s : Background B) (a : BackgroundStep B) :
    (s.step b cfg a).model = s.model ∨
      (∃ call call', a = .call call ∧ callAt s.clock call = some call' ∧
        (s.step b cfg a).model = (Model.step b s.model call').1) ∨
      s.Collects a ∧ s.closed = false ∧
        (s.step b cfg a).model = s.model.collectGarbage s.clock cfg.gcLifetime := by
  cases a with
  | call call =>
    simp only [Background.step]
    cases hcall : callAt s.clock call with
    | none => exact .inl rfl
    | some call' => exact .inr (.inl ⟨call, call', rfl, hcall, rfl⟩)
  | collectGarbage =>
    simp only [Background.step, Background.collectGarbage]
    split_ifs with hdue hclosed
    · exact .inl rfl
    · exact .inr (.inr ⟨⟨rfl, hdue⟩, by simpa using hclosed, rfl⟩)
    · exact .inl rfl
  | heartbeat =>
    left
    simp only [Background.step, Background.heartbeat]
    split_ifs <;> rfl
  | _ => exact .inl rfl

theorem step_closed {s : Background B} {a : BackgroundStep B} (h : (s.step b cfg a).closed = false) :
    s.closed = false := by
  cases a with
  | close => cases h
  | call call =>
    simp only [Background.step] at h
    split at h <;> exact h
  | heartbeat =>
    simp only [Background.step, Background.heartbeat] at h
    split_ifs at h <;> exact h
  | collectGarbage =>
    simp only [Background.step, Background.collectGarbage] at h
    split_ifs at h <;> exact h
  | _ => exact h

/-- While the connection is open, both tasks run. -/
def Running (s : Background B) : Prop := s.closed = false → s.heartbeatAt.isSome ∧ s.collectAt.isSome

theorem Running.step {s : Background B} (h : Running s) (a : BackgroundStep B) : Running (s.step b cfg a) := by
  intro hopen
  obtain ⟨hheartbeat, hcollect⟩ := h (step_closed hopen)
  have hclosed := step_closed hopen
  cases a with
  | call call =>
    simp only [Background.step]
    split <;> exact ⟨hheartbeat, hcollect⟩
  | heartbeat =>
    simp only [Background.step, Background.heartbeat, hclosed, Bool.false_eq_true, if_false]
    split_ifs
    · exact ⟨rfl, hcollect⟩
    · exact ⟨rfl, hcollect⟩
    · exact ⟨hheartbeat, hcollect⟩
  | collectGarbage =>
    simp only [Background.step, Background.collectGarbage, hclosed, Bool.false_eq_true, if_false]
    split_ifs
    · exact ⟨hheartbeat, rfl⟩
    · exact ⟨hheartbeat, hcollect⟩
  | _ => exact ⟨hheartbeat, hcollect⟩

theorem reachable_model {s : Background B} (h : (connection b).Reachable s.model) (a : BackgroundStep B) :
    (connection b).Reachable (s.step b cfg a).model := by
  rcases step_model b cfg s a with hsame | ⟨call, call', -, -, hcall⟩ | ⟨-, -, hcollect⟩
  · rw [hsame]
    exact h
  · rw [hcall]
    exact (connection b).reachable_step h call'
  · rw [hcollect]
    exact (connection b).reachable_step h (.collectGarbage s.clock cfg.gcLifetime)

/-! ### Heartbeats -/

section

variable {steps : List (BackgroundStep B)} {late : Duration}

theorem running_at (b : Build) (cfg : Intervals) (steps : List (BackgroundStep B)) (i : ℕ) :
    Running ((background b cfg).stateAt steps i) :=
  ((background b cfg).stateAt_reachable steps i).invariant (P := Running)
    (fun _ => ⟨rfl, rfl⟩) fun _ a h => h.step a

theorem reachable_at (b : Build) (cfg : Intervals) (steps : List (BackgroundStep B)) (i : ℕ) :
    (connection b).Reachable ((background b cfg).stateAt steps i).model :=
  ((background b cfg).stateAt_reachable steps i).invariant
    (P := fun s => (connection b).Reachable s.model) (connection b).reachable_init fun _ a h => reachable_model h a

theorem closed_mono {i j : ℕ} (hij : i ≤ j) (hj : j ≤ steps.length)
    (h : ((background b cfg).stateAt steps j).closed = false) :
    ((background b cfg).stateAt steps i).closed = false := by
  revert h
  refine Machine.run_induction (P := fun j => ((background b cfg).stateAt steps j).closed = false →
    ((background b cfg).stateAt steps i).closed = false) id (fun k a _ ha ih h => ih ?_) hij hj
  rw [(background b cfg).stateAt_succ ha] at h
  exact step_closed h

theorem step_heartbeats (s : Background B) (a : BackgroundStep B) (t : Instant) :
    t ∈ (s.step b cfg a).heartbeats ↔ t ∈ s.heartbeats ∨
      s.Beats a ∧ s.closed = false ∧ s.taskConnectCount + s.model.taskAssociateCount ≠ 0 ∧ t = s.clock := by
  have hother (hbeats : ¬ s.Beats a) (hsame : (s.step b cfg a).heartbeats = s.heartbeats) :
      t ∈ (s.step b cfg a).heartbeats ↔ t ∈ s.heartbeats ∨
        s.Beats a ∧ s.closed = false ∧ s.taskConnectCount + s.model.taskAssociateCount ≠ 0 ∧ t = s.clock := by
    simp [hsame, hbeats]
  cases a with
  | heartbeat =>
    simp only [Background.step, Background.heartbeat]
    split_ifs with hdue hclosed hcount
    · simp [hclosed]
    · simp [hcount]
    · have hbeats : s.Beats .heartbeat := ⟨rfl, hdue⟩
      have hopen : s.closed = false := by simpa using hclosed
      rw [List.mem_cons, or_comm]
      exact or_congr_right ⟨fun h => ⟨hbeats, hopen, hcount, h⟩, fun h => h.2.2.2⟩
    · simp [Background.Beats, hdue]
  | call call =>
    refine hother (by simp [Background.Beats]) ?_
    simp only [Background.step]
    split <;> rfl
  | collectGarbage =>
    refine hother (by simp [Background.Beats]) ?_
    simp only [Background.step, Background.collectGarbage]
    split_ifs <;> rfl
  | _ => exact hother (by simp [Background.Beats]) rfl

theorem heartbeats_mono {i j : ℕ} (hij : i ≤ j) (hj : j ≤ steps.length) {t : Instant}
    (h : t ∈ ((background b cfg).stateAt steps i).heartbeats) :
    t ∈ ((background b cfg).stateAt steps j).heartbeats := by
  refine Machine.run_induction (P := fun j => t ∈ ((background b cfg).stateAt steps j).heartbeats) h
    (fun k a _ ha ih => ?_) hij hj
  rw [(background b cfg).stateAt_succ ha]
  exact (step_heartbeats _ a t).2 (.inl ih)

end

/-- A stream is opened, and dropped between the second and the third round of the task. -/
def oneStream : List (BackgroundStep (List UInt8)) :=
  [.connect, .elapse 3000, .heartbeat, .elapse 3000, .heartbeat, .dropConnect, .elapse 3000, .heartbeat]

section

variable {steps : List (BackgroundStep B)} {late : Duration}

/-- A stored buffer was stored before, with the same age, or a fragment of it has come now. -/
theorem stored_step {s : Background B} (hwf : s.model.buffers.WF) (a : BackgroundStep B) {key : Key}
    {buf : PacketBuffer B} (h : (s.step b cfg a).model.buffers.get key = some buf) :
    (∃ buf', s.model.buffers.get key = some buf' ∧ buf'.cTime = buf.cTime) ∨
      (∃ now pkt data, a = .call (.assemble now pkt data) ∧ pkt.key = key) ∧ buf.cTime = s.clock := by
  rcases step_model b cfg s a with hsame | ⟨call, call', rfl, hnow, hcall⟩ | ⟨-, -, hcollect⟩
  · rw [hsame] at h
    exact .inl ⟨buf, h, rfl⟩
  · rw [hcall, step_buffers] at h
    cases hcall' : call' with
    | assemble now pkt data =>
      obtain ⟨rfl, now', rfl⟩ := callAt_arrives hnow hcall'
      rw [hcall'] at h
      -- the buffer of the key is the old one or new, and a fragment does not change its time
      have htime : ((s.model.buffers.current s.clock pkt).fill pkt data).cTime =
          (s.model.buffers.current s.clock pkt).cTime := rfl
      have hcurrent : (∃ buf', s.model.buffers.get pkt.key = some buf' ∧
            buf'.cTime = (s.model.buffers.current s.clock pkt).cTime) ∨
          (s.model.buffers.current s.clock pkt).cTime = s.clock := by
        unfold Buffers.current
        cases hold : s.model.buffers.get pkt.key with
        | none => exact .inr rfl
        | some buf' => exact .inl ⟨buf', rfl, rfl⟩
      have hstored : key = pkt.key → buf.cTime = (s.model.buffers.current s.clock pkt).cTime →
          (∃ buf', s.model.buffers.get key = some buf' ∧ buf'.cTime = buf.cTime) ∨
            (∃ t pkt' data', BackgroundStep.call (.assemble now' pkt data) = .call (.assemble t pkt' data') ∧
              pkt'.key = key) ∧ buf.cTime = s.clock := by
        rintro rfl hbuf
        rw [hbuf]
        exact hcurrent.imp_right fun hnew => ⟨⟨now', pkt, data, rfl, rfl⟩, hnew⟩
      rcases get_assemble hwf h with ⟨-, hold⟩ | ⟨hkey, ⟨-, -, rfl⟩ | ⟨-, rfl⟩⟩
      · exact .inl ⟨buf, hold, rfl⟩
      · exact hstored hkey htime
      · exact hstored hkey rfl
    | sendDissociate assocId =>
      rw [hcall'] at h
      change (s.model.buffers.dissociate assocId).get key = some buf at h
      rw [Buffers.get_dissociate] at h
      split_ifs at h
      exact .inl ⟨buf, h, rfl⟩
    | recvDissociate header =>
      rw [hcall'] at h
      change (s.model.buffers.dissociate header.assocId).get key = some buf at h
      rw [Buffers.get_dissociate] at h
      split_ifs at h
      exact .inl ⟨buf, h, rfl⟩
    | collectGarbage now timeout =>
      rw [hcall'] at h
      exact .inl ⟨buf, (get_collectGarbage.1 h).1, rfl⟩
    | _ =>
      rw [hcall'] at h
      exact .inl ⟨buf, h, rfl⟩
  · rw [hcollect, collectGarbage_buffers] at h
    exact .inl ⟨buf, (get_collectGarbage.1 h).1, rfl⟩

theorem stored_wf (steps : List (BackgroundStep B)) (i : ℕ) :
    ((background b cfg).stateAt steps i).model.buffers.WF :=
  reachable_wf (reachable_at b cfg steps i)

/-- The time of a buffer is when its first fragment came. -/
theorem created {n : ℕ} (hn : n ≤ steps.length) {key : Key} {buf : PacketBuffer B}
    (h : ((background b cfg).stateAt steps n).model.buffers.get key = some buf) :
    ∃ k < n, (∃ now pkt data, steps[k]? = some (.call (.assemble now pkt data)) ∧ pkt.key = key) ∧
      ((background b cfg).stateAt steps k).clock = buf.cTime := by
  refine Machine.run_induction (k := 0)
    (P := fun n => ∀ buf, ((background b cfg).stateAt steps n).model.buffers.get key = some buf →
      ∃ k < n, (∃ now pkt data, steps[k]? = some (.call (.assemble now pkt data)) ∧ pkt.key = key) ∧
        ((background b cfg).stateAt steps k).clock = buf.cTime)
    (fun buf h => by cases h) (fun k a _ ha ih buf h => ?_) (Nat.zero_le n) hn buf h
  rw [(background b cfg).stateAt_succ ha] at h
  rcases stored_step (stored_wf steps k) a h with ⟨buf', hold, htime⟩ | ⟨⟨now, pkt, data, rfl, hkey⟩, htime⟩
  · obtain ⟨k', hk', hcame⟩ := ih buf' hold
    exact ⟨k', Nat.lt_succ_of_lt hk', htime ▸ hcame⟩
  · exact ⟨k, Nat.lt_succ_self k, ⟨now, pkt, data, ha, hkey⟩, htime.symm⟩

/-- What is stored was stored at an earlier moment, or came later. -/
theorem stored_since {k n : ℕ} (hkn : k ≤ n) (hn : n ≤ steps.length) {key : Key} {buf : PacketBuffer B}
    (h : ((background b cfg).stateAt steps n).model.buffers.get key = some buf) :
    (∃ buf', ((background b cfg).stateAt steps k).model.buffers.get key = some buf' ∧ buf'.cTime = buf.cTime) ∨
      ((background b cfg).stateAt steps k).clock ≤ buf.cTime := by
  refine Machine.run_induction
    (P := fun n => n ≤ steps.length → ∀ buf, ((background b cfg).stateAt steps n).model.buffers.get key = some buf →
      (∃ buf', ((background b cfg).stateAt steps k).model.buffers.get key = some buf' ∧
        buf'.cTime = buf.cTime) ∨ ((background b cfg).stateAt steps k).clock ≤ buf.cTime)
    (fun _ buf h => .inl ⟨buf, h, rfl⟩) (fun i a hki ha ih hi buf h => ?_) hkn hn hn buf h
  have hi' := Nat.le_of_succ_le hi
  rw [(background b cfg).stateAt_succ ha] at h
  rcases stored_step (stored_wf steps i) a h with ⟨buf', hold, htime⟩ | ⟨-, htime⟩
  · rw [← htime]
    exact ih hi' buf' hold
  · rw [htime]
    exact .inr ((beatTimer b cfg).clock_mono hki hi')

theorem young {n : ℕ} (hn : n ≤ steps.length) (hlate : (collectTimer b cfg).OnTime late steps)
    (hopen : ((background b cfg).stateAt steps n).closed = false) {key : Key} {buf : PacketBuffer B}
    (h : ((background b cfg).stateAt steps n).model.buffers.get key = some buf) :
    ((background b cfg).stateAt steps n).clock ≤ buf.cTime + cfg.window late := by
  obtain ⟨k, hkn, hbegins, hle⟩ := hlate.begun _ hn (running_at b cfg steps n hopen).2
  change ((background b cfg).stateAt steps n).clock ≤
    ((background b cfg).stateAt steps k).clock + cfg.gcInterval + late at hle
  rcases hbegins with rfl | ⟨i, rfl, a, ha, hcollects⟩
  · exact Intervals.le_window hle (Nat.zero_le _)
  · -- the last collection has left what was young then, and what came after
    have hi : i ≤ steps.length := (Nat.le_of_succ_le hkn).trans hn
    have hclosed := closed_mono (Nat.le_of_succ_le hkn) hn hopen
    rcases stored_since hkn hn h with ⟨buf', hold, htime⟩ | hlater
    · rw [(background b cfg).stateAt_succ ha] at hold hle
      obtain ⟨rfl, hdue⟩ := hcollects
      have hstep : (((background b cfg).stateAt steps i).step b cfg .collectGarbage).model =
          ((background b cfg).stateAt steps i).model.collectGarbage
            ((background b cfg).stateAt steps i).clock cfg.gcLifetime := by
        simp [Background.step, Background.collectGarbage, hdue, hclosed]
      have hclock : (((background b cfg).stateAt steps i).step b cfg .collectGarbage).clock =
          ((background b cfg).stateAt steps i).clock := by
        simp [Background.step, Background.collectGarbage, hdue, hclosed]
      change (((background b cfg).stateAt steps i).step b cfg .collectGarbage).model.buffers.get key = _ at hold
      change _ ≤ (((background b cfg).stateAt steps i).step b cfg .collectGarbage).clock + _ + _ at hle
      rw [hstep, collectGarbage_buffers] at hold
      have hage : ((background b cfg).stateAt steps i).clock - buf'.cTime < cfg.gcLifetime :=
        (get_collectGarbage.1 hold).2
      rw [hclock] at hle
      rw [htime] at hage
      exact Intervals.le_window hle (Nat.sub_le_iff_le_add'.1 hage.le)
    · exact Intervals.le_window hle (Nat.le_add_right_of_le hlater)

/-- Incomplete packets go once their time is over, and not before. -/
theorem collected_in_time (b : Build) (cfg : Intervals) (steps : List (BackgroundStep B)) (late : Duration)
    (hlate : (collectTimer b cfg).OnTime late steps) : Collected b cfg steps late where
  young n hn hopen key buf h := young hn hlate hopen h
  few n hn hopen := by
    -- each stored packet has come by a step of its own
    let arrivals : Set ℕ := {k | k < n ∧ (background b cfg).At steps Arrives k ∧
      ((background b cfg).stateAt steps n).clock ≤ ((background b cfg).stateAt steps k).clock + cfg.window late}
    have hfinite : arrivals.Finite := (Set.finite_lt_nat n).subset fun k hk => hk.1
    have hsubset : ((background b cfg).stateAt steps n).model.buffers.keys ⊆
        (fun k => (steps[k]?.bind BackgroundStep.key).getD (0, 0)) '' arrivals := by
      intro key hkey
      obtain ⟨buf, hbuf⟩ := Option.ne_none_iff_exists'.1 (Table.mem_keys.1 hkey)
      obtain ⟨k, hk, ⟨now, pkt, data, ha, rfl⟩, htime⟩ := created hn hbuf
      refine ⟨k, ⟨hk, ⟨_, ha, now, pkt, data, rfl⟩, ?_⟩, ?_⟩
      · rw [htime]
        exact young hn hlate hopen hbuf
      · simp [ha, BackgroundStep.key]
    exact (Set.ncard_le_ncard hsubset (hfinite.image _)).trans (Set.ncard_image_le hfinite)
  kept n hn key buf h hyoung := by
    rw [(background b cfg).stateAt_succ hn]
    change (((background b cfg).stateAt steps n).step b cfg .collectGarbage).model.buffers.get key = _
    rcases step_model b cfg ((background b cfg).stateAt steps n) .collectGarbage with
      hsame | ⟨call, call', heq, -⟩ | ⟨-, -, hcollect⟩
    · rw [hsame]
      exact h
    · cases heq
    · rw [hcollect, collectGarbage_buffers]
      have hn' := (List.getElem?_eq_some_iff.1 hn).1.le
      obtain ⟨k, hk, -, htime⟩ := created hn' h
      have hpast : buf.cTime ≤ ((background b cfg).stateAt steps n).clock :=
        htime ▸ (beatTimer b cfg).clock_mono hk.le hn'
      exact get_collectGarbage.2 ⟨h, Nat.sub_lt_left_of_lt_add hpast hyoung⟩

end

/-- The second fragment of a packet does not come. -/
def halfPacket : List (BackgroundStep (List UInt8)) :=
  [.call (.assemble 0 ⟨3, 8, 2, 0, 1, .socketAddress (.v4 ⟨192, 0, 2, 9⟩ 53)⟩ [6]), .elapse 3000,
    .collectGarbage, .elapse 3000, .collectGarbage]

theorem collected_halfPacket :
    Collected .release64 ⟨3000, 3000, 5000⟩ halfPacket 0 ∧
      (((background .release64 ⟨3000, 3000, 5000⟩).stateAt halfPacket 4).model.buffers.get (3, 8)).isSome ∧
      ((background .release64 ⟨3000, 3000, 5000⟩).stateAt halfPacket 5).model.buffers.get (3, 8) = none :=
  ⟨collected_in_time .release64 ⟨3000, 3000, 5000⟩ halfPacket 0
    ((collectTimer .release64 ⟨3000, 3000, 5000⟩).onTime_of_all (by decide)), by decide, by decide⟩

end Tuic.Client
