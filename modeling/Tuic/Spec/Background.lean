import Tuic.Lib.Keys
import Tuic.Lib.Timer
import Tuic.Spec.Buffers

/-! A connection of the client in time: the tasks `heartbeat` and `collect_garbage` that
`Connection::init` spawns, beside the calls on the model and the TCP relays. -/

namespace Tuic.Client

open Lib Model

/-- The intervals of the relay configuration. -/
structure Intervals where
  heartbeat : Duration
  gcInterval : Duration
  gcLifetime : Duration
  deriving DecidableEq

structure Background (B : Type) where
  clock : Instant
  closed : Bool
  model : UdpSessions B
  /-- The `Connect`s that have not been dropped. -/
  taskConnectCount : ℕ
  /-- When the sleeps of the tasks are over. -/
  heartbeatAt : Option Instant
  collectAt : Option Instant
  /-- When `heartbeat` of the connection has been called, also where its error is only logged. -/
  heartbeats : List Instant

inductive BackgroundStep (B : Type)
  | elapse (d : Duration)
  /-- A call on the model, but for the one of `collect_garbage`. -/
  | call (call : Call B)
  | connect
  | dropConnect
  | close
  | heartbeat
  | collectGarbage

/-- `Instant::now()` is read within the call. -/
def callAt {B : Type} (now : Instant) : Call B → Option (Call B)
  | .assemble _ pkt data => some (.assemble now pkt data)
  | .collectGarbage _ _ => none
  | call => some call

variable {B : Type}

namespace Background

def init (cfg : Intervals) : Background B where
  clock := 0
  closed := false
  model := .new
  taskConnectCount := 0
  heartbeatAt := some cfg.heartbeat
  collectAt := some cfg.gcInterval
  heartbeats := []

def due (self : Background B) (deadline : Option Instant) : Bool := deadline.any (· ≤ self.clock)

/-- One round of `heartbeat`, which ends where the connection is closed. -/
def heartbeat (cfg : Intervals) (self : Background B) : Background B :=
  if self.due self.heartbeatAt then
    if self.closed then { self with heartbeatAt := none }
    else
      let self := { self with heartbeatAt := some (self.clock + cfg.heartbeat) }
      if self.taskConnectCount + self.model.taskAssociateCount = 0 then self
      else { self with heartbeats := self.clock :: self.heartbeats }
  else self

/-- One round of `collect_garbage`. -/
def collectGarbage (cfg : Intervals) (self : Background B) : Background B :=
  if self.due self.collectAt then
    if self.closed then { self with collectAt := none }
    else
      { self with
        collectAt := some (self.clock + cfg.gcInterval)
        model := self.model.collectGarbage self.clock cfg.gcLifetime }
  else self

def step [AsRef B] (b : Build) (cfg : Intervals) (self : Background B) : BackgroundStep B → Background B
  | .elapse d => { self with clock := self.clock + d }
  | .call call =>
    match callAt self.clock call with
    | some call => { self with model := (Model.step b self.model call).1 }
    | none => self
  | .connect => { self with taskConnectCount := self.taskConnectCount + 1 }
  | .dropConnect => { self with taskConnectCount := self.taskConnectCount - 1 }
  | .close => { self with closed := true }
  | .heartbeat => self.heartbeat cfg
  | .collectGarbage => self.collectGarbage cfg

end Background

def background [AsRef B] (b : Build) (cfg : Intervals) : Machine (Background B) (BackgroundStep B) Unit where
  init := .init cfg
  step s a := (s.step b cfg a, ())

/-! ### The timers -/

def Background.Beats (s : Background B) (a : BackgroundStep B) : Prop :=
  a = .heartbeat ∧ s.due s.heartbeatAt = true

def Background.Collects (s : Background B) (a : BackgroundStep B) : Prop :=
  a = .collectGarbage ∧ s.due s.collectAt = true

section

variable [AsRef B] (b : Build) (cfg : Intervals)

theorem step_clock (s : Background B) (a : BackgroundStep B) : s.clock ≤ (s.step b cfg a).clock := by
  cases a with
  | elapse d => exact Nat.le_add_right _ _
  | call call =>
    simp only [Background.step]
    split <;> exact Nat.le_refl _
  | heartbeat =>
    simp only [Background.step, Background.heartbeat]
    split_ifs <;> exact Nat.le_refl _
  | collectGarbage =>
    simp only [Background.step, Background.collectGarbage]
    split_ifs <;> exact Nat.le_refl _
  | _ => exact Nat.le_refl _

/-- Other steps leave the sleep of `heartbeat`. -/
theorem step_heartbeatAt {s : Background B} {a : BackgroundStep B} (h : ¬ s.Beats a) :
    (s.step b cfg a).heartbeatAt = s.heartbeatAt := by
  cases a with
  | heartbeat =>
    have hdue : s.due s.heartbeatAt = false := by simpa [Background.Beats] using h
    simp [Background.step, Background.heartbeat, hdue]
  | call call =>
    simp only [Background.step]
    split <;> rfl
  | collectGarbage =>
    simp only [Background.step, Background.collectGarbage]
    split_ifs <;> rfl
  | _ => rfl

theorem step_collectAt {s : Background B} {a : BackgroundStep B} (h : ¬ s.Collects a) :
    (s.step b cfg a).collectAt = s.collectAt := by
  cases a with
  | collectGarbage =>
    have hdue : s.due s.collectAt = false := by simpa [Background.Collects] using h
    simp [Background.step, Background.collectGarbage, hdue]
  | call call =>
    simp only [Background.step]
    split <;> rfl
  | heartbeat =>
    simp only [Background.step, Background.heartbeat]
    split_ifs <;> rfl
  | _ => rfl

/-- The task of `heartbeat`. -/
def beatTimer : Timer (background b cfg : Machine (Background B) _ _) where
  clock := Background.clock
  deadline := Background.heartbeatAt
  Wakes := Background.Beats
  interval := cfg.heartbeat
  starts d hd := by
    cases hd
    exact Nat.le_add_left _ _
  advances := step_clock b cfg
  sleeps s a h d hd := (step_heartbeatAt b cfg h).symm.trans hd
  resets s a h d hd := by
    obtain ⟨rfl, hdue⟩ := h
    revert hd
    simp only [background, Background.step, Background.heartbeat, hdue, if_true]
    split_ifs
    · intro hd
      cases hd
    all_goals
      intro hd
      exact Nat.le_of_eq (Option.some.inj hd).symm

/-- The task of `collect_garbage`. -/
def collectTimer : Timer (background b cfg : Machine (Background B) _ _) where
  clock := Background.clock
  deadline := Background.collectAt
  Wakes := Background.Collects
  interval := cfg.gcInterval
  starts d hd := by
    cases hd
    exact Nat.le_add_left _ _
  advances := step_clock b cfg
  sleeps s a h d hd := (step_collectAt b cfg h).symm.trans hd
  resets s a h d hd := by
    obtain ⟨rfl, hdue⟩ := h
    revert hd
    simp only [background, Background.step, Background.collectGarbage, hdue, if_true]
    split_ifs
    · intro hd
      cases hd
    · intro hd
      exact Nat.le_of_eq (Option.some.inj hd).symm

end

/-! ### What a run shows -/

/-- A TCP stream or a UDP session is there to be kept alive. -/
def Background.Relaying (s : Background B) : Prop := 0 < s.taskConnectCount ∨ s.model.sessions.keys.Nonempty

/-- A fragment comes to `assemble`. -/
def Arrives (_ : Background B) (a : BackgroundStep B) : Prop := ∃ now pkt data, a = .call (.assemble now pkt data)

section

variable [AsRef B] (b : Build) (cfg : Intervals) (steps : List (BackgroundStep B)) (late : Duration)

/-- As long as an open connection relays, no time longer than the interval passes without a
heartbeat, and none is sent otherwise. -/
structure HeartbeatsFollow : Prop where
  follow : ∀ i j, i ≤ j → j ≤ steps.length →
    ((background b cfg).stateAt steps j).closed = false →
    (∀ k, i ≤ k → k < j → ((background b cfg).stateAt steps k).Relaying) →
    ((background b cfg).stateAt steps i).clock + cfg.heartbeat + late < ((background b cfg).stateAt steps j).clock →
    ∃ t ∈ ((background b cfg).stateAt steps j).heartbeats,
      ((background b cfg).stateAt steps i).clock ≤ t ∧ t ≤ ((background b cfg).stateAt steps j).clock
  needed : ∀ j ≤ steps.length, ∀ t ∈ ((background b cfg).stateAt steps j).heartbeats,
    ∃ k < j, ((background b cfg).stateAt steps k).clock = t ∧
      ((background b cfg).stateAt steps k).closed = false ∧ ((background b cfg).stateAt steps k).Relaying

/-- How long an incomplete packet is kept at most. -/
def Intervals.window : Duration := cfg.gcLifetime + cfg.gcInterval + late

/-- As long as the connection is open, an incomplete packet is kept for the window at most, and
no more are kept than fragments have come within it. None is collected before its time. -/
structure Collected : Prop where
  young : ∀ n ≤ steps.length, ((background b cfg).stateAt steps n).closed = false →
    ∀ key buf, ((background b cfg).stateAt steps n).model.buffers.get key = some buf →
      ((background b cfg).stateAt steps n).clock ≤ buf.cTime + cfg.window late
  few : ∀ n ≤ steps.length, ((background b cfg).stateAt steps n).closed = false →
    ((background b cfg).stateAt steps n).model.buffers.keys.ncard ≤
      {k | k < n ∧ (background b cfg).At steps Arrives k ∧
        ((background b cfg).stateAt steps n).clock ≤
          ((background b cfg).stateAt steps k).clock + cfg.window late}.ncard
  kept : ∀ n, steps[n]? = some .collectGarbage →
    ∀ key buf, ((background b cfg).stateAt steps n).model.buffers.get key = some buf →
      ((background b cfg).stateAt steps n).clock < buf.cTime + cfg.gcLifetime →
      ((background b cfg).stateAt steps (n + 1)).model.buffers.get key = some buf

end

end Tuic.Client
