import Mathlib.Algebra.GroupWithZero.Nat
import Tuic.Spec.Restful

/-! The traffic counters of `restful.rs` with requests that run side by side, and
with relays that go on counting. Each `fetch_add`, `load` and `swap` is a step of
its own: a request walks over the users, and reads two counters of each. -/

namespace Tuic.Server

open Lib Model

inductive TrafficSide
  | tx
  | rx
  deriving DecidableEq, Repr

/-- One of the two counters of a user. -/
def TrafficSide.of : TrafficSide → UInt64 × UInt64 → UInt64
  | tx, stats => stats.1
  | rx, stats => stats.2

/-- The counters of a user with one of them set to 0. -/
def TrafficSide.zero : TrafficSide → UInt64 × UInt64 → UInt64 × UInt64
  | tx, stats => (0, stats.2)
  | rx, stats => (stats.1, 0)

/-- The counters of a user with a size added to one of them. -/
def TrafficSide.add : TrafficSide → UInt64 × UInt64 → UInt64 → UInt64 × UInt64
  | tx, stats, size => (stats.1 + size, stats.2)
  | rx, stats, size => (stats.1, stats.2 + size)

def Traffic.of (self : Traffic) : TrafficSide → UInt64
  | .tx => self.tx
  | .rx => self.rx

/-- `fetch_add` on a counter of a user. -/
def Restful.count (self : Restful) (cfg : Config) (dir : TrafficSide) (uuid : Uuid) (size : UInt64) :
    Restful :=
  match cfg.restful, self.trafficStats.get uuid with
  | some _, some stats => { self with trafficStats := self.trafficStats.insert uuid (dir.add stats size) }
  | _, _ => self

theorem trafficTx_eq (s : Restful) (cfg : Config) (uuid : Uuid) (size : UInt64) :
    s.trafficTx cfg uuid size = s.count cfg .tx uuid size := by
  unfold Restful.trafficTx Restful.count
  cases cfg.restful with
  | none => rfl
  | some restful => cases s.trafficStats.get uuid <;> rfl

theorem trafficRx_eq (s : Restful) (cfg : Config) (uuid : Uuid) (size : UInt64) :
    s.trafficRx cfg uuid size = s.count cfg .rx uuid size := by
  unfold Restful.trafficRx Restful.count
  cases cfg.restful with
  | none => rfl
  | some restful => cases s.trafficStats.get uuid <;> rfl

/-- The order in which an iteration over `TRAFFIC_STATS` visits the users. The map
is not changed once it is made, so every iteration visits them alike. -/
structure UserOrder (cfg : Config) where
  users : List Uuid
  nodup : users.Nodup
  mem_iff : ∀ uuid, uuid ∈ users ↔ cfg.users.get uuid ≠ none

/-- The two handlers that walk over the counters: `list_traffic` loads them, and
`reset_traffic` swaps 0 into them. -/
inductive Walker
  | list
  | reset
  deriving DecidableEq, Repr

/-- Where the walk is: before the next user, between the two counters of a user, or
at its end, with the response. -/
inductive WalkPhase
  | walking (todo : List Uuid) (result : Table Uuid Traffic)
  | between (uuid : Uuid) (tx : UInt64) (todo : List Uuid) (result : Table Uuid Traffic)
  | done (status : StatusCode) (result : Table Uuid Traffic)

structure Walk where
  walker : Walker
  phase : WalkPhase

/-- `load`, or `swap(0)`, on a counter of a user. -/
def Restful.read (self : Restful) (walker : Walker) (dir : TrafficSide) (uuid : Uuid) : Restful × UInt64 :=
  match walker, self.trafficStats.get uuid with
  | .list, some stats => (self, dir.of stats)
  | .reset, some stats =>
    ({ self with trafficStats := self.trafficStats.insert uuid (dir.zero stats) }, dir.of stats)
  -- an iteration yields no other users
  | _, none => (self, 0)

namespace Walk

/-- A request arrives and passes the guard or does not. -/
def start (walker : Walker) (cfg : Config) (order : UserOrder cfg) (token : Option String) : Walk where
  walker
  phase := if turnsAway cfg token then .done .unauthorized .empty else .walking order.users .empty

/-- The next atomic step of a request. -/
def advance (self : Walk) (s : Restful) : Restful × Walk :=
  match self.phase with
  | .walking [] result => (s, { self with phase := .done .ok result })
  | .walking (uuid :: todo) result =>
    let (s, tx) := s.read self.walker .tx uuid
    (s, { self with phase := .between uuid tx todo result })
  | .between uuid tx todo result =>
    let (s, rx) := s.read self.walker .rx uuid
    let result := if tx ≠ 0 ∨ rx ≠ 0 then result.insert uuid ⟨tx, rx⟩ else result
    (s, { self with phase := .walking todo result })
  | .done _ _ => (s, self)

end Walk

/-- The tables, and all requests to list or to reset the traffic so far. -/
structure TrafficState where
  restful : Restful
  walks : List Walk

inductive TrafficStep
  | trafficTx (uuid : Uuid) (size : UInt64)
  | trafficRx (uuid : Uuid) (size : UInt64)
  | request (walker : Walker) (token : Option String)
  | advance (i : ℕ)

def TrafficState.step (cfg : Config) (order : UserOrder cfg) (s : TrafficState) :
    TrafficStep → TrafficState
  | .trafficTx uuid size => { s with restful := s.restful.trafficTx cfg uuid size }
  | .trafficRx uuid size => { s with restful := s.restful.trafficRx cfg uuid size }
  | .request walker token => { s with walks := s.walks ++ [.start walker cfg order token] }
  | .advance i =>
    match s.walks[i]? with
    | some walk =>
      let (restful, walk) := walk.advance s.restful
      ⟨restful, s.walks.modify i fun _ => walk⟩
    | none => s

/-- The traffic counters from the start of the server on. -/
def traffic (cfg : Config) (order : UserOrder cfg) : Machine TrafficState TrafficStep Unit where
  init := ⟨.start cfg, []⟩
  step s a := (s.step cfg order a, ())

/-! ### Accounts -/

section

variable (dir : TrafficSide) (uuid : Uuid)

/-- What a response says of a user; an absent user counts as 0. -/
def amount (result : Table Uuid Traffic) : ℕ :=
  match result.get uuid with
  | some traffic => (traffic.of dir).toNat
  | none => 0

/-- What a completed reset reports. -/
def Walk.reported : Walk → ℕ
  | ⟨.reset, .done _ result⟩ => amount dir uuid result
  | _ => 0

/-- What a reset in progress has swapped out. -/
def Walk.swapped : Walk → ℕ
  | ⟨.reset, .walking _ result⟩ => amount dir uuid result
  | ⟨.reset, .between uuid' tx _ result⟩ =>
    amount dir uuid result + if uuid' = uuid ∧ dir = .tx then tx.toNat else 0
  | _ => 0

def TrafficState.reported (s : TrafficState) : ℕ := (s.walks.map (Walk.reported dir uuid)).sum

def TrafficState.swapped (s : TrafficState) : ℕ := (s.walks.map (Walk.swapped dir uuid)).sum

/-- The current value of a counter. -/
def Restful.counter (s : Restful) : ℕ :=
  match s.trafficStats.get uuid with
  | some stats => (dir.of stats).toNat
  | none => 0

/-- What a step adds to a counter. -/
def TrafficStep.adds : TrafficStep → ℕ
  | .trafficTx uuid' size => if uuid' = uuid ∧ dir = .tx then size.toNat else 0
  | .trafficRx uuid' size => if uuid' = uuid ∧ dir = .rx then size.toNat else 0
  | _ => 0

/-- The sum of all sizes that a run adds. -/
def added (steps : List TrafficStep) : ℕ := (steps.map (TrafficStep.adds dir uuid)).sum

end

/-- The step is one of a `list_traffic` request. -/
def TrafficState.Lists (s : TrafficState) : TrafficStep → Prop
  | .request .list _ => True
  | .advance i => ∃ phase, s.walks[i]? = some ⟨.list, phase⟩
  | _ => False

end Tuic.Server
