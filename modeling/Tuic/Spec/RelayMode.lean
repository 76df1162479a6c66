import Tuic.Spec.UdpSession

/-! The relay mode of a server connection: `handle_uni_stream` and `handle_datagram`
of `connection/handle_stream.rs`, with `handle_packet` and `relay_packet` of
`handle_task.rs`. A step of the machine is one access to `udp_relay_mode` or to the
table of sessions, so any two tasks interleave between the load at the end of
`pre_process` and the store in `handle_packet`. -/

namespace Tuic.Server

open Lib

inductive UdpRelayMode
  | native
  | quic
  deriving DecidableEq, Repr

/-- What brings a command. -/
inductive Incoming
  | uniStream
  | datagram
  deriving DecidableEq, Repr

/-- A `tuic_quinn::Task`, with what the handlers below use of it. -/
inductive Task
  | authenticate
  | packet (assocId : UInt16)
  | dissociate (assocId : UInt16)
  | heartbeat
  deriving DecidableEq, Repr

def Task.isPacket : Task → Bool
  | packet _ => true
  | _ => false

namespace Incoming

/-- The tasks that `accept_uni_stream` and `accept_datagram` return. -/
def carries : Incoming → Task → Bool
  | uniStream, .authenticate | uniStream, .packet _ | uniStream, .dissociate _ => true
  | uniStream, .heartbeat => false
  | datagram, .packet _ | datagram, .heartbeat => true
  | datagram, .authenticate | datagram, .dissociate _ => false

/-- The mode that a packet is handled with. -/
def mode : Incoming → UdpRelayMode
  | uniStream => .quic
  | datagram => .native

/-- The mode in which a packet is unexpected. -/
def unexpectedIn : Incoming → UdpRelayMode
  | uniStream => .native
  | datagram => .quic

end Incoming

inductive PreProcessError
  | unexpectedPacketSource
  /-- An error of `accept_*` or of the authentication, a timeout, or the end of the
  connection. -/
  | other
  deriving DecidableEq, Repr

/-- Where the task of a stream or a datagram is. -/
inductive HandlerPhase
  /-- It waits for the command. -/
  | accepting
  /-- It authenticates, or waits for the authentication. -/
  | accepted (task : Task)
  /-- Its `pre_process` has returned. -/
  | preProcessed (task : Task)
  /-- It is in `handle_packet`, and has stored its mode. -/
  | stored (assocId : UInt16)
  | done
  | failed (e : PreProcessError)
  deriving DecidableEq, Repr

structure Handler where
  incoming : Incoming
  phase : HandlerPhase
  deriving DecidableEq, Repr

/-- Where a `relay_packet` is, by the next of its loads. Its log lines are enabled:
they load the mode as well. -/
inductive Relay
  | entered
  | counted
  | sending (mode : UdpRelayMode)
  | ended
  | panicked
  deriving DecidableEq, Repr

/-- The next load, and what comes before the one after it; `ok` says whether that
succeeds. The value is unwrapped each time. -/
def Relay.step (mode : Option UdpRelayMode) (ok : Bool) : Relay → Relay
  | entered =>
    match mode with
    | some _ => if ok then .counted else .ended
    | none => .panicked
  | counted =>
    match mode with
    | some mode => .sending mode
    | none => .panicked
  | sending _ =>
    if ok then .ended
    else
      match mode with
      | some _ => .ended
      | none => .panicked
  | ended => .ended
  | panicked => .panicked

/-- What the tasks of one connection share, and where each of them is. -/
structure UdpRelay where
  mode : Option UdpRelayMode
  handlers : List Handler
  sessions : UdpSessions
  relays : List Relay
  closed : Bool

namespace UdpRelay

def new : UdpRelay := ⟨none, [], .new, [], false⟩

/-- Task number `x` goes on. -/
def goOn (self : UdpRelay) (x : ℕ) (phase : HandlerPhase) : UdpRelay :=
  { self with handlers := self.handlers.modify x ({ · with phase }) }

/-- The `pre_process` of task `x` fails, which closes the connection. -/
def refuse (self : UdpRelay) (x : ℕ) (e : PreProcessError) : UdpRelay :=
  { self.goOn x (.failed e) with closed := true }

def spawn (self : UdpRelay) (incoming : Incoming) : UdpRelay :=
  if self.closed then self
  else { self with handlers := self.handlers ++ [⟨incoming, .accepting⟩] }

def accept (self : UdpRelay) (x : ℕ) (task : Task) : UdpRelay :=
  match self.handlers[x]? with
  | some ⟨incoming, .accepting⟩ =>
    if incoming.carries task then self.goOn x (.accepted task) else self.refuse x .other
  | _ => self

/-- One of the earlier awaits of `pre_process` fails. -/
def fail (self : UdpRelay) (x : ℕ) : UdpRelay :=
  match self.handlers[x]? with
  | some ⟨_, .accepting⟩ | some ⟨_, .accepted _⟩ => self.refuse x .other
  | _ => self

/-- The end of `pre_process`. -/
def check (self : UdpRelay) (x : ℕ) : UdpRelay :=
  match self.handlers[x]? with
  | some ⟨incoming, .accepted task⟩ =>
    let samePktSrc := task.isPacket && self.mode == some incoming.unexpectedIn
    if samePktSrc then self.refuse x .unexpectedPacketSource else self.goOn x (.preProcessed task)
  | _ => self

/-- What follows `pre_process`; `handle_packet` begins with its store. -/
def handle (self : UdpRelay) (x : ℕ) : UdpRelay :=
  match self.handlers[x]? with
  | some ⟨incoming, .preProcessed (.packet assocId)⟩ =>
    { self.goOn x (.stored assocId) with mode := some incoming.mode }
  | some ⟨_, .preProcessed (.dissociate assocId)⟩ =>
    { self.goOn x .done with sessions := self.sessions.dissociate assocId }
  | some ⟨_, .preProcessed _⟩ => self.goOn x .done
  | _ => self

/-- `handle_packet` after its store. It looks for a session once its packet is whole. -/
def process (self : UdpRelay) (x : ℕ) (whole : Bool) : UdpRelay :=
  match self.handlers[x]? with
  | some ⟨_, .stored assocId⟩ =>
    if whole then { self.goOn x .done with sessions := (self.sessions.lookUp assocId).1 }
    else self.goOn x .done
  | _ => self

/-- A session is made, or its listen task does a turn. -/
def session (self : UdpRelay) (a : UdpStep) : UdpRelay :=
  match a with
  | .lookUp _ | .dissociate _ => self
  | .entry _ _ | .timeout _ | .leave _ | .cleanUp _ =>
    { self with sessions := (self.sessions.step a).1 }

/-- The listen task of session `x` receives a packet and spawns its `relay_packet`. -/
def receive (self : UdpRelay) (x : WeakSession) : UdpRelay :=
  match self.sessions.created[x]? with
  | some ⟨_, _, .running⟩ => { self with relays := self.relays ++ [.entered] }
  | _ => self

def relayPacket (self : UdpRelay) (x : ℕ) (ok : Bool) : UdpRelay :=
  { self with relays := self.relays.modify x (Relay.step self.mode ok) }

end UdpRelay

inductive RelayStep
  | spawn (incoming : Incoming)
  | accept (x : ℕ) (task : Task)
  | fail (x : ℕ)
  | check (x : ℕ)
  | handle (x : ℕ)
  | process (x : ℕ) (whole : Bool)
  | session (a : UdpStep)
  | receive (x : WeakSession)
  | relayPacket (x : ℕ) (ok : Bool)
  deriving DecidableEq, Repr

def UdpRelay.step (s : UdpRelay) : RelayStep → UdpRelay
  | .spawn incoming => s.spawn incoming
  | .accept x task => s.accept x task
  | .fail x => s.fail x
  | .check x => s.check x
  | .handle x => s.handle x
  | .process x whole => s.process x whole
  | .session a => s.session a
  | .receive x => s.receive x
  | .relayPacket x ok => s.relayPacket x ok

/-- The relay of a connection, from its start on. -/
def udpRelay : Machine UdpRelay RelayStep Unit where
  init := .new
  step s a := (s.step a, ())

/-! ### What the steps do -/

/-- Task `x`, with a packet of mode `m`, loads the mode at the end of `pre_process`. -/
def Checks (x : ℕ) (m : UdpRelayMode) (s : UdpRelay) (a : RelayStep) : Prop :=
  a = .check x ∧ ∃ incoming assocId,
    s.handlers[x]? = some ⟨incoming, .accepted (.packet assocId)⟩ ∧ incoming.mode = m

/-- Task `x`, with a packet of mode `m`, comes to `handle_packet`. -/
def Reaches (x : ℕ) (m : UdpRelayMode) (s : UdpRelay) (a : RelayStep) : Prop :=
  a = .handle x ∧ ∃ incoming assocId,
    s.handlers[x]? = some ⟨incoming, .preProcessed (.packet assocId)⟩ ∧ incoming.mode = m

/-- The first packet fixes the mode of the run. -/
structure ModeFixed (steps : List RelayStep) : Prop where
  /-- Once there is a mode, it stays. -/
  stays : ∀ i j m, i ≤ j → j ≤ steps.length → (udpRelay.stateAt steps i).mode = some m →
    (udpRelay.stateAt steps j).mode = some m
  /-- All packets that come to `handle_packet` have the mode, -/
  same : ∀ n ≤ steps.length, ∀ m, (udpRelay.stateAt steps n).mode = some m →
    ∀ j x m', udpRelay.At steps (Reaches x m') j → m' = m
  /-- and the others end in an error. -/
  refused : ∀ j x m m', (udpRelay.stateAt steps j).mode = some m → udpRelay.At steps (Checks x m') j →
    m' ≠ m → (udpRelay.stateAt steps (j + 1)).closed = true ∧
      ∃ h, (udpRelay.stateAt steps (j + 1)).handlers[x]? = some h ∧ h.phase = .failed .unexpectedPacketSource
  /-- A `relay_packet` finds a mode at each of its loads. -/
  relays : ∀ n ≤ steps.length, ∀ (x : ℕ) r, (udpRelay.stateAt steps n).relays[x]? = some r →
    (udpRelay.stateAt steps n).mode.isSome ∧ r ≠ Relay.panicked

/-- No packet of the other mode comes to `handle_packet` between the load of a
packet that does and its store. -/
def ChecksApart (steps : List RelayStep) : Prop :=
  ∀ j x m, udpRelay.At steps (Reaches x m) j → Since (udpRelay.At steps (Checks x m))
    (udpRelay.At steps fun s a => ∃ y, ∃ m' ≠ m, Reaches y m' s a) j

end Tuic.Server
