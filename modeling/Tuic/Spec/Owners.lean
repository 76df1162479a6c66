import Tuic.Spec.Model
import Tuic.Spec.UdpSession

/-! Who owns the UDP sessions of a server connection: `connection/udp_session.rs`
and `handle_task.rs` once more, at a finer grain. `UdpSession::new` spawns the
listen task that owns the session before `handle_packet` inserts its `Weak`, the
task lets go of the session only after it has removed the entry, and a panic in
its loop lets go of it at once. -/

namespace Tuic.Server

open Lib Model

/-- What listen tasks run under: two settings, and the last point in time that an
`Instant` can represent. -/
structure ListenConfig where
  streamTimeout : Duration
  maxExternalPacketSize : ℕ
  lastInstant : Instant

/-- Whether a turn of the loop panics: `tokio::time::interval` does for a period of
zero, the sum of an `Instant` and a `Duration` when it cannot be represented, and
`vec!` for a buffer that is larger than any object. -/
def ListenConfig.panics (cfg : ListenConfig) (b : Build) (now : Instant) : Bool :=
  cfg.streamTimeout == 0 || decide (cfg.lastInstant < now + cfg.streamTimeout) ||
    decide (b.isizeMax < cfg.maxExternalPacketSize)

/-- What the listen task of a session is at: in its loop, behind it and waiting for
the lock, or past its removal of the entry; it owns the session until it has
released it. -/
inductive Owner
  | listening
  | leaving
  | removed
  | released
  deriving DecidableEq, Repr

structure OwnedSession where
  assocId : UInt16
  closeTx : Bool
  owner : Owner
  deriving DecidableEq

namespace OwnedSession

def new (assocId : UInt16) : OwnedSession := ⟨assocId, true, .listening⟩

def close (self : OwnedSession) : OwnedSession := { self with closeTx := false }

/-- `Weak::upgrade` succeeds at least as long as the listen task owns the session. -/
def alive (self : OwnedSession) : Bool := self.owner != .released

end OwnedSession

/-- The table of one connection. `inserting` is the association and the session of
a `handle_packet` that has made the session and not yet inserted it: it holds the
lock for writing. -/
structure Owners where
  created : List OwnedSession
  table : Table UInt16 WeakSession
  waiting : List UInt16
  inserting : Option (UInt16 × WeakSession)

namespace Owners

def new : Owners := ⟨[], .empty, [], none⟩

/-- The first half of `handle_packet`. -/
def lookUp (self : Owners) (assocId : UInt16) : Owners :=
  match self.table.get assocId with
  | some _ => self
  | none => { self with waiting := self.waiting ++ [assocId] }

/-- The second half, up to the insertion. -/
def entry (self : Owners) (i : ℕ) (bound : Bool) : Owners :=
  match self.waiting[i]? with
  | none => self
  | some assocId =>
    let self := { self with waiting := self.waiting.eraseIdx i }
    match self.table.get assocId with
    | some _ => self
    | none =>
      if bound then
        { self with
          created := self.created ++ [.new assocId]
          inserting := some (assocId, self.created.length) }
      else self

/-- `entry.insert(session.clone())`, which ends the hold on the lock. -/
def insert (self : Owners) : Owners :=
  match self.inserting with
  | some (assocId, session) =>
    { self with table := self.table.insert assocId session, inserting := none }
  | none => self

/-- `handle_dissociate` -/
def dissociate (self : Owners) (assocId : UInt16) : Owners :=
  match self.table.get assocId with
  | some session =>
    { self with
      table := self.table.remove assocId
      created := self.created.modify session OwnedSession.close }
  | none => self

/-- The listen task of `session` starts its loop or begins the next round of it. -/
def turn (cfg : ListenConfig) (b : Build) (self : Owners) (session : WeakSession) (now : Instant) :
    Owners :=
  match self.created[session]? with
  | some ⟨_, _, .listening⟩ =>
    if cfg.panics b now then
      { self with created := self.created.modify session ({ · with owner := .released }) }
    else self
  | _ => self

/-- The listen task of `session` runs into its timeout and closes it. -/
def timeout (self : Owners) (session : WeakSession) : Owners :=
  match self.created[session]? with
  | some ⟨_, _, .listening⟩ => { self with created := self.created.modify session OwnedSession.close }
  | _ => self

/-- The listen task of `session` sees that it was told to close. -/
def leave (self : Owners) (session : WeakSession) : Owners :=
  match self.created[session]? with
  | some ⟨_, false, .listening⟩ =>
    { self with created := self.created.modify session ({ · with owner := .leaving }) }
  | _ => self

/-- The listen task of `session` removes the entry of its association. -/
def remove (self : Owners) (session : WeakSession) : Owners :=
  match self.created[session]? with
  | some ⟨assocId, _, .leaving⟩ =>
    { self with
      table := self.table.remove assocId
      created := self.created.modify session ({ · with owner := .removed }) }
  | _ => self

/-- The listen task of `session` is over. -/
def release (self : Owners) (session : WeakSession) : Owners :=
  match self.created[session]? with
  | some ⟨_, _, .removed⟩ =>
    { self with created := self.created.modify session ({ · with owner := .released }) }
  | _ => self

end Owners

inductive OwnerStep
  | lookUp (assocId : UInt16)
  | entry (i : ℕ) (bound : Bool)
  | insert
  | dissociate (assocId : UInt16)
  | turn (session : WeakSession) (now : Instant)
  | timeout (session : WeakSession)
  | leave (session : WeakSession)
  | remove (session : WeakSession)
  | release (session : WeakSession)
  deriving DecidableEq, Repr

/-- The steps that take the lock. -/
def OwnerStep.locks : OwnerStep → Bool
  | lookUp _ | entry _ _ | dissociate _ | remove _ => true
  | _ => false

/-- A step that takes the lock waits while a `handle_packet` holds it. -/
def Owners.step (cfg : ListenConfig) (b : Build) (s : Owners) (a : OwnerStep) : Owners :=
  if a.locks && s.inserting.isSome then s
  else
    match a with
    | .lookUp assocId => s.lookUp assocId
    | .entry i bound => s.entry i bound
    | .insert => s.insert
    | .dissociate assocId => s.dissociate assocId
    | .turn session now => s.turn cfg b session now
    | .timeout session => s.timeout session
    | .leave session => s.leave session
    | .remove session => s.remove session
    | .release session => s.release session

/-- The sessions of a connection, from its start on. -/
def owners (cfg : ListenConfig) (b : Build) : Machine Owners OwnerStep Unit where
  init := .new
  step s a := (s.step cfg b a, ())

/-! ### What the steps do -/

/-- Every `Weak` in the table upgrades. -/
def Owners.AllAlive (s : Owners) : Prop :=
  ∀ assocId x, s.table.get assocId = some x → ∃ u, s.created[x]? = some u ∧ u.alive = true

/-- The step is a turn in which the listen task of session `x` panics. -/
def Panics (cfg : ListenConfig) (b : Build) (x : WeakSession) (s : Owners) (a : OwnerStep) : Prop :=
  ∃ now, a = .turn x now ∧ cfg.panics b now = true ∧
    ∃ u, s.created[x]? = some u ∧ u.owner = .listening

/-- The step inserts session `x`. -/
def Inserts (x : WeakSession) (s : Owners) (a : OwnerStep) : Prop :=
  a = .insert ∧ ∃ assocId, s.inserting = some (assocId, x)

/-- A listen task that panics does so when its session is not in the table and will
not be inserted. -/
def PanicsApart (cfg : ListenConfig) (b : Build) (steps : List OwnerStep) : Prop :=
  ∀ (i : ℕ) x, (owners cfg b).At steps (Panics cfg b x) i →
    (∀ assocId, ((owners cfg b).stateAt steps i).table.get assocId ≠ some x) ∧
    ∀ j > i, ¬ (owners cfg b).At steps (Inserts x) j

end Tuic.Server
