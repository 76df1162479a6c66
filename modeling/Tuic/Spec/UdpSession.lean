import Tuic.Lib.History
import Tuic.Lib.Machine
import Tuic.Lib.Table

/-! The UDP sessions of a server connection: `connection/udp_session.rs` of
`tuic-server`, and what `handle_packet` and `handle_dissociate` do to the table.
A step of the machine is one access to the lock of `udp_sessions`, or one turn of
a listen task. -/

namespace Tuic.Server

open Lib

/-- Where a listen task is: in its loop, behind it and waiting for the lock, or
at its end. It owns the session until then. -/
inductive Listen
  | running
  | leaving
  | ended
  deriving DecidableEq, Repr

structure UdpSession where
  assocId : UInt16
  /-- The sender is still there: the session has not been told to close. -/
  closeTx : Bool
  listen : Listen
  deriving DecidableEq, Repr

namespace UdpSession

/-- The session that `UdpSession::new` returns, once its sockets are bound. -/
def new (assocId : UInt16) : UdpSession := ⟨assocId, true, .running⟩

/-- Takes the sender and sends. -/
def close (self : UdpSession) : UdpSession := { self with closeTx := false }

end UdpSession

/-- A `Weak<UdpSession>`: the number of a session in the order of creation. -/
abbrev WeakSession := ℕ

/-- The table of one connection. `created` has every session, also those that are
gone; `waiting` has the association of each `handle_packet` that found none and
goes on to take the lock for writing. -/
structure UdpSessions where
  created : List UdpSession
  table : Table UInt16 WeakSession
  waiting : List UInt16

namespace UdpSessions

def new : UdpSessions := ⟨[], .empty, []⟩

/-- The first half of `handle_packet`: a look under the read lock. -/
def lookUp (self : UdpSessions) (assocId : UInt16) : UdpSessions × Option WeakSession :=
  match self.table.get assocId with
  | some session => (self, some session)
  | none => ({ self with waiting := self.waiting ++ [assocId] }, none)

/-- The second half, under the write lock. `bound` says whether the sockets of a
new session can be had. -/
def entry (self : UdpSessions) (i : ℕ) (bound : Bool) : UdpSessions × Option WeakSession :=
  match self.waiting[i]? with
  | none => (self, none)
  | some assocId =>
    let self := { self with waiting := self.waiting.eraseIdx i }
    match self.table.get assocId with
    | some session => (self, some session)
    | none =>
      if bound then
        let session := self.created.length
        ({ self with
            created := self.created ++ [.new assocId]
            table := self.table.insert assocId session }, some session)
      else (self, none)

/-- `handle_dissociate`. It holds the lock until the session is closed; a session
that is gone cannot be upgraded, and has been closed before. -/
def dissociate (self : UdpSessions) (assocId : UInt16) : UdpSessions :=
  match self.table.get assocId with
  | some session =>
    { self with
      table := self.table.remove assocId
      created := self.created.modify session UdpSession.close }
  | none => self

/-- The listen task of `session` runs into its timeout and closes it. -/
def timeout (self : UdpSessions) (session : WeakSession) : UdpSessions :=
  match self.created[session]? with
  | some ⟨_, _, .running⟩ => { self with created := self.created.modify session UdpSession.close }
  | _ => self

/-- The listen task of `session` sees that it was told to close. -/
def leave (self : UdpSessions) (session : WeakSession) : UdpSessions :=
  match self.created[session]? with
  | some ⟨_, false, .running⟩ =>
    { self with created := self.created.modify session ({ · with listen := .leaving }) }
  | _ => self

/-- The listen task of `session` removes the entry of its association and ends. -/
def cleanUp (self : UdpSessions) (session : WeakSession) : UdpSessions :=
  match self.created[session]? with
  | some ⟨assocId, _, .leaving⟩ =>
    { self with
      table := self.table.remove assocId
      created := self.created.modify session ({ · with listen := .ended }) }
  | _ => self

end UdpSessions

inductive UdpStep
  | lookUp (assocId : UInt16)
  | entry (i : ℕ) (bound : Bool)
  | dissociate (assocId : UInt16)
  | timeout (session : WeakSession)
  | leave (session : WeakSession)
  | cleanUp (session : WeakSession)
  deriving DecidableEq, Repr

/-- The output is the session that a `handle_packet` goes on with. -/
def UdpSessions.step (s : UdpSessions) : UdpStep → UdpSessions × Option WeakSession
  | .lookUp assocId => s.lookUp assocId
  | .entry i bound => s.entry i bound
  | .dissociate assocId => (s.dissociate assocId, none)
  | .timeout session => (s.timeout session, none)
  | .leave session => (s.leave session, none)
  | .cleanUp session => (s.cleanUp session, none)

/-- The sessions of a connection, from its start on. -/
def udpSessions : Machine UdpSessions UdpStep (Option WeakSession) := ⟨.new, UdpSessions.step⟩

/-! ### What the steps do -/

/-- The step creates session number `y`, for `assocId`. -/
def Creates (y : WeakSession) (assocId : UInt16) (s : UdpSessions) (a : UdpStep) : Prop :=
  ∃ i, a = .entry i true ∧ s.waiting[i]? = some assocId ∧ s.table.get assocId = none ∧
    s.created.length = y

def Dissociates (assocId : UInt16) (_ : UdpSessions) (a : UdpStep) : Prop := a = .dissociate assocId

/-- The step is the clean-up of session `x`, of `assocId`. -/
def CleansUp (x : WeakSession) (assocId : UInt16) (s : UdpSessions) (a : UdpStep) : Prop :=
  a = .cleanUp x ∧ ∃ session, s.created[x]? = some session ∧ session.assocId = assocId ∧
    session.listen = .leaving

/-- Every association has at most one session that has not been told to close,
and the table refers to it. -/
structure UdpSessions.OneOpen (s : UdpSessions) : Prop where
  unique : ∀ (x y : WeakSession) (u v : UdpSession), s.created[x]? = some u → s.created[y]? = some v →
    u.closeTx = true → v.closeTx = true → u.assocId = v.assocId → x = y
  listed : ∀ (x : WeakSession) (u : UdpSession), s.created[x]? = some u → u.closeTx = true →
    s.table.get u.assocId = some x

/-- Every state of the run has at most one open session for each association, the
one in the table, and no clean-up removes the entry of another session. -/
def KeepsOne (steps : List UdpStep) : Prop :=
  (∀ n ≤ steps.length, (udpSessions.stateAt steps n).OneOpen) ∧
  ∀ (i : ℕ) x assocId, udpSessions.At steps (CleansUp x assocId) i →
    ∀ y, (udpSessions.stateAt steps i).table.get assocId = some y → y = x

/-- No clean-up of a session comes between the creation of another session of the
association and the next `handle_dissociate` of it or that session's own clean-up. -/
def CleansUpApart (steps : List UdpStep) : Prop :=
  ∀ (i : ℕ) x assocId, udpSessions.At steps (CleansUp x assocId) i → ∀ y ≠ x,
    ¬ Since (udpSessions.At steps (Creates y assocId))
      (udpSessions.At steps fun s a => Dissociates assocId s a ∨ CleansUp y assocId s a) i

end Tuic.Server
