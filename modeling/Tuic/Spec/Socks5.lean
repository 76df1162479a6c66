import Tuic.Lib.Machine
import Tuic.Lib.Outcome
import Tuic.Lib.Table

/-! The UDP associations of the client's SOCKS5 server: `socks5/mod.rs` of
`tuic-client`, and what `handle_associate` does to the table of sessions. -/

namespace Tuic.Client

open Lib

/-- Where `handle_associate` is: before the insertion into the table, between it and
the removal, or behind that. -/
inductive Stage
  | starting
  | live
  | closed
  deriving DecidableEq, Repr

structure Association where
  assocId : UInt16
  stage : Stage
  deriving DecidableEq, Repr

/-- All associations so far under their numbers. The session of an association goes by
its number. -/
structure Socks5 where
  nextAssocId : UInt16
  associations : List Association
  udpSessions : Table UInt16 ℕ

namespace Socks5

def new : Socks5 := ⟨0, [], .empty⟩

/-- `fetch_add` wraps around. -/
def associate (self : Socks5) : Socks5 :=
  { self with
    nextAssocId := self.nextAssocId + 1
    associations := self.associations ++ [⟨self.nextAssocId, .starting⟩] }

def enter (self : Socks5) (k : ℕ) (stage : Stage) : Socks5 :=
  { self with associations := self.associations.modify k ({ · with stage }) }

/-- There is no socket for the session, or the reply does not get through. -/
def fail (self : Socks5) (k : ℕ) : Socks5 :=
  match self.associations[k]? with
  | some ⟨_, .starting⟩ => self.enter k .closed
  | _ => self

def insert (self : Socks5) (k : ℕ) : Socks5 :=
  match self.associations[k]? with
  | some ⟨assocId, .starting⟩ =>
    { self.enter k .live with udpSessions := self.udpSessions.insert assocId k }
  | _ => self

/-- The control connection is gone: `remove(&assoc_id).unwrap()`. -/
def close (self : Socks5) (k : ℕ) : Socks5 × Outcome Empty Unit :=
  match self.associations[k]? with
  | some ⟨assocId, .live⟩ =>
    match self.udpSessions.get assocId with
    | some _ => ({ self.enter k .closed with udpSessions := self.udpSessions.remove assocId }, .ok ())
    | none => (self.enter k .closed, .panic .unwrapNone)
  | _ => (self, .ok ())

end Socks5

inductive Socks5Step
  | associate
  | fail (k : ℕ)
  | insert (k : ℕ)
  | close (k : ℕ)
  deriving DecidableEq, Repr

def Socks5.step (self : Socks5) : Socks5Step → Socks5 × Outcome Empty Unit
  | .associate => (self.associate, .ok ())
  | .fail k => (self.fail k, .ok ())
  | .insert k => (self.insert k, .ok ())
  | .close k => self.close k

def socks5 : Machine Socks5 Socks5Step (Outcome Empty Unit) := ⟨.new, Socks5.step⟩

/-! ### What a run shows -/

/-- Live associations have different ids, and the table maps the id of each to its own
session. -/
structure Socks5.Apart (s : Socks5) : Prop where
  distinct : ∀ (j k : ℕ) u v, s.associations[j]? = some u → s.associations[k]? = some v →
    u.stage = .live → v.stage = .live → u.assocId = v.assocId → j = k
  listed : ∀ (k : ℕ) u, s.associations[k]? = some u → u.stage = .live →
    s.udpSessions.get u.assocId = some k

/-- So it is in every state of a run, and no removal panics. -/
def KeepsApart (steps : List Socks5Step) : Prop :=
  (∀ n ≤ steps.length, (socks5.stateAt steps n).Apart) ∧
  ∀ i p, socks5.outAt steps i ≠ some (.panic p)

/-- The step inserts the session of association `k`. -/
def Inserts (k : ℕ) (s : Socks5) (a : Socks5Step) : Prop :=
  a = .insert k ∧ ∃ u, s.associations[k]? = some u ∧ u.stage = .starting

/-- No session is inserted while an association is live whose number differs by a
multiple of 65536. -/
def InsertsApart (steps : List Socks5Step) : Prop :=
  ∀ i k, socks5.At steps (Inserts k) i → ∀ (j : ℕ) u,
    (socks5.stateAt steps i).associations[j]? = some u → u.stage = .live → j % 65536 ≠ k % 65536

end Tuic.Client
