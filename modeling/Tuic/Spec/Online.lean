import Mathlib.Data.Finset.Range
import Tuic.Lib.Machine
import Tuic.Spec.Restful

/-! The clients of a server with a RESTful server: `client_connect` and
`client_disconnect` of any connections, in any order. Each call has two steps, one
at the counter and one at the set of clients, and calls interleave between them. -/

namespace Tuic.Server

open Lib

/-- How far a connection is. It passes the limit or is rejected, is online when its
`client_connect` is through, and `leaving` when it is no longer counted; `leaving`
remembers whether it was online. -/
inductive Phase
  | passed
  | online
  | rejected
  | leaving (wasOnline : Bool)
  | gone
  deriving DecidableEq, Repr

/-- `client_connect` finished without hitting the limit, and `client_disconnect`
has not. -/
def Phase.isListed : Phase → Bool
  | .online | .leaving true => true
  | _ => false

/-- Within the limit, and not disconnected. -/
def Phase.isWithin : Phase → Bool
  | .passed | .online => true
  | _ => false

/-- Its `client_connect` has begun, and its `client_disconnect` has not. -/
def Phase.isCounted : Phase → Bool
  | .passed | .online | .rejected => true
  | _ => false

structure Client where
  uuid : Uuid
  phase : Phase
  deriving DecidableEq

/-- The tables, and every connection so far under its number. `first` remembers the
first connection of each user that went online. -/
structure Online where
  restful : Restful
  clients : List Client
  first : Table Uuid QuicClient

inductive OnlineStep
  | connect (uuid : Uuid)
  | register (conn : QuicClient)
  | disconnect (conn : QuicClient)
  | unregister (conn : QuicClient)
  deriving DecidableEq

namespace Online

/-- The phase of a connection. -/
def enter (self : Online) (conn : QuicClient) (phase : Phase) : Online :=
  { self with clients := self.clients.modify conn ({ · with phase }) }

/-- `client_connect` of the next connection, up to the limit. A panic ends it. -/
def connect (limits : RestfulConfig) (self : Online) (uuid : Uuid) : Online :=
  match self.restful.countIn limits uuid self.clients.length with
  | .ok (restful, passed) =>
    { self with
      restful
      clients := self.clients ++ [⟨uuid, if passed then .passed else .rejected⟩] }
  | .err _ | .panic _ => self

/-- The rest of `client_connect`. -/
def register (self : Online) (conn : QuicClient) : Online :=
  match self.clients[conn]? with
  | some ⟨uuid, .passed⟩ =>
    { self.enter conn .online with
      restful := self.restful.register uuid conn
      first := if self.first.get uuid = none then self.first.insert uuid conn else self.first }
  | _ => self

/-- `client_disconnect`, up to the counter. -/
def disconnect (self : Online) (conn : QuicClient) : Online :=
  match self.clients[conn]? with
  | some ⟨uuid, phase⟩ =>
    match phase, self.restful.fetchSub uuid with
    | .online, .ok restful => { self.enter conn (.leaving true) with restful }
    | .rejected, .ok restful => { self.enter conn (.leaving false) with restful }
    | _, _ => self
  | none => self

/-- The rest of `client_disconnect`. -/
def unregister (self : Online) (conn : QuicClient) : Online :=
  match self.clients[conn]? with
  | some ⟨uuid, .leaving _⟩ =>
    { self.enter conn .gone with restful := self.restful.unregister uuid conn }
  | _ => self

def step (limits : RestfulConfig) (self : Online) : OnlineStep → Online
  | .connect uuid => self.connect limits uuid
  | .register conn => self.register conn
  | .disconnect conn => self.disconnect conn
  | .unregister conn => self.unregister conn

/-! ### What the tables are about -/

/-- The connections of a user that are online. -/
def listed (self : Online) (uuid : Uuid) : Finset QuicClient :=
  (Finset.range self.clients.length).filter fun conn =>
    self.clients[conn]?.any fun client => client.uuid = uuid ∧ client.phase.isListed

/-- The clients of a user, as the table has them. -/
def clientsOf (self : Online) (uuid : Uuid) : Finset QuicClient :=
  (self.restful.onlineClients.get uuid).getD ∅

/-- How many connections of a user are within the limit and not disconnected. -/
def within (self : Online) (uuid : Uuid) : ℕ :=
  self.clients.countP fun client => client.uuid = uuid ∧ client.phase.isWithin

/-- How many connections of a user have called `client_connect` and not
`client_disconnect`. -/
def counted (self : Online) (uuid : Uuid) : ℕ :=
  self.clients.countP fun client => client.uuid = uuid ∧ client.phase.isCounted

end Online

/-- The clients of a server from its start on, with the limit of its configuration. -/
def online (cfg : Config) (limits : RestfulConfig) : Machine Online OnlineStep Unit :=
  ⟨⟨.start cfg, [], .empty⟩, fun s a => (s.step limits a, ())⟩

end Tuic.Server
