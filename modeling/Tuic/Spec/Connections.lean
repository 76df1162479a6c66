import Tuic.Lib.Bytes
import Tuic.Lib.Machine
import Tuic.Spec.Restful

/-! The connections of a server: who is authenticated on each, and the two timers
that count it. `connection/mod.rs` and `connection/authenticated.rs` of
`tuic-server`. -/

namespace Tuic

open Lib Model

/-- `export_keying_material` of a connection. -/
abbrev KeyingMaterialExporter := List UInt8 → List UInt8 → Token

def Authenticate.validate (self : Authenticate) (password : String)
    (exporter : KeyingMaterialExporter) : Bool :=
  self.token == exporter self.uuid.toList (asBytes password)

namespace Server

/-- The uuid that `Authenticated` holds. -/
structure Authenticated where
  uuid : Option Uuid
  deriving DecidableEq

def nilUuid : Uuid := Vector.replicate 16 0

namespace Authenticated

/-- It starts with the nil uuid. -/
def new : Authenticated := ⟨some nilUuid⟩

def set (_ : Authenticated) (uuid : Uuid) : Authenticated := ⟨some uuid⟩

def get (self : Authenticated) : Option Uuid := self.uuid

end Authenticated

inductive Error
  | duplicatedAuth
  | authFailed (uuid : Uuid)
  deriving DecidableEq

structure Connection where
  auth : Authenticated
  /-- What `authenticate` has let pass and not yet set. -/
  setting : List Uuid
  closed : Bool
  /-- When `timeout_authenticate` wakes, until it has. -/
  authenticateAt : Option Instant
  /-- When `collect_garbage` wakes next, until it has ended. -/
  collectAt : Option Instant
  /-- The user that `client_connect` has counted. -/
  connected : Option Uuid
  /-- The user that `client_disconnect` has taken off. -/
  disconnected : Option Uuid
  deriving DecidableEq

/-- `Connection::new`, and the timers that `handle` spawns. -/
def Connection.new (cfg : Config) (now : Instant) : Connection where
  auth := .new
  setting := []
  closed := false
  authenticateAt := some (now + cfg.authTimeout)
  collectAt := some (now + cfg.gcInterval)
  connected := none
  disconnected := none

def Connection.authenticate (self : Connection) (cfg : Config) (exporter : KeyingMaterialExporter)
    (auth : Authenticate) : Except Error Uuid :=
  if self.auth.get.isSome then .error .duplicatedAuth
  else if (cfg.users.get auth.uuid).any (auth.validate · exporter) then .ok auth.uuid
  else .error (.authFailed auth.uuid)

/-- All connections so far under their numbers, and the tables of the RESTful
server. -/
structure Connections where
  clock : Instant
  restful : Restful
  conns : List Connection

/-- What the server runs in. -/
structure Context where
  cfg : Config
  exporter : QuicClient → KeyingMaterialExporter
  remoteAddress : QuicClient → SocketAddr

inductive ConnectionStep
  | accept
  | elapse (d : Duration)
  | hangUp (c : QuicClient)
  | authenticate (c : QuicClient) (auth : Authenticate)
  | set (c : QuicClient)
  | timeoutAuthenticate (c : QuicClient)
  | collectGarbage (c : QuicClient)
  | request (req : Request)
  | relay (c : QuicClient) (tx rx : UInt64)

namespace Connections

def put (self : Connections) (c : QuicClient) (conn : Connection) : Connections :=
  { self with conns := self.conns.set c conn }

/-- The peer has closed it, or the server has, here or in `restful.rs`. -/
def isClosed (self : Connections) (c : QuicClient) (conn : Connection) : Bool :=
  conn.closed || decide (c ∈ self.restful.closes.map Close.client)

/-- A timer that has expired wakes its task, now or later. -/
def due (self : Connections) (deadline : Option Instant) : Bool := deadline.any (· ≤ self.clock)

/-- `authenticate`, up to the call of `set`. An error closes the connection. -/
def authenticate (ctx : Context) (self : Connections) (c : QuicClient) (conn : Connection)
    (auth : Authenticate) : Connections × Outcome Error Unit :=
  match conn.authenticate ctx.cfg (ctx.exporter c) auth with
  | .ok uuid => (self.put c { conn with setting := conn.setting ++ [uuid] }, .ok ())
  | .error e => (self.put c { conn with closed := true }, .err e)

def setAuthenticated (self : Connections) (c : QuicClient) (conn : Connection) : Connections :=
  match conn.setting with
  | uuid :: setting => self.put c { conn with auth := conn.auth.set uuid, setting }
  | [] => self

def timeoutAuthenticate (ctx : Context) (self : Connections) (c : QuicClient) (conn : Connection) :
    Connections × Outcome Error Unit :=
  match conn.auth.get with
  | some uuid =>
    match self.restful.clientConnect ctx.cfg uuid c with
    | .ok restful =>
      ({ self.put c { conn with authenticateAt := none, connected := some uuid } with restful }, .ok ())
    | .err e => nomatch e
    | .panic p => (self.put c { conn with authenticateAt := none }, .panic p)
  | none => (self.put c { conn with authenticateAt := none, closed := true }, .ok ())

/-- One round of `collect_garbage`. -/
def collectGarbage (ctx : Context) (self : Connections) (c : QuicClient) (conn : Connection) :
    Connections × Outcome Error Unit :=
  if self.isClosed c conn then
    match conn.auth.get with
    | some uuid =>
      match self.restful.clientDisconnect ctx.cfg uuid c with
      | .ok restful =>
        ({ self.put c { conn with collectAt := none, disconnected := some uuid } with restful }, .ok ())
      | .err e => nomatch e
      | .panic p => (self.put c { conn with collectAt := none }, .panic p)
    | none => (self.put c { conn with collectAt := none }, .ok ())
  else (self.put c { conn with collectAt := some (self.clock + ctx.cfg.gcInterval) }, .ok ())

/-- The end of a relay is where traffic is counted. -/
def relay (ctx : Context) (self : Connections) (conn : Connection) (tx rx : UInt64) : Connections :=
  match conn.auth.get with
  | some uuid =>
    { self with restful := (self.restful.trafficTx ctx.cfg uuid tx).trafficRx ctx.cfg uuid rx }
  | none => self

/-- A step of connection `c`, if there is one. -/
def on (self : Connections) (c : QuicClient)
    (f : Connection → Connections × Outcome Error Unit) : Connections × Outcome Error Unit :=
  match self.conns[c]? with
  | some conn => f conn
  | none => (self, .ok ())

def step (ctx : Context) (self : Connections) : ConnectionStep → Connections × Outcome Error Unit
  | .accept => ({ self with conns := self.conns ++ [.new ctx.cfg self.clock] }, .ok ())
  | .elapse d => ({ self with clock := self.clock + d }, .ok ())
  | .hangUp c => self.on c fun conn => (self.put c { conn with closed := true }, .ok ())
  | .authenticate c auth => self.on c fun conn => self.authenticate ctx c conn auth
  | .set c => self.on c fun conn => (self.setAuthenticated c conn, .ok ())
  | .timeoutAuthenticate c => self.on c fun conn =>
    if self.due conn.authenticateAt then self.timeoutAuthenticate ctx c conn else (self, .ok ())
  | .collectGarbage c => self.on c fun conn =>
    if self.due conn.collectAt then self.collectGarbage ctx c conn else (self, .ok ())
  | .request req =>
    ({ self with restful := (self.restful.serve ctx.cfg ctx.remoteAddress req).1 }, .ok ())
  | .relay c tx rx => self.on c fun conn => (self.relay ctx conn tx rx, .ok ())

end Connections

/-- A server from its start on. -/
def connections (ctx : Context) : Machine Connections ConnectionStep (Outcome Error Unit) :=
  ⟨⟨0, .start ctx.cfg, []⟩, Connections.step ctx⟩

/-! ### What a run shows -/

/-- How many connections of a user `client_connect` has counted and
`client_disconnect` not yet taken off. -/
def Connections.onlineOf (self : Connections) (uuid : Uuid) : ℕ :=
  self.conns.countP fun conn => conn.connected = some uuid ∧ conn.disconnected = none

/-- Whoever is authenticated on a connection is a user with counters, and nothing
panics for want of one. -/
structure Identifies (ctx : Context) (steps : List ConnectionStep) : Prop where
  known : ∀ n ≤ steps.length, ∀ (c : QuicClient) conn uuid,
    ((connections ctx).stateAt steps n).conns[c]? = some conn → conn.auth.get = some uuid →
      ctx.cfg.users.get uuid ≠ none ∧
      ((connections ctx).stateAt steps n).restful.trafficStats.get uuid ≠ none
  noPanic : ∀ i p, (connections ctx).outAt steps i ≠ some (.panic p)

/-- The users of all connections are in the table of users. -/
def UsersPresent (ctx : Context) (steps : List ConnectionStep) : Prop :=
  ∀ n ≤ steps.length, ∀ (c : QuicClient) conn uuid,
    ((connections ctx).stateAt steps n).conns[c]? = some conn → conn.auth.get = some uuid →
      ctx.cfg.users.get uuid ≠ none

/-- The counter of every user is exact in every state, it never wraps below zero, and
no connection is taken off that was not counted before. -/
structure CountsExactly (ctx : Context) (steps : List ConnectionStep) : Prop where
  exact : ∀ n ≤ steps.length, ∀ uuid count,
    ((connections ctx).stateAt steps n).restful.onlineCounter.get uuid = some count →
      count.toNat = ((connections ctx).stateAt steps n).onlineOf uuid
  noWrap : ∀ n < steps.length, ∀ uuid,
    ((connections ctx).stateAt steps n).restful.onlineCounter.get uuid = some 0 →
      ((connections ctx).stateAt steps (n + 1)).restful.onlineCounter.get uuid ≠ some (0 - 1)
  ordered : ∀ n ≤ steps.length, ∀ (c : QuicClient) conn,
    ((connections ctx).stateAt steps n).conns[c]? = some conn → conn.disconnected ≠ none →
      conn.connected ≠ none

/-- A round of `collect_garbage` that finds its connection closed comes after its
`timeout_authenticate`, and a counter has room for the connections of its user. -/
structure CollectsLate (ctx : Context) (steps : List ConnectionStep) : Prop where
  collects : ∀ n (c : QuicClient) conn, steps[n]? = some (.collectGarbage c) →
    ((connections ctx).stateAt steps n).conns[c]? = some conn →
    ((connections ctx).stateAt steps n).due conn.collectAt = true →
    ((connections ctx).stateAt steps n).isClosed c conn = true → conn.authenticateAt = none
  fits : ∀ n ≤ steps.length, ∀ uuid, ctx.cfg.users.get uuid ≠ none →
    ((connections ctx).stateAt steps n).onlineOf uuid < 2 ^ 64

end Server

end Tuic
