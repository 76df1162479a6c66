import Mathlib.Data.Finset.Basic
import Tuic.Lib.Outcome
import Tuic.Lib.Table
import Tuic.Spec.Model
import Tuic.Spec.Protocol

/-! The RESTful server of `tuic-server`: `restful.rs`, and what it reads of
`config.rs`. -/

namespace Tuic.Server

open Lib Model

/-- A QUIC connection, told apart from others by its `stable_id`. -/
abbrev QuicClient := ℕ

structure RestfulConfig where
  secret : String
  maximumClientsPerUser : UInt64
  deriving DecidableEq

structure Config where
  users : Table Uuid String
  restful : Option RestfulConfig
  authTimeout : Duration
  gcInterval : Duration

/-- A call of `close` on a connection. -/
structure Close where
  client : QuicClient
  code : UInt32
  reason : String
  deriving DecidableEq

/-- The tables, and every call of `close` so far. -/
structure Restful where
  onlineCounter : Table Uuid UInt64
  onlineClients : Table Uuid (Finset QuicClient)
  trafficStats : Table Uuid (UInt64 × UInt64)
  closes : Multiset Close

/-- `CHashMap::upsert`: only a key that is there is updated. -/
def upsert {σ : Type} (t : Table Uuid σ) (k : Uuid) (insert : σ) (update : σ → σ) : Table Uuid σ :=
  match t.get k with
  | some v => t.insert k (update v)
  | none => t.insert k insert

namespace Restful

/-- The tables that `start` builds. -/
def start (cfg : Config) : Restful where
  onlineCounter := cfg.users.map fun _ => 0
  onlineClients := .empty
  trafficStats := cfg.users.map fun _ => (0, 0)
  closes := 0

def close (self : Restful) (conn : QuicClient) (code : UInt32) (reason : String) : Restful :=
  { self with closes := ⟨conn, code, reason⟩ ::ₘ self.closes }

/-! ### Clients come and go -/

/-- `fetch_add(1)` on the counter of a user, with the value before it. -/
def fetchAdd (self : Restful) (uuid : Uuid) : Outcome Empty (Restful × UInt64) :=
  match self.onlineCounter.get uuid with
  | some current =>
    .ok ({ self with onlineCounter := self.onlineCounter.insert uuid (current + 1) }, current)
  | none => .panic .unwrapNone

def fetchSub (self : Restful) (uuid : Uuid) : Outcome Empty Restful :=
  match self.onlineCounter.get uuid with
  | some current => .ok { self with onlineCounter := self.onlineCounter.insert uuid (current - 1) }
  | none => .panic .unwrapNone

/-- The first half of `client_connect`: it counts the connection, and says whether
it passes or is closed for reaching the limit. -/
def countIn (self : Restful) (cfg : RestfulConfig) (uuid : Uuid) (conn : QuicClient) :
    Outcome Empty (Restful × Bool) := do
  let (self, current) ← self.fetchAdd uuid
  if cfg.maximumClientsPerUser ≠ 0 ∧ current > cfg.maximumClientsPerUser then
    pure (self.close conn 6001 "Reached maximum clients limitation", false)
  else pure (self, true)

/-- The second half of `client_connect`, of a connection that passes. -/
def register (self : Restful) (uuid : Uuid) (conn : QuicClient) : Restful :=
  { self with onlineClients := upsert self.onlineClients uuid ∅ fun v => insert conn v }

def clientConnect (self : Restful) (cfg : Config) (uuid : Uuid) (conn : QuicClient) :
    Outcome Empty Restful :=
  match cfg.restful with
  | none => .ok self
  | some cfg => do
    let (self, passed) ← self.countIn cfg uuid conn
    pure (if passed then self.register uuid conn else self)

/-- The second half of `client_disconnect`. -/
def unregister (self : Restful) (uuid : Uuid) (conn : QuicClient) : Restful :=
  match self.onlineClients.get uuid with
  | some pair => { self with onlineClients := self.onlineClients.insert uuid (pair.erase conn) }
  | none => self

def clientDisconnect (self : Restful) (cfg : Config) (uuid : Uuid) (conn : QuicClient) :
    Outcome Empty Restful :=
  match cfg.restful with
  | none => .ok self
  | some _ => do
    let self ← self.fetchSub uuid
    pure (self.unregister uuid conn)

/-! ### Traffic -/

def trafficTx (self : Restful) (cfg : Config) (uuid : Uuid) (size : UInt64) : Restful :=
  match cfg.restful, self.trafficStats.get uuid with
  | some _, some (tx, rx) => { self with trafficStats := self.trafficStats.insert uuid (tx + size, rx) }
  | _, _ => self

def trafficRx (self : Restful) (cfg : Config) (uuid : Uuid) (size : UInt64) : Restful :=
  match cfg.restful, self.trafficStats.get uuid with
  | some _, some (tx, rx) => { self with trafficStats := self.trafficStats.insert uuid (tx, rx + size) }
  | _, _ => self

end Restful

/-! ### Requests -/

inductive StatusCode
  | ok
  | unauthorized
  deriving DecidableEq, Repr

/-- The guard that every handler begins with. -/
def turnsAway (cfg : Config) (token : Option String) : Bool :=
  match cfg.restful, token with
  | some restful, some token => !restful.secret.isEmpty && restful.secret != token
  | _, _ => false

structure Traffic where
  tx : UInt64
  rx : UInt64
  deriving DecidableEq

namespace Restful

/-- Closes every client in the list of a user. -/
def kickUser (self : Restful) (user : Uuid) : Restful :=
  match self.onlineClients.get user with
  | some list =>
    { self with closes := self.closes + list.val.map fun client => ⟨client, 6002, "Client got kicked"⟩ }
  | none => self

def kick (self : Restful) (cfg : Config) (token : Option String) (users : List Uuid) :
    Restful × StatusCode :=
  if turnsAway cfg token then (self, .unauthorized) else (users.foldl kickUser self, .ok)

def listOnline (self : Restful) (cfg : Config) (token : Option String) :
    StatusCode × Table Uuid UInt64 :=
  if turnsAway cfg token then (.unauthorized, .empty)
  else (.ok, self.onlineCounter.retain fun count => count != 0)

/-- The addresses of a user come in the order of a hash set, so in none. -/
def listDetailedOnline (self : Restful) (remoteAddress : QuicClient → SocketAddr) (cfg : Config)
    (token : Option String) : StatusCode × Table Uuid (Multiset SocketAddr) :=
  if turnsAway cfg token then (.unauthorized, .empty)
  else (.ok, (self.onlineClients.retain fun list => decide (list ≠ ∅)).map fun list =>
    list.val.map remoteAddress)

/-- The traffic of every user that has any. -/
def traffic (self : Restful) : Table Uuid Traffic :=
  (self.trafficStats.retain fun stats => stats.1 != 0 || stats.2 != 0).map fun stats =>
    ⟨stats.1, stats.2⟩

def listTraffic (self : Restful) (cfg : Config) (token : Option String) :
    StatusCode × Table Uuid Traffic :=
  if turnsAway cfg token then (.unauthorized, .empty) else (.ok, self.traffic)

def resetTraffic (self : Restful) (cfg : Config) (token : Option String) :
    Restful × StatusCode × Table Uuid Traffic :=
  if turnsAway cfg token then (self, .unauthorized, .empty)
  else ({ self with trafficStats := self.trafficStats.mapValues fun _ => (0, 0) }, .ok, self.traffic)

end Restful

/-- A request: its route, its bearer token if it has one, and the body of `kick`. -/
inductive Request
  | kick (token : Option String) (users : List Uuid)
  | listOnline (token : Option String)
  | listDetailedOnline (token : Option String)
  | listTraffic (token : Option String)
  | resetTraffic (token : Option String)

def Request.token : Request → Option String
  | kick token _ | listOnline token | listDetailedOnline token | listTraffic token | resetTraffic token =>
    token

inductive Body
  | empty
  | online (counts : Table Uuid UInt64)
  | detailedOnline (addresses : Table Uuid (Multiset SocketAddr))
  | traffic (stats : Table Uuid Traffic)

structure Response where
  status : StatusCode
  body : Body

def Restful.serve (cfg : Config) (remoteAddress : QuicClient → SocketAddr) (self : Restful) :
    Request → Restful × Response
  | .kick token users =>
    let (self, status) := self.kick cfg token users
    (self, ⟨status, .empty⟩)
  | .listOnline token =>
    let (status, counts) := self.listOnline cfg token
    (self, ⟨status, .online counts⟩)
  | .listDetailedOnline token =>
    let (status, addresses) := self.listDetailedOnline remoteAddress cfg token
    (self, ⟨status, .detailedOnline addresses⟩)
  | .listTraffic token =>
    let (status, stats) := self.listTraffic cfg token
    (self, ⟨status, .traffic stats⟩)
  | .resetTraffic token =>
    let (self, status, stats) := self.resetTraffic cfg token
    (self, ⟨status, .traffic stats⟩)

/-- A sequence of requests to a server whose tables are `s`. -/
def requests (cfg : Config) (remoteAddress : QuicClient → SocketAddr) (s : Restful) :
    Machine Restful Request Response := ⟨s, Restful.serve cfg remoteAddress⟩

end Tuic.Server
