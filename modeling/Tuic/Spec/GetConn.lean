import Mathlib.Data.Nat.Notation
import Tuic.Lib.Machine

/-! The connection that all local clients share: `Connection::get_conn` and
`Endpoint::connect` of `tuic-client`. Calls run at the same time. A step of the
machine is one access of a call to `CONNECTION`, an answer that its `connect` waits
for, its timeout, or the end of a connection. -/

namespace Tuic.Client

open Lib

/-- Why a call fails; `E` has the errors of the resolver and of the attempts. -/
inductive GetConnError (E : Type)
  | timeout
  | dnsResolve
  | other (e : E)
  deriving DecidableEq, Repr

/-- Where `Endpoint::connect` waits. -/
inductive Connecting (E : Type)
  | resolving
  /-- It has `left` more addresses to try after this one. -/
  | attempting (lastErr : Option E) (left : ℕ)
  deriving DecidableEq, Repr

section

variable {E : Type}

/-- The head of the loop of `connect`, with this many addresses to go. -/
def Connecting.next (lastErr : Option E) : ℕ → Except (GetConnError E) (Connecting E)
  | 0 => .error ((lastErr.map .other).getD .dnsResolve)
  | left + 1 => .ok (.attempting lastErr left)

end

/-- Where a call of `get_conn` is. -/
inductive GetConn (E : Type)
  /-- It is about to look whether the cell is initialized. -/
  | called
  /-- It waits for the permit of the cell. -/
  | acquiring
  /-- It has the permit and runs `try_init_conn`. -/
  | initializing (connecting : Connecting E)
  /-- It waits in `write`. -/
  | locking
  /-- It has the lock and is about to call `is_closed`. -/
  | checking
  | reconnecting (connecting : Connecting E)
  /-- It has the lock and is about to clone the connection. -/
  | cloning
  | returned (conn : ℕ)
  | failed (e : GetConnError E)
  deriving DecidableEq, Repr

namespace GetConn

variable {E : Type}

/-- It runs `Endpoint::connect`. -/
def connecting : GetConn E → Option (Connecting E)
  | initializing c | reconnecting c => some c
  | _ => none

/-- It holds the permit of the cell. -/
def HasPermit : GetConn E → Prop
  | initializing _ => True
  | _ => False

/-- It holds the lock on the connection. -/
def HasLock : GetConn E → Prop
  | checking | reconnecting _ | cloning => True
  | _ => False

/-- It waits where its timeout can end it. -/
def Waits : GetConn E → Prop
  | acquiring | initializing _ | locking | reconnecting _ => True
  | _ => False

instance : DecidablePred (Waits (E := E)) := fun call => by
  cases call <;> simp only [Waits] <;> infer_instance

/-- It has returned or failed. -/
def Done : GetConn E → Prop
  | returned _ | failed _ => True
  | _ => False

end GetConn

/-- `CONNECTION` with its permit and its lock, all connections ever made, and the
calls. Connections and calls go by their numbers. -/
structure SharedConn (E : Type) where
  slot : Option ℕ
  permit : Option ℕ
  writer : Option ℕ
  /-- Whether the connection is open. -/
  conns : List Bool
  calls : List (GetConn E)
  deriving DecidableEq, Repr

inductive SharedStep (E : Type)
  | call
  /-- A call goes on, unless it waits. -/
  | goOn (x : ℕ)
  /-- The resolver answers with so many addresses. -/
  | resolved (x : ℕ) (res : Except E ℕ)
  /-- The attempt at an address ends. -/
  | attempted (x : ℕ) (res : Except E Unit)
  | timeout (x : ℕ)
  /-- A connection ends. -/
  | close (c : ℕ)

namespace SharedConn

variable {E : Type}

def new : SharedConn E := ⟨none, none, none, [], []⟩

def IsOpen (s : SharedConn E) (c : ℕ) : Prop := s.conns[c]? = some true

instance (s : SharedConn E) (c : ℕ) : Decidable (s.IsOpen c) :=
  inferInstanceAs (Decidable (s.conns[c]? = some true))

/-- Call number `x` goes on here. -/
def goTo (s : SharedConn E) (x : ℕ) (call : GetConn E) : SharedConn E :=
  { s with calls := s.calls.modify x fun _ => call }

/-- A permit or a lock after call number `x` gave it back. -/
def release (holder : Option ℕ) (x : ℕ) : Option ℕ := if holder = some x then none else holder

/-- The call ends here and drops what it holds. -/
def fail (s : SharedConn E) (x : ℕ) (e : GetConnError E) : SharedConn E :=
  { s with permit := release s.permit x, writer := release s.writer x }.goTo x (.failed e)

/-- `connect` of call number `x` goes on, or its call fails. -/
def connect (s : SharedConn E) (x : ℕ) (next : Except (GetConnError E) (Connecting E)) : SharedConn E :=
  match next, s.calls[x]? with
  | .error e, _ => s.fail x e
  | .ok c, some (.initializing _) => s.goTo x (.initializing c)
  | .ok c, some (.reconnecting _) => s.goTo x (.reconnecting c)
  | .ok _, _ => s

/-- `connect` of call number `x` has a new connection, which is stored at once. -/
def store (s : SharedConn E) (x : ℕ) : SharedConn E :=
  match s.calls[x]? with
  | some (.initializing _) =>
    { s with slot := some s.conns.length, permit := none, conns := s.conns ++ [true] }.goTo x .locking
  | some (.reconnecting _) =>
    { s with slot := some s.conns.length, conns := s.conns ++ [true] }.goTo x .cloning
  | _ => s

def goOn (s : SharedConn E) (x : ℕ) : SharedConn E :=
  match s.calls[x]? with
  | some .called => s.goTo x (if s.slot.isSome then .locking else .acquiring)
  | some .acquiring =>
    -- setting the cell closes its semaphore, and whoever waits finds it set
    if s.slot.isSome then s.goTo x .locking
    else if s.permit.isNone then { s with permit := some x }.goTo x (.initializing .resolving)
    else s
  | some .locking => if s.writer.isNone then { s with writer := some x }.goTo x .checking else s
  | some .checking =>
    match s.slot with
    | some c => s.goTo x (if s.IsOpen c then .cloning else .reconnecting .resolving)
    | none => s
  | some .cloning =>
    match s.slot with
    | some c => { s with writer := none }.goTo x (.returned c)
    | none => s
  | _ => s

def resolved (s : SharedConn E) (x : ℕ) (res : Except E ℕ) : SharedConn E :=
  match s.calls[x]?.bind GetConn.connecting with
  | some .resolving =>
    match res with
    | .ok addrs => s.connect x (Connecting.next none addrs)
    | .error e => s.connect x (.error (.other e))
  | _ => s

def attempted (s : SharedConn E) (x : ℕ) (res : Except E Unit) : SharedConn E :=
  match s.calls[x]?.bind GetConn.connecting with
  | some (.attempting _ left) =>
    match res with
    | .ok () => s.store x
    | .error e => s.connect x (Connecting.next (some e) left)
  | _ => s

def timeout (s : SharedConn E) (x : ℕ) : SharedConn E :=
  match s.calls[x]? with
  | some call => if call.Waits then s.fail x .timeout else s
  | none => s

def step (s : SharedConn E) : SharedStep E → SharedConn E
  | .call => { s with calls := s.calls ++ [.called] }
  | .goOn x => s.goOn x
  | .resolved x res => s.resolved x res
  | .attempted x res => s.attempted x res
  | .timeout x => s.timeout x
  | .close c => { s with conns := s.conns.modify c fun _ => false }

end SharedConn

/-- A client from its start on. -/
def sharedConn (E : Type) : Machine (SharedConn E) (SharedStep E) Unit where
  init := .new
  step s a := (s.step a, ())

end Tuic.Client
