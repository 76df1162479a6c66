import Tuic.Lib.History
import Tuic.Lib.Keys
import Tuic.Spec.Model

/-! The calls of a client on its connection. It receives packets of known
associations only, and assembles a packet in a call of its own: `Packet::accept`
waits for the payload in between. -/

namespace Tuic.Model

open Lib

variable {B : Type}

/-- The calls a client makes. -/
def Call.FromClient : Call B → Prop
  | .recvPacketUnrestricted _ | .recvDissociate _ => False
  | _ => True

/-- A run of a client: every packet that it assembles was received before. -/
structure ClientCalls [AsRef B] (b : Build) (calls : List (Call B)) : Prop where
  fromClient : ∀ call ∈ calls, call.FromClient
  received : ∀ j now pkt data, calls[j]? = some (.assemble now pkt data) →
    ∃ i < j, (connection b).outAt calls i = some (.received (some pkt))

/-- Call `i` sends a packet on the association. -/
def SendsAt (calls : List (Call B)) (assocId : UInt16) (i : ℕ) : Prop :=
  ∃ addr max, calls[i]? = some (.sendPacket assocId addr max)

/-- Call `i` dissociates the association. -/
def DissociatesAt (calls : List (Call B)) (assocId : UInt16) (i : ℕ) : Prop :=
  calls[i]? = some (.sendDissociate assocId)

/-- A packet was sent on the association after it was last dissociated. -/
def Open (calls : List (Call B)) (assocId : UInt16) (n : ℕ) : Prop :=
  Since (SendsAt calls assocId) (DissociatesAt calls assocId) n

/-- Before every call and at the end, only open associations have a session, no
packet of another one is received, and the task count is theirs. -/
def StaysDissociated [AsRef B] (b : Build) (calls : List (Call B)) : Prop :=
  ∀ n ≤ calls.length, let s := (connection b).stateAt calls n
    (∀ assocId, s.sessions.get assocId ≠ none → Open calls assocId n) ∧
    (∀ header : Packet, ¬ Open calls header.assocId n → s.recvPacket header = none) ∧
    s.taskAssociateCount = {assocId | Open calls assocId n}.ncard

end Tuic.Model
