import Tuic.Spec.Model

/-! The sending half of `tuic/src/model/packet.rs`: `Packet::<side::Tx>::into_fragments`
and the iterator it returns. -/

namespace Tuic.Model

open Lib

/-- `Header::Packet(PacketHeader::new(0, 0, 0, 0, 0, addr)).len()` -/
def headerLen (addr : Address) : ℕ := (Header.packet ⟨0, 0, 0, 0, 0, addr⟩).len

/-- What the iterator yields: the header of a `Packet` and the bytes behind it. -/
abbrev Fragment := Packet × List UInt8

/-- The iterator over the fragments of a packet. -/
structure Fragments where
  assocId : UInt16
  pktId : UInt16
  addr : Address
  maxPktSize : ℕ
  fragTotal : UInt8
  nextFragId : UInt8
  nextFragStart : ℕ
  payload : List UInt8
  deriving DecidableEq

/-- `slice::from_raw_parts`, which must stay inside its object. -/
def fromRawParts (bytes : List UInt8) (start len : ℕ) : Outcome Empty (List UInt8) :=
  if start + len ≤ bytes.length then .ok ((bytes.drop start).take len) else .panic .undefined

/-- The number of fragments of a payload of `len` bytes, before the cast to `u8`. -/
def PacketTx.fragCount (b : Build) (self : PacketTx) (len : ℕ) : Outcome Empty ℕ := do
  let firstFragSize ← b.subUsize self.maxPktSize (headerLen self.addr)
  let fragSizeAddrNone ← b.subUsize self.maxPktSize (headerLen .none)
  if firstFragSize < len then do
    let rest ← b.subUsize len firstFragSize
    let full ← Build.divUsize rest fragSizeAddrNone
    let total ← b.addUsize 1 full
    b.addUsize total 1
  else pure 1

namespace Fragments

def new (b : Build) (tx : PacketTx) (payload : List UInt8) : Outcome Empty Fragments := do
  let fragTotal ← tx.fragCount b payload.length
  pure {
    assocId := tx.assocId
    pktId := tx.pktId
    addr := tx.addr
    maxPktSize := tx.maxPktSize
    fragTotal := UInt8.ofNat fragTotal
    nextFragId := 0
    nextFragStart := 0
    payload }

def next (b : Build) (self : Fragments) : Outcome Empty (Option (Fragment × Fragments)) :=
  if self.nextFragId < self.fragTotal then do
    let payloadSize ← b.subUsize self.maxPktSize (headerLen self.addr)
    let sum ← b.addUsize self.nextFragStart payloadSize
    let nextFragEnd := min sum self.payload.length
    let size ← b.subUsize nextFragEnd self.nextFragStart
    let header : Packet := ⟨self.assocId, self.pktId, self.fragTotal, self.nextFragId,
      UInt16.ofNat size, self.addr⟩
    -- indexing at the start of the fragment panics at the end of the payload
    if self.nextFragStart < self.payload.length then do
      let payload ← fromRawParts self.payload self.nextFragStart size
      let nextFragId ← b.addU8 self.nextFragId 1
      pure (some ((header, payload),
        { self with addr := .none, nextFragId, nextFragStart := nextFragEnd }))
    else .panic .outOfBounds
  else pure none

/-- Takes up to `fuel` fragments, and says how the iteration ended. -/
def take (b : Build) : ℕ → Fragments → List Fragment × Outcome Empty Unit
  | 0, _ => ([], .ok ())
  | fuel + 1, self =>
    match self.next b with
    | .ok (some (frag, self)) =>
      let (frags, res) := take b fuel self
      (frag :: frags, res)
    | .ok none => ([], .ok ())
    | .panic p => ([], .panic p)

/-- A `for` loop over the iterator: the fragments it yields, and whether it runs
to its end. -/
def drain (b : Build) (self : Fragments) : List Fragment × Outcome Empty Unit :=
  self.take b (self.fragTotal.toNat - self.nextFragId.toNat)

/-- `ExactSizeIterator::len` -/
def len (self : Fragments) : ℕ := self.fragTotal.toNat

/-- The iterator after `k` calls of `next` that have returned a fragment. -/
def after (b : Build) : ℕ → Fragments → Option Fragments
  | 0, self => some self
  | k + 1, self =>
    match self.next b with
    | .ok (some (_, self)) => after b k self
    | _ => none

/-- The next `k` calls of `next` return a fragment, and then it returns none. -/
def Remaining (b : Build) (self : Fragments) (k : ℕ) : Prop :=
  ∃ frags, self.after b k = some frags ∧ frags.next b = .ok none

end Fragments

def PacketTx.intoFragments (b : Build) (self : PacketTx) (payload : List UInt8) :
    Outcome Empty Fragments := Fragments.new b self payload

/-- All that `into_fragments` and the loop over it yield. -/
def PacketTx.fragments (b : Build) (self : PacketTx) (payload : List UInt8) :
    List Fragment × Outcome Empty Unit :=
  match self.intoFragments b payload with
  | .ok frags => frags.drain b
  | .panic p => ([], .panic p)

/-! ### A receiver of fragments -/

/-- The calls that receive one fragment after the other, each at its time. -/
def receive (order : List (Instant × Fragment)) : List (Call (List UInt8)) :=
  order.flatMap fun x => [.recvPacketUnrestricted x.2.1, .assemble x.1 x.2.1 x.2.2]

/-- The packet that an answer delivers. -/
def Answer.delivery : Answer (List UInt8) → Option (List UInt8 × Address × UInt16)
  | .assembled (.ok (some asm)) =>
    match asm.assemble with
    | .ok res => some res
    | .panic _ => none
  | _ => none

/-- Everything that calls on a new connection deliver. -/
def deliveries (b : Build) (calls : List (Call (List UInt8))) :
    List (List UInt8 × Address × UInt16) :=
  ((connection b).outputs .new calls).filterMap Answer.delivery

end Tuic.Model
