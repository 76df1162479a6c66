import Mathlib.Data.Multiset.OrderedMonoid
import Tuic.Lib.Pool
import Tuic.Proofs.AsyncUnmarshal
import Tuic.Proofs.RoundTrip
import Tuic.Sanity.Fragments
import Tuic.Spec.Channel
import Tuic.Spec.Link

/-! What the bytes on their way carry: the messages of `Tuic.Model.Wire`, read off
datagrams, off what a call has still to write, off streams and the suspended
readers on them. -/

namespace Tuic.Model

open Lib

/-! ### Addresses as they are written -/

@[simp] theorem headerLen_onWire (addr : Address) : headerLen addr.onWire = headerLen addr := by
  rw [PacketTx.headerLen_eq, PacketTx.headerLen_eq, ← Address.write_length, ← Address.write_length,
    Address.onWire_write]

/-- A packet with its address as far as it is written. -/
def PacketTx.onWire (tx : PacketTx) : PacketTx := { tx with addr := tx.addr.onWire }

def Fragment.onWire (frag : Fragment) : Fragment :=
  ({ frag.1 with addr := frag.1.addr.onWire }, frag.2)

def Fragments.onWire (frags : Fragments) : Fragments := { frags with addr := frags.addr.onWire }

variable {b : Build}

theorem Fragments.next_onWire (frags : Fragments) :
    frags.onWire.next b = frags.next b >>= fun o =>
      .ok (o.map fun y => (Fragment.onWire y.1, y.2.onWire)) := by
  unfold Fragments.next
  simp only [Fragments.onWire, headerLen_onWire]
  by_cases hid : frags.nextFragId < frags.fragTotal
  · simp only [hid, if_true]
    cases b.subUsize frags.maxPktSize (headerLen frags.addr) with
    | err e => cases e
    | panic p => rfl
    | ok payloadSize =>
      simp only [Outcome.ok_bind]
      cases b.addUsize frags.nextFragStart payloadSize with
      | err e => cases e
      | panic p => rfl
      | ok sum =>
        simp only [Outcome.ok_bind]
        cases b.subUsize (min sum frags.payload.length) frags.nextFragStart with
        | err e => cases e
        | panic p => rfl
        | ok size =>
          simp only [Outcome.ok_bind]
          by_cases hlt : frags.nextFragStart < frags.payload.length
          · simp only [hlt, if_true]
            cases fromRawParts frags.payload frags.nextFragStart size with
            | err e => cases e
            | panic p => rfl
            | ok payload =>
              simp only [Outcome.ok_bind]
              cases b.addU8 frags.nextFragId 1 with
              | err e => cases e
              | panic p => rfl
              | ok id => rfl
          · simp only [hlt, if_false]
            rfl
  · simp only [hid, if_false]
    rfl

theorem Fragments.take_onWire : ∀ (fuel : ℕ) (frags : Fragments),
    (frags.onWire.take b fuel).1 = (frags.take b fuel).1.map Fragment.onWire := by
  intro fuel
  induction fuel with
  | zero => exact fun _ => rfl
  | succ fuel ih =>
    intro frags
    simp only [Fragments.take, Fragments.next_onWire]
    cases frags.next b with
    | err e => cases e
    | panic p => rfl
    | ok o =>
      cases o with
      | none => rfl
      | some y =>
        simp only [Outcome.ok_bind, Option.map_some, List.map_cons]
        rw [ih]

theorem PacketTx.fragments_onWire (tx : PacketTx) (payload : List UInt8) :
    (tx.onWire.fragments b payload).1 = (tx.fragments b payload).1.map Fragment.onWire := by
  have hcount : tx.onWire.fragCount b payload.length = tx.fragCount b payload.length := by
    simp only [PacketTx.fragCount, PacketTx.onWire, headerLen_onWire]
  have hnew : tx.onWire.intoFragments b payload =
      tx.intoFragments b payload >>= fun frags => .ok frags.onWire := by
    simp only [PacketTx.intoFragments, Fragments.new, hcount]
    cases tx.fragCount b payload.length with
    | err e => cases e
    | panic p => rfl
    | ok n => rfl
  unfold PacketTx.fragments
  rw [hnew]
  cases tx.intoFragments b payload with
  | err e => cases e
  | panic p => rfl
  | ok frags => exact Fragments.take_onWire _ frags

end Tuic.Model

namespace Tuic.Quinn

open Lib Lib.Reader Model

/-! ### Messages in bytes -/

/-- What a header carries with the bytes behind it. -/
def carried : Header → List UInt8 → Multiset Wire
  | .packet pkt, rest =>
    if pkt.size.toNat ≤ rest.length then {.fragment (pkt, rest.take pkt.size.toNat)} else 0
  | .dissociate dissoc, _ => {.dissociate dissoc}
  | _, _ => 0

def readWires : Outcome UnmarshalError (Header × List UInt8) → Multiset Wire
  | .ok (header, rest) => carried header rest
  | _ => 0

/-- What a byte string carries. -/
def wires (bytes : List UInt8) : Multiset Wire := readWires (Header.unmarshal bytes)

/-- What a stream carries for the task that reads it, if all of it arrives. -/
def UniStream.wires (self : UniStream) : Multiset Wire :=
  match self.reader with
  | .header p => readWires (p.toReader (self.unread ++ self.unwritten))
  | .payload pkt p =>
    match p.toReader (self.unread ++ self.unwritten) with
    | .ok (data, _) => {.fragment (pkt, data)}
    | _ => 0
  | .done => 0

def Packet.wires (self : Packet) : Multiset Wire :=
  match self.src.read self.model.size.toNat with
  | some payload => {.fragment (self.model, payload)}
  | none => 0

def StreamSender.wires (self : StreamSender) : Multiset Wire := (self.todo.map Quinn.wires).sum

/-- All messages on their way. -/
def Pipe.flight (self : Pipe) : Multiset Wire :=
  (self.senders.map StreamSender.wires).sum + (self.streams.map UniStream.wires).sum +
    (self.datagrams.map wires).sum + (self.packets.map Packet.wires).sum

/-- A direction of the link from outside. Addresses are as they were written. -/
def Pipe.channel (model : UdpSessions (List UInt8)) (self : Pipe) : Channel where
  buffers := model.buffers
  flight := self.flight
  sends := self.sends.map fun x => (x.1.onWire, x.2)
  delivered := self.delivered

def Link.channel (self : Link) (side : Side) : Channel := (self.pipe side).channel (self.model side)

section

variable {b : Build}

theorem wires_of_write {header : Header} (he : header.Encodable) (rest : List UInt8) :
    wires (header.write ++ rest) = carried header rest := by
  rw [wires, header_accepts header he rest]
  rfl

@[simp] theorem wires_dissociate (dissoc : Dissociate) :
    wires (Header.dissociate dissoc).write = {.dissociate dissoc} := by
  have := wires_of_write (show (Header.dissociate dissoc).Encodable from trivial) []
  rwa [List.append_nil] at this

@[simp] theorem wires_authenticate (auth : Tuic.Authenticate) :
    wires (Header.authenticate auth).write = 0 := by
  have := wires_of_write (show (Header.authenticate auth).Encodable from trivial) []
  rwa [List.append_nil] at this

@[simp] theorem wires_heartbeat (heartbeat : Heartbeat) :
    wires (Header.heartbeat heartbeat).write = 0 := by
  have := wires_of_write (show (Header.heartbeat heartbeat).Encodable from trivial) []
  rwa [List.append_nil] at this

theorem piece_length_lt {tx : PacketTx} {payload : List UInt8} (h : payload.length < 2 ^ 16) (i : ℕ) :
    (tx.piece b payload i).length < 2 ^ 16 := by
  rw [PacketTx.piece_length]
  have := tx.cut_le (b := b) payload.length (i + 1)
  omega

/-- The bytes of a fragment carry the fragment, with its address as it is written. -/
theorem wires_datagram {tx : PacketTx} {payload : List UInt8} {frag : Fragment}
    (hmem : PacketTx.InMemory b tx payload) (haddr : tx.addr.onWire.Encodable)
    (hlen : payload.length < 2 ^ 16) (h : frag ∈ (tx.fragments b payload).1) :
    wires (datagram frag) = {.fragment (Fragment.onWire frag)} := by
  rcases PacketTx.fragments_eq hmem with ⟨hnil, -⟩ | ⟨n, k, -, -, hfrags, -⟩
  · rw [hnil] at h
    cases h
  · rw [hfrags] at h
    obtain ⟨i, -, rfl⟩ := List.mem_map.1 h
    have hsize : (tx.frag b payload (UInt8.ofNat n) i).1.size.toNat =
        (tx.frag b payload (UInt8.ofNat n) i).2.length := by
      rw [PacketTx.frag, UInt16.toNat_ofNat']
      exact Nat.mod_eq_of_lt (piece_length_lt hlen i)
    have he : (Header.packet (tx.frag b payload (UInt8.ofNat n) i).1).onWire.Encodable := by
      change (Address.onWire (if i = 0 then tx.addr else .none)).Encodable
      split_ifs
      · exact haddr
      · exact trivial
    rw [datagram, ← Header.onWire_write, wires_of_write he]
    simp only [Header.onWire, carried]
    rw [hsize, if_pos (Nat.le_refl _), List.take_length]
    rfl

theorem sum_wires_datagrams {tx : PacketTx} {payload : List UInt8}
    (hmem : PacketTx.InMemory b tx payload) (haddr : tx.addr.onWire.Encodable)
    (hlen : payload.length < 2 ^ 16) (frags : List Fragment)
    (h : ∀ frag ∈ frags, frag ∈ (tx.fragments b payload).1) :
    ((frags.map datagram).map wires).sum =
      ↑((frags.map Fragment.onWire).map Wire.fragment) := by
  induction frags with
  | nil => rfl
  | cons frag frags ih =>
    rw [List.map_cons, List.map_cons, List.sum_cons, ih fun x hx => h x (List.mem_cons_of_mem _ hx),
      wires_datagram hmem haddr hlen (h frag List.mem_cons_self)]
    rfl

/-! ### Streams -/

@[simp] theorem UniStream.opened_wires (bytes : List UInt8) : (opened bytes).wires = Quinn.wires bytes := by
  simp only [opened, UniStream.wires, List.nil_append, asyncUnmarshal_denotes]
  rfl

@[simp] theorem UniStream.write_wires (s : UniStream) (num : ℕ) : (s.write num).wires = s.wires := by
  have hbytes : (s.write num).unread ++ (s.write num).unwritten = s.unread ++ s.unwritten := by
    rw [write, List.append_assoc, List.take_append_drop]
  unfold UniStream.wires
  rw [hbytes]
  rfl

theorem carried_append (header : Header) (rest more : List UInt8) :
    carried header rest ≤ carried header (rest ++ more) := by
  cases header with
  | packet pkt =>
    simp only [carried, List.length_append]
    split_ifs with h h'
    · rw [List.take_append_of_le_length h]
    · omega
    · exact Multiset.zero_le _
    · exact le_rfl
  | authenticate _ => exact le_rfl
  | connect _ => exact le_rfl
  | dissociate _ => exact le_rfl
  | heartbeat _ => exact le_rfl

/-- A stream that is cut carries what it carried, or nothing. -/
theorem UniStream.cut_wires_le (s : UniStream) : s.cut.wires ≤ s.wires := by
  obtain ⟨unwritten, unread, reader⟩ := s
  cases reader with
  | header p =>
    simp only [cut, UniStream.wires, List.append_nil]
    cases h : p.toReader unread with
    | ok x =>
      rw [p.toReader_append unwritten h]
      exact carried_append x.1 x.2 unwritten
    | err e => exact Multiset.zero_le _
    | panic q => exact Multiset.zero_le _
  | payload pkt p =>
    simp only [cut, UniStream.wires, List.append_nil]
    cases h : p.toReader unread with
    | ok x => rw [p.toReader_append unwritten h]
    | err e => exact Multiset.zero_le _
    | panic q => exact Multiset.zero_le _
  | done => exact le_rfl

/-- Where a poll meets the next unread bytes, what it has read comes before all that
is still to come. -/
theorem bytes_of_meets {meets : ByteStream} {unread unwritten : List UInt8} (h : meets.bytes <+: unread) :
    unread ++ unwritten = meets.bytes ++ (unread.drop meets.bytes.length ++ unwritten) := by
  obtain ⟨more, rfl⟩ := h
  rw [List.drop_left, List.append_assoc]

end

end Tuic.Quinn
