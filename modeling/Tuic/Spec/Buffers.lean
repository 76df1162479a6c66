import Tuic.Spec.Model

/-! The reassembly state without its nesting: one table of packet buffers, keyed
by association and packet id. The session table refines it: every call acts on
`UdpSessions.buffers` as the call of the same name below. -/

namespace Tuic.Model

open Lib

abbrev Key := UInt16 × UInt16

abbrev Buffers (B : Type) := Table Key (PacketBuffer B)

variable {B : Type}

def PacketRx.key (pkt : PacketRx) : Key := (pkt.assocId, pkt.pktId)

/-- The buffer that `assemble` works on: the stored one, or a new one. -/
def Buffers.current (t : Buffers B) (now : Instant) (pkt : PacketRx) : PacketBuffer B :=
  (t.get pkt.key).getD (.new now pkt.fragTotal)

def Buffers.assemble [AsRef B] (b : Build) (now : Instant) (t : Buffers B) (pkt : PacketRx)
    (data : B) : Buffers B × Inserted B :=
  let (buf, res) := (t.current now pkt).insert b pkt.assocId pkt.fragTotal pkt.fragId pkt.size pkt.addr data
  match res with
  | .ok (some asm) => (t.remove pkt.key, .ok (some asm))
  | res => (t.insert pkt.key buf, res)

def Buffers.dissociate (t : Buffers B) (assocId : UInt16) : Buffers B := fun key =>
  if key.1 = assocId then none else t.get key

def Buffers.collectGarbage (now : Instant) (timeout : Duration) (t : Buffers B) : Buffers B :=
  t.retain fun buf => decide (now - buf.cTime < timeout)

@[simp] theorem Buffers.get_dissociate (t : Buffers B) (assocId : UInt16) (key : Key) :
    (t.dissociate assocId).get key = if key.1 = assocId then none else t.get key := rfl

/-- What a call does to the buffers. -/
def Buffers.step [AsRef B] (b : Build) (t : Buffers B) : Call B → Buffers B
  | .assemble now pkt data => (t.assemble b now pkt data).1
  | .sendDissociate assocId => t.dissociate assocId
  | .recvDissociate header => t.dissociate header.assocId
  | .collectGarbage now timeout => t.collectGarbage now timeout
  | _ => t

/-- All packet buffers of a session table. -/
def UdpSessions.buffers (s : UdpSessions B) : Buffers B := fun key =>
  (s.sessions.get key.1).bind fun session => session.pktBuf.get key.2

theorem UdpSessions.get_buffers (s : UdpSessions B) (key : Key) :
    s.buffers.get key = (s.sessions.get key.1).bind fun session => session.pktBuf.get key.2 := rfl

@[simp] theorem buffers_new : (UdpSessions.new : UdpSessions B).buffers = .empty := rfl

theorem entry_get (s : UdpSessions B) (assocId : UInt16) :
    (s.entry assocId).1.sessions.get assocId = some (s.entry assocId).2 := by
  unfold UdpSessions.entry
  cases h : s.sessions.get assocId with
  | some session => exact h
  | none => simp

@[simp] theorem entry_buffers (s : UdpSessions B) (assocId : UInt16) :
    (s.entry assocId).1.buffers = s.buffers := by
  unfold UdpSessions.entry
  cases h : s.sessions.get assocId with
  | some session => rfl
  | none =>
    ext1 key
    by_cases hk : key.1 = assocId
    · simp [UdpSessions.get_buffers, hk, h, UdpSession.new]
    · simp [UdpSessions.get_buffers, Table.get_insert_ne _ _ hk]

theorem put_buffers (s : UdpSessions B) (assocId : UInt16) (session : UdpSession B) (key : Key) :
    (s.put assocId session).buffers.get key =
      if key.1 = assocId then session.pktBuf.get key.2 else s.buffers.get key := by
  by_cases hk : key.1 = assocId
  · simp [UdpSessions.get_buffers, UdpSessions.put, hk]
  · simp [UdpSessions.get_buffers, UdpSessions.put, hk, Table.get_insert_ne _ _ hk]

/-- The buffers of the session an entry yields are those of the table. -/
theorem entry_pktBuf (s : UdpSessions B) (assocId pktId : UInt16) :
    (s.entry assocId).2.pktBuf.get pktId = s.buffers.get (assocId, pktId) := by
  rw [← entry_buffers s assocId, UdpSessions.get_buffers, entry_get]
  rfl

theorem remove_buffers (s : UdpSessions B) (assocId : UInt16) :
    (s.remove assocId).buffers = s.buffers.dissociate assocId := by
  ext1 key
  unfold UdpSessions.remove
  cases h : s.sessions.get assocId with
  | some session =>
    by_cases hk : key.1 = assocId
    · simp [UdpSessions.get_buffers, hk]
    · simp [UdpSessions.get_buffers, hk, Table.get_remove_ne _ hk]
  | none =>
    by_cases hk : key.1 = assocId
    · simp [UdpSessions.get_buffers, hk, h]
    · simp [hk]

theorem collectGarbage_buffers (s : UdpSessions B) (now : Instant) (timeout : Duration) :
    (s.collectGarbage now timeout).buffers = s.buffers.collectGarbage now timeout := by
  ext1 key
  cases h : s.sessions.get key.1 with
  | some session =>
    simp [UdpSessions.get_buffers, UdpSessions.collectGarbage, Buffers.collectGarbage,
      UdpSession.collectGarbage, h]
  | none => simp [UdpSessions.get_buffers, UdpSessions.collectGarbage, Buffers.collectGarbage, h]

theorem sendPacket_buffers (s : UdpSessions B) (assocId : UInt16) (addr : Address) (max : ℕ) :
    (s.sendPacket assocId addr max).1.buffers = s.buffers := by
  ext1 key
  by_cases hk : key.1 = assocId
  · subst hk
    simp [UdpSessions.sendPacket, put_buffers, UdpSession.sendPacket, entry_pktBuf]
  · simp [UdpSessions.sendPacket, put_buffers, hk]

theorem assemble_buffers [AsRef B] (b : Build) (now : Instant) (s : UdpSessions B) (pkt : PacketRx)
    (data : B) :
    (s.assemble b now pkt data).1.buffers = (s.buffers.assemble b now pkt data).1 ∧
      (s.assemble b now pkt data).2 = (s.buffers.assemble b now pkt data).2 := by
  have hcur : ((s.entry pkt.assocId).2.pktBuf.get pkt.pktId).getD (.new now pkt.fragTotal) =
      s.buffers.current now pkt := by rw [entry_pktBuf]; rfl
  unfold UdpSessions.assemble UdpSession.insert Buffers.assemble
  simp only [hcur]
  generalize (s.buffers.current now pkt).insert b pkt.assocId pkt.fragTotal pkt.fragId pkt.size
    pkt.addr data = r
  -- only a completed packet takes its buffer out of the table
  obtain ⟨buf, res⟩ := r
  have hput : ∀ f : Table UInt16 (PacketBuffer B) → Table UInt16 (PacketBuffer B),
      ∀ g : Buffers B, (∀ key, g.get key = if key.1 = pkt.assocId then
        (f (s.entry pkt.assocId).2.pktBuf).get key.2 else s.buffers.get key) →
      ((s.entry pkt.assocId).1.put pkt.assocId
        { (s.entry pkt.assocId).2 with pktBuf := f (s.entry pkt.assocId).2.pktBuf }).buffers = g := by
    intro f g hg
    ext1 key
    rw [put_buffers, entry_buffers, hg]
  have hins : ∀ key, (s.buffers.insert pkt.key buf).get key = if key.1 = pkt.assocId then
      ((s.entry pkt.assocId).2.pktBuf.insert pkt.pktId buf).get key.2 else s.buffers.get key := by
    rintro ⟨assocId, pktId⟩
    rw [Table.get_insert, Table.get_insert, entry_pktBuf]
    by_cases hk : assocId = pkt.assocId
    · subst hk
      simp [PacketRx.key]
    · simp [PacketRx.key, hk]
  have hrem : ∀ key, (s.buffers.remove pkt.key).get key = if key.1 = pkt.assocId then
      ((s.entry pkt.assocId).2.pktBuf.remove pkt.pktId).get key.2 else s.buffers.get key := by
    rintro ⟨assocId, pktId⟩
    rw [Table.get_remove, Table.get_remove, entry_pktBuf]
    by_cases hk : assocId = pkt.assocId
    · subst hk
      simp [PacketRx.key]
    · simp [PacketRx.key, hk]
  rcases res with (_ | asm) | e | p
  · exact ⟨hput (·.insert pkt.pktId buf) _ hins, rfl⟩
  · exact ⟨hput (·.remove pkt.pktId) _ hrem, rfl⟩
  · exact ⟨hput (·.insert pkt.pktId buf) _ hins, rfl⟩
  · exact ⟨hput (·.insert pkt.pktId buf) _ hins, rfl⟩

/-- The session table refines the flat table of buffers. -/
theorem step_buffers [AsRef B] (b : Build) (s : UdpSessions B) (call : Call B) :
    (step b s call).1.buffers = s.buffers.step b call := by
  cases call with
  | sendPacket assocId addr max => exact sendPacket_buffers s assocId addr max
  | recvPacket header => rfl
  | recvPacketUnrestricted header => exact entry_buffers s header.assocId
  | assemble now pkt data => exact (assemble_buffers b now s pkt data).1
  | sendDissociate assocId => exact remove_buffers s assocId
  | recvDissociate header => exact remove_buffers s header.assocId
  | collectGarbage now timeout => exact collectGarbage_buffers s now timeout

end Tuic.Model
