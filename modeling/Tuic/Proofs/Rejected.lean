import Tuic.Sanity.Buffers

/-! What a refused fragment leaves behind. The buffer of a key is made before its
first fragment is checked, and the error is returned past the clean-up, so that a
refused first fragment decides on the size of the buffer. -/

namespace Tuic.Model

open Lib

variable {B : Type} [AsRef B] {b : Build}

/-- If the fragment is answered with an error, every buffer is as it was, and no
later call is answered differently. -/
def NoEffect (b : Build) (s : UdpSessions B) (now : Instant) (pkt : PacketRx) (data : B) : Prop :=
  ∀ e, (s.assemble b now pkt data).2 = .err e →
    (s.assemble b now pkt data).1.buffers = s.buffers ∧
      ∀ calls, (connection b).outputs (s.assemble b now pkt data).1 calls =
        (connection b).outputs s calls

/-- A session whose buffer refuses the fragment stays as it is. -/
theorem session_insert_refused {session : UdpSession B} {pkt : PacketRx} {p : PacketBuffer B}
    (hp : session.pktBuf.get pkt.pktId = some p) (now : Instant) (data : B)
    (hadm : ¬ p.Admits pkt data) :
    (session.insert b now pkt.assocId pkt.pktId pkt.fragTotal pkt.fragId pkt.size pkt.addr data).1 =
      session := by
  obtain ⟨hbuf, href⟩ := insert_refused (b := b) hadm
  obtain ⟨res, hres⟩ : ∃ res,
      p.insert b pkt.assocId pkt.fragTotal pkt.fragId pkt.size pkt.addr data = (p, res) :=
    ⟨_, Prod.ext hbuf rfl⟩
  unfold PacketBuffer.insertPkt at href
  rw [hres] at href
  unfold UdpSession.insert
  simp only [hp, Option.getD_some, hres]
  rcases res with o | e | e
  · exact absurd rfl (href.not_ok o)
  · simp only [Table.insert_get hp]
  · simp only [Table.insert_get hp]

/-- A refused fragment whose buffer is there already leaves the whole table as it is. -/
theorem assemble_eq_self {s : UdpSessions B} {pkt : PacketRx} {p : PacketBuffer B}
    (hp : s.buffers.get pkt.key = some p) (now : Instant) (data : B) (hadm : ¬ p.Admits pkt data) :
    (s.assemble b now pkt data).1 = s := by
  obtain ⟨session, hsession, hbuf⟩ := Option.bind_eq_some_iff.1 hp
  have hentry : s.entry pkt.assocId = (s, session) := by
    unfold UdpSessions.entry
    rw [show s.sessions.get pkt.assocId = some session from hsession]
  have hsame := session_insert_refused (b := b) hbuf now data hadm
  have hput : s.put pkt.assocId session = s := by
    simp only [UdpSessions.put, Table.insert_get (show s.sessions.get pkt.assocId = some session from hsession)]
  unfold UdpSessions.assemble
  simp only [hentry, hsame, hput]

/-- Errors come from the checks on the header and from a slot that is filled. -/
theorem assemble_err {s : UdpSessions B} (hwf : s.buffers.WF) {now : Instant} {pkt : PacketRx} {data : B} {e : AssembleError}
    (h : (s.assemble b now pkt data).2 = .err e) :
    ¬ (s.buffers.current now pkt).Admits pkt data ∧ (asRef data).length = pkt.size.toNat ∧
      (pkt.WellPlaced → s.buffers.get pkt.key ≠ none) := by
  have hadm : ¬ (s.buffers.current now pkt).Admits pkt data := by
    intro hadm
    obtain ⟨o, ho⟩ := (assemble_ok_iff (b := b) hwf).2 hadm
    rw [(assemble_buffers b now s pkt data).2, ho] at h
    cases h
  refine ⟨hadm, ?_⟩
  have href := (insert_refused (b := b) hadm).2
  rw [assemble_res] at h
  rw [h] at href
  cases href with
  | misplaced hsize hplaced => exact ⟨hsize, fun hp => absurd hp hplaced⟩
  | duplicate hsize hplaced x hslot =>
    refine ⟨hsize, fun _ hnone => ?_⟩
    -- a new buffer has no filled slot
    rw [Buffers.current, hnone] at hslot
    simp [PacketBuffer.new, List.getElem?_replicate] at hslot

/-- A fragment of the announced size that its header puts in the wrong place is
answered with an error. -/
theorem assemble_misplaced {s : UdpSessions B} (now : Instant) {pkt : PacketRx} {data : B}
    (hsize : (asRef data).length = pkt.size.toNat) (hplaced : ¬ pkt.WellPlaced) :
    ∃ e, (s.assemble b now pkt data).2 = .err e := by
  have hadm : ¬ (s.buffers.current now pkt).Admits pkt data := fun h => hplaced ⟨h.id, h.addr⟩
  have href := (insert_refused (b := b) hadm).2
  rw [assemble_res]
  generalize ((s.buffers.current now pkt).insertPkt b pkt data).2 = res at href
  cases href with
  | wrongSize h => exact absurd hsize h
  | misplaced _ _ e => exact ⟨e, rfl⟩
  | noSlot _ h => exact absurd h hplaced
  | duplicate _ h => exact absurd h hplaced

/-- In every reachable state, a fragment has no effect when it is refused if and
only if its key has a buffer already, or its own header does not put it in the
wrong place. -/
theorem noEffect_iff {s : UdpSessions B} (hs : (connection b).Reachable s) (now : Instant)
    (pkt : PacketRx) (data : B) :
    NoEffect b s now pkt data ↔
      ((asRef data).length = pkt.size.toNat → ¬ pkt.WellPlaced → s.buffers.get pkt.key ≠ none) := by
  constructor
  · intro h hsize hplaced hnone
    obtain ⟨e, he⟩ := assemble_misplaced (b := b) (s := s) now hsize hplaced
    obtain ⟨hbuf, -⟩ := h e he
    have hadm : ¬ (s.buffers.current now pkt).Admits pkt data := fun h => hplaced ⟨h.id, h.addr⟩
    rw [(assemble_buffers b now s pkt data).1, (assemble_refused hadm).1] at hbuf
    -- the new buffer stays
    have hget := Table.get_insert_self s.buffers pkt.key (s.buffers.current now pkt)
    rw [hbuf, hnone] at hget
    cases hget
  · intro hcond e he
    obtain ⟨hadm, hsize, hstored⟩ := assemble_err (reachable_wf hs) he
    have hne : s.buffers.get pkt.key ≠ none := by
      by_cases hplaced : pkt.WellPlaced
      · exact hstored hplaced
      · exact hcond hsize hplaced
    obtain ⟨p, hp⟩ := Option.ne_none_iff_exists'.1 hne
    have hsame : (s.assemble b now pkt data).1 = s := by
      apply assemble_eq_self hp
      rwa [Buffers.current, hp, Option.getD_some] at hadm
    rw [hsame]
    exact ⟨rfl, fun _ => rfl⟩

/-- A misplaced fragment and a second copy of the first, for a packet half received. -/
theorem noEffect_half :
    ((halfReceived .release64).assemble .release64 1 ⟨1, 0, 1, 5, 0, .none⟩ []).2 =
        .err (.invalidFragmentId 1 5) ∧
      NoEffect .release64 (halfReceived .release64) 1 ⟨1, 0, 1, 5, 0, .none⟩ [] ∧
      ((halfReceived .release64).assemble .release64 1
        ⟨1, 0, 3, 0, 1, .socketAddress (.v4 ⟨127, 0, 0, 1⟩ 80)⟩ [8]).2 = .err (.duplicatedFragment 0) ∧
      NoEffect .release64 (halfReceived .release64) 1
        ⟨1, 0, 3, 0, 1, .socketAddress (.v4 ⟨127, 0, 0, 1⟩ 80)⟩ [8] :=
  ⟨rfl, (noEffect_iff (halfReceived_reachable _) 1 ⟨1, 0, 1, 5, 0, .none⟩ []).2
      fun _ _ => Option.some_ne_none _,
    rfl, (noEffect_iff (halfReceived_reachable _) 1
      ⟨1, 0, 3, 0, 1, .socketAddress (.v4 ⟨127, 0, 0, 1⟩ 80)⟩ [8]).2 fun _ _ => Option.some_ne_none _⟩

/-- A refused fragment of total 1 leaves a buffer with one slot. The first of two
fragments, which would have waited for the second, is then delivered alone. -/
theorem noEffect_not :
    let addr : Address := .socketAddress (.v4 ⟨127, 0, 0, 1⟩ 53)
    let s := ((UdpSessions.new : UdpSessions (List UInt8)).recvPacketUnrestricted ⟨1, 0, 1, 5, 0, .none⟩).1
    let s' := (s.assemble .release64 0 ⟨1, 0, 1, 5, 0, .none⟩ []).1
    (connection .release64).Reachable s ∧ s.sessions.get 1 ≠ none ∧
      (s.assemble .release64 0 ⟨1, 0, 1, 5, 0, .none⟩ []).2 = .err (.invalidFragmentId 1 5) ∧
      (s.assemble .release64 0 ⟨1, 0, 2, 0, 1, addr⟩ [7]).2 = .ok none ∧
      (s'.assemble .release64 0 ⟨1, 0, 2, 0, 1, addr⟩ [7]).2 = .ok (some ⟨[some [7]], addr, 1⟩) ∧
      ¬ NoEffect .release64 s 0 ⟨1, 0, 1, 5, 0, .none⟩ [] := by
  refine ⟨⟨[.recvPacketUnrestricted ⟨1, 0, 1, 5, 0, .none⟩], rfl⟩, ?_, rfl, rfl, rfl, fun h => ?_⟩
  · intro h
    cases h
  · have hbuf := congrArg (fun t : Buffers (List UInt8) => (t.get (1, 0)).isSome) (h _ rfl).1
    cases hbuf

end Tuic.Model
