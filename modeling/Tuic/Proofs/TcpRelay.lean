import Tuic.Proofs.Exchange
import Tuic.Sanity.Link
import Tuic.Spec.TcpRelay

/-! A relayed TCP connection from end to end. The header is read off the stream in pieces,
and what comes behind it is what the program has sent. -/

namespace Tuic.Server

section

variable {s s' : Exchange} {a : ExchangeStep}

theorem written_step (he : ExchangeEffect s a s') (k : End) :
    (s.dirs k).written <+: (s'.dirs k).written := by
  have hsame : (s'.dirs k).written = (s.dirs k).written → (s.dirs k).written <+: (s'.dirs k).written :=
    fun h => h ▸ List.prefix_refl _
  cases he with
  | arrived source bytes unfinished => exact hsame (put_same Direction.written (by rfl) k)
  | finished source => exact hsame (put_same Direction.written (by rfl) k)
  | took source num selecting => exact hsame (put_same Direction.written (by rfl) k)
  | wrote source num rest writing =>
    by_cases hk : k = source
    · subst hk
      simp
    · simp [hk]
  | ended => exact List.prefix_refl _
  | failed => exact List.prefix_refl _
  | idle => exact List.prefix_refl _

theorem finished_of_step (he : ExchangeEffect s a s') {k : End} (h : (s'.dirs k).finished = true) :
    (s.dirs k).finished = true ∨ a = .finish k := by
  cases he with
  | arrived source bytes unfinished => exact .inl ((put_same Direction.finished (by rfl) k).symm.trans h)
  | finished source =>
    by_cases hk : k = source
    · exact .inr (by rw [hk])
    · exact .inl (by simpa [hk] using h)
  | took source num selecting => exact .inl ((put_same Direction.finished (by rfl) k).symm.trans h)
  | wrote source num rest writing => exact .inl ((put_same Direction.finished (by rfl) k).symm.trans h)
  | ended => exact .inl h
  | failed => exact .inl h
  | idle => exact .inl h

end

end Tuic.Server

namespace Tuic

open Lib Quinn
open Server (End Exchange ExchangeStep exchangeTcp)

namespace Flow

variable (self : Flow) (num : ℕ)

@[simp] theorem take_append_drop : self.take num ++ (self.drop num).bytes = self.bytes := by
  unfold take drop
  split_ifs
  · rfl
  · exact List.take_append_drop num self.bytes

@[simp] theorem drop_finished : (self.drop num).finished = self.finished := by
  unfold drop
  split_ifs <;> rfl

theorem drop_of_nil (h : self.bytes = []) : self.take num = [] ∧ (self.drop num).bytes = [] := by
  rw [← List.append_eq_nil_iff, take_append_drop, h]

@[simp] theorem write_bytes (bytes : List UInt8) : (self.write bytes).bytes = self.bytes ++ bytes := rfl

@[simp] theorem write_finished (bytes : List UInt8) : (self.write bytes).finished = self.finished := rfl

@[simp] theorem finish_bytes : self.finish.bytes = self.bytes := rfl

@[simp] theorem abort_bytes : self.abort.bytes = self.bytes := rfl

@[simp] theorem abort_finished : self.abort.finished = self.finished := rfl

end Flow

/-! ### What a step does -/

/-- The client has not begun to copy. -/
def ClientConnect.Opening : ClientConnect → Prop
  | marshalling _ => True
  | replying => True
  | _ => False

namespace TcpRelay

/-- The steps of the client and the program. -/
inductive ClientEffect (s : TcpRelay) : TcpRelay → Prop
  | idle : ClientEffect s s
  | sent (bytes : List UInt8) (unfinished : s.appFinished = false) :
      ClientEffect s { s with fromApp := s.fromApp ++ bytes, appUnread := s.appUnread ++ bytes }
  | finished : ClientEffect s { s with appFinished := true }
  | wroteHeader (rest : List UInt8) (num : ℕ) (client : ClientConnect)
      (marshalling : s.client = .marshalling rest) (left : client.rest = rest.drop num)
      (opening : client.Opening) :
      ClientEffect s { s with up := s.up.write (rest.take num), client }
  | replied (replying : s.client = .replying) : ClientEffect s { s with client := .copying }
  | readApp (num : ℕ) (copying : s.client = .copying) :
      ClientEffect s { s with upBuf := s.upBuf ++ s.appUnread.take num, appUnread := s.appUnread.drop num }
  | wroteUp (num : ℕ) (copying : s.client = .copying) :
      ClientEffect s { s with up := s.up.write (s.upBuf.take num), upBuf := s.upBuf.drop num }
  | finishedUp (copying : s.client = .copying)
      (through : s.appFinished = true ∧ s.appUnread = [] ∧ s.upBuf = []) :
      ClientEffect s { s with up := s.up.finish }
  | readDown (num : ℕ) :
      ClientEffect s { s with downBuf := s.downBuf ++ s.down.take num, down := s.down.drop num }
  | wroteApp (num : ℕ) :
      ClientEffect s { s with toApp := s.toApp ++ s.downBuf.take num, downBuf := s.downBuf.drop num }
  | ended (up : Flow) (copying : s.client = .copying) (same : up = s.up ∨ up = s.up.abort) :
      ClientEffect s { s with client := .ended, up }
  | dropped (opening : s.client.Opening) :
      ClientEffect s { s with client := .ended, up := s.up.finish }

/-- Where `accept_bi_stream` comes to by a poll. -/
inductive AfterPoll : Async UnmarshalError Header → ServerConnect → Prop
  | pending (room : ℕ) (got : List UInt8) (next : List UInt8 → Async UnmarshalError Header) :
      AfterPoll (.reading room got next) (.accepting (.reading room got next))
  | connect (conn : Connect) : AfterPoll (.ready (.ok (.connect conn))) (.resolving conn.addr)
  | refused (res : Outcome UnmarshalError Header) (other : ∀ conn, res ≠ .ok (.connect conn)) :
      AfterPoll (.ready res) .ended

inductive ServerEffect (s : TcpRelay) : TcpRelay → Prop
  | idle : ServerEffect s s
  | ended : ServerEffect s { s with server := .ended }
  | polled (p p' : Async UnmarshalError Header) (meets left : ByteStream) (server : ServerConnect)
      (accepting : s.server = .accepting p) (met : meets.bytes <+: s.up.bytes)
      (poll : p.poll meets = (p', left)) (after : AfterPoll p' server) :
      ServerEffect s { s with
        up := { s.up with bytes := left.bytes ++ s.up.bytes.drop meets.bytes.length }, server }
  | resolved (addr : Address) (dns : Option (List SocketAddr)) (resolving : s.server = .resolving addr) :
      ServerEffect s { s with server := .connecting ((resolveDns dns addr).getD []), answer := dns }
  | tried (addr : SocketAddr) (addrs : List SocketAddr) (connecting : s.server = .connecting (addr :: addrs))
      (server : ServerConnect) (next : server = .exchanging ∨ server = .connecting addrs) :
      ServerEffect s { s with attempts := s.attempts ++ [addr], server }
  | dropped (addr : SocketAddr) (addrs : List SocketAddr) (connecting : s.server = .connecting (addr :: addrs)) :
      ServerEffect s { s with attempts := s.attempts ++ [addr], server := .ended, down := s.down.finish }
  | unreached (connecting : s.server = .connecting []) :
      ServerEffect s { s with server := .ended, down := s.down.finish }
  | delivered (num : ℕ) (exchanging : s.server = .exchanging) :
      ServerEffect s { s with relay := s.relay.step (.arrive .a (s.up.take num)), up := s.up.drop num }
  | exchanged (a : ExchangeStep) (more : List UInt8) (exchanging : s.server = .exchanging)
      (silent : ∀ bytes, a ≠ .arrive .a bytes) (atEnd : a = .finish .a → s.up.AtEnd)
      (writes : ((s.relay.step a).dirs .b).written = (s.relay.dirs .b).written ++ more) :
      ServerEffect s { s with relay := s.relay.step a, down := s.down.write more }
  | aborted (exchanging : s.server = .exchanging) :
      ServerEffect s { s with server := .ended, down := s.down.abort }
  | returned (exchanging : s.server = .exchanging) (phase : s.relay.phase = .returned false) :
      ServerEffect s { s with server := .ended, down := s.down.finish }

section

variable (s : TcpRelay)

theorem pollHeader_effect (meets : ByteStream) : ServerEffect s (s.pollHeader meets) := by
  unfold pollHeader
  split
  case h_1 p hserver =>
    split_ifs with hmeets
    · obtain ⟨met, -⟩ := hmeets
      generalize hpoll : p.poll meets = res
      obtain ⟨p', left⟩ := res
      dsimp only
      split
      · -- only a `connect` is answered with a task
        rename_i header
        cases header with
        | connect conn => exact .polled p _ meets left _ hserver met hpoll (.connect conn)
        | authenticate auth => exact .polled p _ meets left _ hserver met hpoll (.refused _ fun _ heq => by cases heq)
        | packet pkt => exact .polled p _ meets left _ hserver met hpoll (.refused _ fun _ heq => by cases heq)
        | dissociate dissoc => exact .polled p _ meets left _ hserver met hpoll (.refused _ fun _ heq => by cases heq)
        | heartbeat hb => exact .polled p _ meets left _ hserver met hpoll (.refused _ fun _ heq => by cases heq)
      · rename_i res hres
        exact .polled p _ meets left _ hserver met hpoll (.refused res fun conn heq => hres _ (by rw [heq]))
      · rename_i hok hready
        cases p' with
        | ready res => exact absurd rfl (hready res)
        | reading room got next =>
          exact .polled p _ meets left _ hserver met hpoll (.pending room got next)
    · exact .idle
  case h_2 => exact .idle

theorem exchange_effect (a : ExchangeStep) : ServerEffect s (s.exchange a) := by
  unfold exchange
  split
  case h_2 => exact .idle
  case h_1 hserver =>
    have hgrows (a : ExchangeStep) : ((s.relay.step a).dirs .b).written = (s.relay.dirs .b).written ++
        ((s.relay.step a).dirs .b).written.drop (s.relay.dirs .b).written.length := by
      obtain ⟨more, hmore⟩ := Server.written_step (Server.step_exchangeEffect s.relay a) .b
      rw [← hmore, List.drop_left]
    split
    · exact .idle
    · split_ifs with hend
      · have hsame : ((s.relay.step (.finish .a)).dirs .b).written = (s.relay.dirs .b).written ++ [] := by
          simp [Exchange.step]
        have heffect : ServerEffect s { s with relay := s.relay.step (.finish .a), down := s.down.write [] } :=
          .exchanged _ _ hserver (fun _ heq => by cases heq) (fun _ => hend) hsame
        simpa [Flow.write] using heffect
      · exact .idle
    · rename_i harrive hfinish
      exact .exchanged a _ hserver (fun bytes heq => harrive bytes heq) (fun heq => absurd heq hfinish) (hgrows a)

theorem step_effect (a : TcpStep) : ClientEffect s (s.step a) ∨ ServerEffect s (s.step a) := by
  cases a with
  | appSends bytes =>
    left
    simp only [step, appSends]
    split_ifs with hfin
    · exact .idle
    · exact .sent bytes (by simpa using hfin)
  | appFinishes => exact .inl .finished
  | writeHeader num =>
    left
    simp only [step, writeHeader]
    split
    · rename_i rest hclient
      refine .wroteHeader rest num _ hclient ?_ ?_
      · split_ifs with hdone
        · exact hdone.symm
        · rfl
      · split_ifs <;> trivial
    · exact .idle
  | reply =>
    left
    simp only [step, reply]
    split
    · exact .replied ‹_›
    · exact .idle
  | readApp num =>
    left
    simp only [step, readApp]
    split
    · exact .readApp num ‹_›
    · exact .idle
  | writeUp num =>
    left
    simp only [step, writeUp]
    split
    · exact .wroteUp num ‹_›
    · exact .idle
  | finishUp =>
    left
    simp only [step, finishUp]
    split
    · split_ifs with hthrough
      · exact .finishedUp ‹_› hthrough
      · exact .idle
    · exact .idle
  | readDown num =>
    left
    simp only [step, readDown]
    split
    · exact .readDown num
    · exact .idle
  | writeApp num =>
    left
    simp only [step, writeApp]
    split
    · exact .wroteApp num
    · exact .idle
  | finishClient =>
    left
    simp only [step, finishClient]
    split
    · split_ifs
      · exact .ended s.up ‹_› (.inl rfl)
      · exact .idle
    · exact .idle
  | failClient =>
    left
    simp only [step, failClient]
    cases hclient : s.client with
    | copying => exact .ended _ hclient (.inr rfl)
    | ended => exact .idle
    | marshalling rest => exact .dropped (hclient ▸ trivial)
    | replying => exact .dropped (hclient ▸ trivial)
  | pollHeader meets => exact .inr (s.pollHeader_effect meets)
  | resolve dns =>
    right
    simp only [step, resolve]
    split
    · exact .resolved _ dns ‹_›
    · exact .idle
  | tryConnect tcp =>
    right
    simp only [step, tryConnect]
    split
    · rename_i addr addrs hserver
      cases tcp with
      | connected => exact .tried addr addrs hserver _ (.inl rfl)
      | nodelayFails => exact .dropped addr addrs hserver
      | fails => exact .tried addr addrs hserver _ (.inr rfl)
    · exact .unreached ‹_›
    · exact .idle
  | deliver num =>
    right
    simp only [step, deliver]
    split
    · exact .delivered num ‹_›
    · exact .idle
  | exchange a => exact .inr (s.exchange_effect a)
  | finishServer =>
    right
    simp only [step, finishServer]
    split
    · exact .aborted ‹_›
    · exact .returned ‹_› ‹_›
    · exact .idle
  | failServer => exact .inr .ended

end

/-! ### From the program to the target -/

/-- What the server makes of the bytes on the stream and those still to be written to it:
`copied` is what comes behind the header. -/
inductive Reads (addr : WireAddress) (s : TcpRelay) (bytes copied : List UInt8) : Prop
  | header (p : Async UnmarshalError Header) (server : s.server = .accepting p) (relay : s.relay = .new)
      (reads : p.toReader bytes = .ok (.connect ⟨addr.1.onWire⟩, copied))
  | refused (server : s.server = .ended) (relay : s.relay = .new) (suffix : copied <:+ bytes)
  | target (server : ∀ p, s.server ≠ .accepting p) (sent : copied = (s.relay.dirs .a).sent ++ bytes)

/-- The client has sent the end of the stream. -/
def Over (s : TcpRelay) : Prop :=
  (s.client = .copying ∨ s.client = .ended) ∧ s.appFinished = true ∧ s.appUnread = [] ∧ s.upBuf = [] ∨
    s.client = .ended ∧ s.fromApp = s.appUnread

/-- `rest` is what is left of the header, or would be if the client had not failed. -/
structure Upward (addr : WireAddress) (s : TcpRelay) (rest copied : List UInt8) : Prop where
  reads : s.Reads addr (s.up.bytes ++ rest) copied
  app : s.fromApp = copied ++ s.upBuf ++ s.appUnread
  header : s.client ≠ .ended → s.client.rest = rest
  untouched : s.client.Opening ∨ rest ≠ [] → s.fromApp = s.appUnread
  ending : s.up.finished = true → s.Over
  seen : (s.relay.dirs .a).finished = true → s.up.finished = true ∧ s.up.bytes = []

section

variable {addr : WireAddress} {s s' : TcpRelay} {rest copied : List UInt8}

theorem Reads.append {bytes : List UInt8} (h : s.Reads addr bytes copied) (more : List UInt8) :
    s.Reads addr (bytes ++ more) (copied ++ more) := by
  cases h with
  | header p server relay reads => exact .header p server relay (p.toReader_append more reads)
  | refused server relay suffix =>
    obtain ⟨before, rfl⟩ := suffix
    exact .refused server relay ⟨before, (List.append_assoc _ _ _).symm⟩
  | target server sent => exact .target server (by rw [sent, List.append_assoc])

/-- The client does not change what the server has read. -/
theorem Reads.congr {bytes : List UInt8} (h : s.Reads addr bytes copied) (hserver : s'.server = s.server)
    (hrelay : s'.relay = s.relay) : s'.Reads addr bytes copied := by
  cases h with
  | header p server relay reads => exact .header p (hserver.trans server) (hrelay.trans relay) reads
  | refused server relay suffix => exact .refused (hserver.trans server) (hrelay.trans relay) suffix
  | target server sent =>
    refine .target (fun p => ?_) ?_
    · rw [hserver]
      exact server p
    · rw [hrelay]
      exact sent

theorem Reads.sent_prefix {bytes : List UInt8} (h : s.Reads addr bytes copied) :
    (s.relay.dirs .a).sent <+: copied := by
  cases h with
  | header p server relay reads =>
    rw [relay]
    exact List.nil_prefix
  | refused server relay suffix =>
    rw [relay]
    exact List.nil_prefix
  | target server sent =>
    rw [sent]
    exact List.prefix_append _ _

theorem Reads.sent_of_nil (h : s.Reads addr [] copied) : (s.relay.dirs .a).sent = copied := by
  cases h with
  | header p server relay reads =>
    rw [List.suffix_nil.1 (p.suffix_of_toReader reads), relay]
    rfl
  | refused server relay suffix =>
    rw [List.suffix_nil.1 suffix, relay]
    rfl
  | target server sent => rw [sent, List.append_nil]

/-- Behind the header and before the end of the task. -/
theorem Reads.sent_of_running {bytes : List UInt8} (h : s.Reads addr bytes copied)
    (haccepting : ∀ p, s.server ≠ .accepting p) (hended : s.server ≠ .ended) :
    copied = (s.relay.dirs .a).sent ++ bytes := by
  cases h with
  | header p server relay reads => exact absurd server (haccepting p)
  | refused server relay suffix => exact absurd server hended
  | target server sent => exact sent

theorem Over.not_opening (h : s.Over) : ¬ s.client.Opening := by
  intro hopening
  rcases h with ⟨hclient | hclient, -⟩ | ⟨hclient, -⟩ <;> rw [hclient] at hopening <;> exact hopening

theorem Over.of_copying (h : s.Over) (hcopying : s.client = .copying) :
    s.appFinished = true ∧ s.appUnread = [] ∧ s.upBuf = [] := by
  rcases h with ⟨-, hthrough⟩ | ⟨hended, -⟩
  · exact hthrough
  · rw [hcopying] at hended
    cases hended

/-- While the client copies, the header is written. -/
theorem Upward.rest_of_copying (h : s.Upward addr rest copied) (hcopying : s.client = .copying) : rest = [] := by
  rw [← h.header (by simp [hcopying]), hcopying]
  rfl

theorem Upward.sent_of_untouched (h : s.Upward addr rest copied) (hun : s.fromApp = s.appUnread) :
    (s.relay.dirs .a).sent = [] := by
  have happ := h.app
  rw [hun] at happ
  have hnil : copied = [] := (List.append_eq_nil_iff.1 (List.self_eq_append_left.1 happ)).1
  have hpre := h.reads.sent_prefix
  rw [hnil] at hpre
  exact List.prefix_nil.1 hpre

/-- Where nothing is on its way to the server, all has come. -/
theorem Upward.sent_of_drained (h : s.Upward addr rest copied) (hstream : s.up.bytes = [])
    (hunread : s.appUnread = []) (hbuf : s.upBuf = []) : (s.relay.dirs .a).sent = s.fromApp := by
  by_cases hrest : rest = []
  · have hread := h.reads
    rw [hstream, hrest] at hread
    rw [h.app, hunread, hbuf, List.append_nil, List.append_nil]
    exact hread.sent_of_nil
  · -- the client has failed before it had written the header
    have hun := h.untouched (.inr hrest)
    rw [h.sent_of_untouched hun, hun, hunread]

theorem Upward.client (h : s.Upward addr rest copied) (he : ClientEffect s s') :
    ∃ rest' copied', s'.Upward addr rest' copied' := by
  have hread := h.reads
  have happ := h.app
  cases he with
  | idle => exact ⟨rest, copied, h⟩
  | sent bytes unfinished =>
    refine ⟨rest, copied, hread.congr rfl rfl, ?_, h.header, fun hun => ?_, fun hfin => ?_, h.seen⟩
    · simp [happ]
    · exact congrArg (· ++ bytes) (h.untouched hun)
    · rcases h.ending hfin with ⟨-, hfinished, -⟩ | ⟨hended, hun⟩
      · rw [unfinished] at hfinished
        cases hfinished
      · exact .inr ⟨hended, congrArg (· ++ bytes) hun⟩
  | finished =>
    refine ⟨rest, copied, hread.congr rfl rfl, happ, h.header, h.untouched, fun hfin => ?_, h.seen⟩
    exact (h.ending hfin).imp_left fun hover => ⟨hover.1, rfl, hover.2.2⟩
  | wroteHeader todo num client marshalling left opening =>
    have htodo : todo = rest := by
      rw [← h.header (by simp [marshalling]), marshalling]
      rfl
    subst htodo
    have hopening : s.client.Opening := by
      rw [marshalling]
      trivial
    have hopen : s.up.finished = false := by
      by_contra hfin
      exact (h.ending (by simpa using hfin)).not_opening hopening
    refine ⟨todo.drop num, copied, ?_, happ, fun _ => left, fun _ => h.untouched (.inl hopening), ?_, ?_⟩
    · rw [Flow.write_bytes, List.append_assoc, List.take_append_drop]
      exact hread.congr rfl rfl
    · intro hfin
      rw [Flow.write_finished, hopen] at hfin
      cases hfin
    · intro hfin
      have := (h.seen hfin).1
      rw [hopen] at this
      cases this
  | replied replying =>
    have hrest : rest = [] := by
      rw [← h.header (by simp [replying]), replying]
      rfl
    refine ⟨rest, copied, hread.congr rfl rfl, happ, fun _ => hrest.symm, ?_, fun hfin => ?_, h.seen⟩
    · rintro (hopening | hne)
      · exact hopening.elim
      · exact absurd hrest hne
    · exact absurd (by rw [replying]; trivial) (h.ending hfin).not_opening
  | readApp num copying =>
    refine ⟨rest, copied, hread.congr rfl rfl, ?_, h.header, ?_, fun hfin => ?_, h.seen⟩
    · simp [happ]
    · rintro (hopening | hne)
      · rw [copying] at hopening
        exact hopening.elim
      · exact absurd (h.rest_of_copying copying) hne
    · obtain ⟨hfinished, hunread, hbuf⟩ := (h.ending hfin).of_copying copying
      exact .inl ⟨.inl copying, hfinished, by simp [hunread], by simp [hunread, hbuf]⟩
  | wroteUp num copying =>
    have hrest := h.rest_of_copying copying
    subst hrest
    refine ⟨[], copied ++ s.upBuf.take num, ?_, ?_, h.header, ?_, fun hfin => ?_, fun hfin => ?_⟩
    · rw [List.append_nil] at hread ⊢
      exact (hread.append _).congr rfl rfl
    · simp [happ]
    · rintro (hopening | hne)
      · rw [copying] at hopening
        exact hopening.elim
      · exact absurd rfl hne
    · obtain ⟨hfinished, hunread, hbuf⟩ := (h.ending hfin).of_copying copying
      exact .inl ⟨.inl copying, hfinished, hunread, by simp [hbuf]⟩
    · obtain ⟨hfinished, hbytes⟩ := h.seen hfin
      obtain ⟨-, -, hbuf⟩ := (h.ending hfinished).of_copying copying
      exact ⟨hfinished, by simp [hbytes, hbuf]⟩
  | finishedUp copying through =>
    exact ⟨rest, copied, hread.congr rfl rfl, happ, h.header, h.untouched,
      fun _ => .inl ⟨.inl copying, through⟩, fun hfin => ⟨rfl, (h.seen hfin).2⟩⟩
  | readDown num => exact ⟨rest, copied, hread.congr rfl rfl, happ, h.header, h.untouched, h.ending, h.seen⟩
  | wroteApp num => exact ⟨rest, copied, hread.congr rfl rfl, happ, h.header, h.untouched, h.ending, h.seen⟩
  | ended up copying same =>
    have hbytes : up.bytes = s.up.bytes := by rcases same with rfl | rfl <;> rfl
    have hfinished : up.finished = s.up.finished := by rcases same with rfl | rfl <;> rfl
    refine ⟨rest, copied, ?_, happ, fun hne => absurd rfl hne, ?_, fun hfin => ?_, ?_⟩
    · rw [hbytes]
      exact hread.congr rfl rfl
    · rintro (hopening | hne)
      · exact hopening.elim
      · exact absurd (h.rest_of_copying copying) hne
    · rw [hfinished] at hfin
      exact .inl ⟨.inr rfl, (h.ending hfin).of_copying copying⟩
    · rw [hfinished, hbytes]
      exact h.seen
  | dropped opening =>
    have hun := h.untouched (.inl opening)
    refine ⟨rest, copied, hread.congr rfl rfl, happ, fun hne => absurd rfl hne, fun _ => hun,
      fun _ => .inr ⟨rfl, hun⟩, fun hfin => ⟨rfl, (h.seen hfin).2⟩⟩

/-- A poll takes off the stream what it has read, and leaves the rest of the header. -/
theorem AfterPoll.reads {p p' : Async UnmarshalError Header} {meets left : ByteStream} {server : ServerConnect}
    {more : List UInt8} (ha : AfterPoll p' server) (hpoll : p.poll meets = (p', left))
    (h : p.toReader (meets.bytes ++ more) = .ok (.connect ⟨addr.1.onWire⟩, copied)) :
    (∃ q, server = .accepting q ∧
        q.toReader (left.bytes ++ more) = .ok (.connect ⟨addr.1.onWire⟩, copied)) ∨
      server = .resolving addr.1.onWire ∧ copied = left.bytes ++ more ∨
      server = .ended ∧ copied <:+ left.bytes ++ more := by
  have hsame := p.poll_append meets more
  rw [hpoll, h] at hsame
  cases ha with
  | pending room got next =>
    rcases hsame with heof | hsame
    · cases heof
    · exact .inl ⟨_, rfl, hsame⟩
  | connect conn =>
    rcases hsame with heof | hsame
    · cases heof
    · cases hsame
      exact .inr (.inl ⟨rfl, rfl⟩)
  | refused res other =>
    refine .inr (.inr ⟨rfl, ?_⟩)
    rcases hsame with heof | hsame
    · have hsuffix : copied <:+ more := p.suffix_of_poll_eof meets (by rw [hpoll, heof]) h
      exact hsuffix.trans (List.suffix_append _ _)
    · obtain ⟨header, rfl, hheader⟩ := Outcome.bind_eq_ok.1 hsame
      cases hheader
      exact absurd rfl (other _)

/-- The task of the stream goes on, without having read of it. -/
theorem Upward.goOn (h : s.Upward addr rest copied) (haccepting : ∀ p, s.server ≠ .accepting p)
    (hended : s.server ≠ .ended) {server : ServerConnect} (hserver : ∀ p, server ≠ .accepting p)
    (answer : Option (List SocketAddr)) (attempts : List SocketAddr) (down : Flow) :
    Upward addr { s with server, answer, attempts, down } rest copied := by
  refine ⟨.target hserver ?_, h.app, h.header, h.untouched, h.ending, h.seen⟩
  exact h.reads.sent_of_running haccepting hended

theorem Upward.server (h : s.Upward addr rest copied) (he : ServerEffect s s') : s'.Upward addr rest copied := by
  have hread := h.reads
  cases he with
  | idle => exact h
  | ended =>
    refine ⟨?_, h.app, h.header, h.untouched, h.ending, h.seen⟩
    cases hread with
    | header p server relay reads => exact .refused rfl relay (p.suffix_of_toReader reads)
    | refused server relay suffix => exact .refused rfl relay suffix
    | target server sent => exact .target (fun _ heq => by cases heq) sent
  | polled p p' meets left server accepting met poll after =>
    cases hread with
    | refused server' relay suffix =>
      rw [accepting] at server'
      cases server'
    | target server' sent => exact absurd accepting (server' p)
    | header q server' relay reads =>
      rw [accepting] at server'
      cases server'
      rw [bytes_of_meets met] at reads
      refine ⟨?_, h.app, h.header, h.untouched, h.ending, fun hfin => ?_⟩
      · rw [List.append_assoc]
        rcases after.reads poll reads with ⟨q, rfl, hq⟩ | ⟨rfl, hcopied⟩ | ⟨rfl, hsuffix⟩
        · exact .header q rfl relay hq
        · refine .target (fun _ heq => by cases heq) ?_
          rw [relay]
          exact hcopied
        · exact .refused rfl relay hsuffix
      · rw [relay] at hfin
        cases hfin
  | resolved addr dns resolving =>
    exact h.goOn (by simp [resolving]) (by simp [resolving]) (by simp) _ _ _
  | tried a addrs connecting server next =>
    refine h.goOn (by simp [connecting]) (by simp [connecting]) ?_ _ _ _
    rcases next with rfl | rfl <;> simp
  | dropped a addrs connecting =>
    exact h.goOn (by simp [connecting]) (by simp [connecting]) (by simp) _ _ _
  | unreached connecting =>
    exact h.goOn (by simp [connecting]) (by simp [connecting]) (by simp) _ _ _
  | aborted exchanging =>
    exact h.goOn (by simp [exchanging]) (by simp [exchanging]) (by simp) _ _ _
  | returned exchanging phase =>
    exact h.goOn (by simp [exchanging]) (by simp [exchanging]) (by simp) _ _ _
  | delivered num exchanging =>
    have hcopied := hread.sent_of_running (by simp [exchanging]) (by simp [exchanging])
    have heffect := Server.step_exchangeEffect s.relay (.arrive .a (s.up.take num))
    have harrival : s.relay.arrival .a (.arrive .a (s.up.take num)) = s.up.take num := by
      cases hfin : (s.relay.dirs .a).finished with
      | false => simp [Exchange.arrival, hfin]
      | true =>
        rw [(s.up.drop_of_nil num (h.seen hfin).2).1]
        simp [Exchange.arrival]
    refine ⟨.target (by simp [exchanging]) ?_, h.app, h.header, h.untouched, ?_, fun hfin => ?_⟩
    · rw [Server.sent_step heffect, harrival, List.append_assoc, ← List.append_assoc (s.up.take num),
        Flow.take_append_drop]
      exact hcopied
    · rw [Flow.drop_finished]
      exact h.ending
    · rcases Server.finished_of_step heffect hfin with hfin | heq
      · obtain ⟨hfinished, hbytes⟩ := h.seen hfin
        exact ⟨by rw [Flow.drop_finished, hfinished], (s.up.drop_of_nil num hbytes).2⟩
      · cases heq
  | exchanged a more exchanging silent atEnd writes =>
    have hcopied := hread.sent_of_running (by simp [exchanging]) (by simp [exchanging])
    have heffect := Server.step_exchangeEffect s.relay a
    have harrival : s.relay.arrival .a a = [] :=
      Server.arrival_eq_nil fun bytes heq => absurd heq (silent bytes)
    refine ⟨.target (by simp [exchanging]) ?_, h.app, h.header, h.untouched, h.ending, fun hfin => ?_⟩
    · rw [Server.sent_step heffect, harrival, List.append_nil]
      exact hcopied
    · rcases Server.finished_of_step heffect hfin with hfin | heq
      · exact h.seen hfin
      · obtain ⟨hfinished, -, hbytes⟩ := atEnd heq
        exact ⟨hfinished, hbytes⟩

end

/-! ### From the target to the program -/

structure Downward (s : TcpRelay) : Prop where
  whole : (s.relay.dirs .b).written = s.toApp ++ s.downBuf ++ s.down.bytes
  finished : s.down.finished = true → s.server = .ended ∧ (s.relay = .new ∨ s.relay.phase = .returned false)

/-- The addresses that the server has come to. -/
def addresses (addr : WireAddress) (s : TcpRelay) : List SocketAddr := (resolveDns s.answer addr.1.onWire).getD []

/-- What the server has tried and is to try. -/
structure Trying (addr : WireAddress) (s : TcpRelay) : Prop where
  tried : s.attempts <+: s.addresses addr
  early : ∀ p, s.server = .accepting p → s.attempts = []
  resolving : ∀ a, s.server = .resolving a → a = addr.1.onWire ∧ s.attempts = []
  connecting : ∀ addrs, s.server = .connecting addrs → s.attempts ++ addrs = s.addresses addr ∧ s.relay = .new
  exchanging : s.server = .exchanging → s.attempts ≠ []
  untried : s.attempts = [] → s.relay = .new

section

variable {addr : WireAddress} {s s' : TcpRelay} {rest copied : List UInt8}

theorem Downward.client (h : s.Downward) (he : ClientEffect s s') : s'.Downward := by
  cases he with
  | readDown num =>
    refine ⟨?_, fun hfin => h.finished (by rwa [Flow.drop_finished] at hfin)⟩
    rw [h.whole, ← Flow.take_append_drop s.down num]
    simp only [List.append_assoc]
  | wroteApp num =>
    refine ⟨?_, h.finished⟩
    rw [h.whole]
    simp
  | idle => exact h
  | sent => exact ⟨h.whole, h.finished⟩
  | finished => exact ⟨h.whole, h.finished⟩
  | wroteHeader => exact ⟨h.whole, h.finished⟩
  | replied => exact ⟨h.whole, h.finished⟩
  | readApp => exact ⟨h.whole, h.finished⟩
  | wroteUp => exact ⟨h.whole, h.finished⟩
  | finishedUp => exact ⟨h.whole, h.finished⟩
  | ended => exact ⟨h.whole, h.finished⟩
  | dropped => exact ⟨h.whole, h.finished⟩

theorem Downward.server (h : s.Downward) (ht : s.Trying addr) (he : ServerEffect s s') : s'.Downward := by
  have hopen (hserver : s.server ≠ .ended) : s.down.finished = false := by
    by_contra hfin
    exact hserver (h.finished (by simpa using hfin)).1
  have hrunning (s' : TcpRelay) (hserver : s.server ≠ .ended)
      (hwhole : (s'.relay.dirs .b).written = s'.toApp ++ s'.downBuf ++ s'.down.bytes)
      (hdown : s'.down.finished = s.down.finished) : s'.Downward := by
    refine ⟨hwhole, fun hfin => ?_⟩
    rw [hdown, hopen hserver] at hfin
    cases hfin
  cases he with
  | idle => exact h
  | ended => exact ⟨h.whole, fun hfin => ⟨rfl, (h.finished hfin).2⟩⟩
  | polled p p' meets left server accepting => exact hrunning _ (by simp [accepting]) h.whole rfl
  | resolved a dns resolving => exact hrunning _ (by simp [resolving]) h.whole rfl
  | tried a addrs connecting => exact hrunning _ (by simp [connecting]) h.whole rfl
  | dropped a addrs connecting => exact ⟨h.whole, fun _ => ⟨rfl, .inl (ht.connecting _ connecting).2⟩⟩
  | unreached connecting => exact ⟨h.whole, fun _ => ⟨rfl, .inl (ht.connecting _ connecting).2⟩⟩
  | delivered num exchanging =>
    refine hrunning _ (by simp [exchanging]) ?_ rfl
    have hother : (s.relay.step (.arrive .a (s.up.take num))).dirs .b = s.relay.dirs .b := by
      simp [Exchange.step]
    rw [hother]
    exact h.whole
  | exchanged a more exchanging silent atEnd writes =>
    refine hrunning _ (by simp [exchanging]) ?_ rfl
    rw [writes, h.whole, Flow.write_bytes, List.append_assoc]
  | aborted exchanging => exact hrunning _ (by simp [exchanging]) h.whole rfl
  | returned exchanging phase => exact ⟨h.whole, fun _ => ⟨rfl, .inr phase⟩⟩

theorem Trying.client (h : s.Trying addr) (he : ClientEffect s s') : s'.Trying addr := by
  cases he <;> exact ⟨h.tried, h.early, h.resolving, h.connecting, h.exchanging, h.untried⟩

theorem Trying.server (h : s.Trying addr) (hu : s.Upward addr rest copied) (he : ServerEffect s s') :
    s'.Trying addr := by
  cases he with
  | idle => exact h
  | ended => exact ⟨h.tried, by simp, by simp, by simp, by simp, h.untried⟩
  | polled p p' meets left server accepting met poll after =>
    have hnone := h.early p accepting
    cases hu.reads with
    | refused server' relay suffix =>
      rw [accepting] at server'
      cases server'
    | target server' sent => exact absurd accepting (server' p)
    | header q server' relay reads =>
      rw [accepting] at server'
      cases server'
      rw [bytes_of_meets met] at reads
      rcases after.reads poll reads with ⟨q, rfl, hq⟩ | ⟨rfl, hcopied⟩ | ⟨rfl, hsuffix⟩
      · exact ⟨h.tried, fun _ _ => hnone, by simp, by simp, by simp, h.untried⟩
      · exact ⟨h.tried, by simp, fun a heq => ⟨by simpa using heq.symm, hnone⟩, by simp, by simp, h.untried⟩
      · exact ⟨h.tried, by simp, by simp, by simp, by simp, h.untried⟩
  | resolved a dns resolving =>
    obtain ⟨rfl, hnone⟩ := h.resolving a resolving
    refine ⟨?_, by simp, by simp, fun addrs heq => ⟨?_, h.untried hnone⟩, by simp, h.untried⟩
    · dsimp only
      rw [hnone]
      exact List.nil_prefix
    · cases heq
      dsimp only
      rw [hnone]
      rfl
  | tried a addrs connecting server next =>
    obtain ⟨haddrs, hnew⟩ := h.connecting _ connecting
    have hall : s.attempts ++ [a] ++ addrs = s.addresses addr := by
      rw [← haddrs, List.append_assoc, List.singleton_append]
    rcases next with rfl | rfl
    · exact ⟨⟨addrs, hall⟩, by simp, by simp, by simp, by simp, by simp⟩
    · refine ⟨⟨addrs, hall⟩, by simp, by simp, fun addrs' heq => ?_, by simp, by simp⟩
      cases heq
      exact ⟨hall, hnew⟩
  | dropped a addrs connecting =>
    obtain ⟨haddrs, -⟩ := h.connecting _ connecting
    refine ⟨⟨addrs, ?_⟩, by simp, by simp, by simp, by simp, by simp⟩
    rw [List.append_assoc, List.singleton_append]
    exact haddrs
  | unreached connecting => exact ⟨h.tried, by simp, by simp, by simp, by simp, h.untried⟩
  | delivered num exchanging =>
    have hsome := h.exchanging exchanging
    exact ⟨h.tried, by simp [exchanging], by simp [exchanging], by simp [exchanging], fun _ => hsome,
      fun hnil => absurd hnil hsome⟩
  | exchanged a more exchanging silent atEnd writes =>
    have hsome := h.exchanging exchanging
    exact ⟨h.tried, by simp [exchanging], by simp [exchanging], by simp [exchanging], fun _ => hsome,
      fun hnil => absurd hnil hsome⟩
  | aborted exchanging => exact ⟨h.tried, by simp, by simp, by simp, by simp, h.untried⟩
  | returned exchanging phase => exact ⟨h.tried, by simp, by simp, by simp, by simp, h.untried⟩

end

/-! ### Along a run -/

structure Inv (addr : WireAddress) (s : TcpRelay) : Prop where
  reach : exchangeTcp.Reachable s.relay
  up : ∃ rest copied, s.Upward addr rest copied
  down : s.Downward
  trying : s.Trying addr

section

variable {addr : WireAddress} {s s' : TcpRelay}

theorem inv_init (addr : WireAddress) : (init addr).Inv addr := by
  have hheader : Header.unmarshal ((Header.connect ⟨addr.1⟩).write ++ []) =
      .ok (.connect ⟨addr.1.onWire⟩, []) := by
    rw [← Header.onWire_write]
    exact header_accepts (Header.connect ⟨addr.1.onWire⟩) addr.2 []
  rw [List.append_nil] at hheader
  refine ⟨exchangeTcp.reachable_init,
    ⟨_, [], ?_, rfl, fun _ => rfl, fun _ => rfl, by simp [init, Flow.new], ?_⟩, ?_, ?_⟩
  · exact .header _ rfl rfl (by rw [asyncUnmarshal_denotes]; exact hheader)
  · intro hfin
    cases hfin
  · exact ⟨rfl, fun hfin => by cases hfin⟩
  · exact ⟨List.nil_prefix, fun _ _ => rfl, by simp [init], by simp [init], by simp [init], fun _ => rfl⟩

theorem Inv.step (h : s.Inv addr) (a : TcpStep) : (s.step a).Inv addr := by
  obtain ⟨rest, copied, hup⟩ := h.up
  rcases s.step_effect a with he | he
  · refine ⟨?_, hup.client he, h.down.client he, h.trying.client he⟩
    generalize s.step a = s' at he
    cases he <;> exact h.reach
  · refine ⟨?_, ⟨rest, copied, hup.server he⟩, h.down.server h.trying he, h.trying.server hup he⟩
    generalize s.step a = s' at he
    cases he with
    | delivered num exchanging => exact exchangeTcp.reachable_step h.reach _
    | exchanged a => exact exchangeTcp.reachable_step h.reach a
    | _ => exact h.reach

/-- Where no error has come and nothing waits to be written, an end has been written as far as
it has been read. -/
theorem Settled.sent (h : s.Settled) (hreach : exchangeTcp.Reachable s.relay) (k : End) :
    (s.relay.dirs k).sent = (s.relay.dirs k).written ++ (s.relay.dirs k).unread := by
  have hphase : s.relay.phase ≠ .returned true ∧ s.relay.pending k = [] := by
    rcases h with h | h <;> simp [h, Exchange.pending]
  have hwhole := Server.exchange_whole hreach hphase.1 k
  rwa [hphase.2, List.append_nil] at hwhole

theorem Inv.written_prefix (h : s.Inv addr) (k : End) : (s.relay.dirs k).written <+: (s.relay.dirs k).sent := by
  obtain ⟨gap, hgap⟩ := Server.exchange_ahead h.reach
  rw [hgap.sent k, List.append_assoc]
  exact List.prefix_append _ _

theorem Inv.shows (h : s.Inv addr) : s.Relayed addr := by
  obtain ⟨rest, copied, hup⟩ := h.up
  have htoApp : s.toApp ++ (s.downBuf ++ s.down.bytes) = (s.relay.dirs .b).written := by
    rw [h.down.whole, List.append_assoc]
  refine ⟨?_, ?_, fun hd => ?_, fun hd => ?_, fun hfin => ?_, fun hend hbuf => ?_, h.trying.tried,
    fun hnone => ?_⟩
  · refine (h.written_prefix .a).trans (hup.reads.sent_prefix.trans ?_)
    rw [hup.app, List.append_assoc]
    exact List.prefix_append _ _
  · exact (htoApp ▸ List.prefix_append _ _).trans (h.written_prefix .b)
  · rw [← hup.sent_of_drained hd.stream hd.app.1 hd.app.2, hd.settled.sent h.reach .a, hd.target, List.append_nil]
    rfl
  · have hsent := hd.settled.sent h.reach .b
    rw [hd.app, hd.stream, List.append_nil, List.append_nil] at htoApp
    rw [fromTarget, hsent, hd.target, List.append_nil, htoApp]
  · obtain ⟨hfinished, hbytes⟩ := hup.seen hfin
    rcases hup.ending hfinished with ⟨-, hend, hunread, hbuf⟩ | ⟨hend, hun⟩
    · exact .inl ⟨hend, hup.sent_of_drained hbytes hunread hbuf⟩
    · exact .inr ⟨hend, hup.sent_of_untouched hun⟩
  · obtain ⟨hfinished, -, hbytes⟩ := hend
    have hsettled : s.Settled := (h.down.finished hfinished).2.imp_left fun hnew => by rw [hnew]; rfl
    rw [hbytes, hbuf, List.append_nil, List.append_nil] at htoApp
    rw [fromTarget, hsettled.sent h.reach .b, htoApp]
  · rw [toTarget, fromTarget, h.trying.untried hnone]
    exact ⟨rfl, rfl⟩

end

end TcpRelay

/-- Whatever comes in pieces and wherever the two sides fail, the target gets what the program
has sent, from its beginning, and the program what the target has sent. -/
theorem TcpRelay.relays_in_order (addr : WireAddress) (steps : List TcpStep) :
    ((tcpRelay addr).exec (.init addr) steps).Relayed addr := by
  have hreach : (tcpRelay addr).Reachable ((tcpRelay addr).exec (.init addr) steps) := ⟨steps, rfl⟩
  exact (hreach.invariant (P := TcpRelay.Inv addr) (inv_init addr) fun s a h => h.step a).shows

/-- The header comes in two pieces, the second with a byte of the program behind it. -/
example :
    let addr : WireAddress := ⟨.socketAddress (.v4 ⟨10, 0, 0, 1⟩ 80), trivial⟩
    let s := (tcpRelay addr).exec (.init addr) [.appSends [7, 8], .writeHeader 3,
      .pollHeader [.chunk [5, 1, 1] (by decide), .pending], .writeHeader 6, .reply, .readApp 2, .writeUp 1,
      .pollHeader [.chunk [10, 0, 0, 1, 0, 80, 7] (by decide), .pending], .resolve none, .tryConnect .connected,
      .deliver 1, .exchange (.read .a 1), .exchange (.write 1)]
    s.toTarget = [7] ∧ s.upBuf = [8] := by
  decide

end Tuic
