import Mathlib.Data.Prod.Lex
import Tuic.Sanity.Drains

/-! A relayed TCP connection that goes on by itself. Where nothing is left to do, the sockets are
empty, and then, one after the other, all that the bytes come through on their way to them. -/

namespace Tuic

open Lib Quinn
open Server (End Exchange ExchangeStep)

/-! ### Runs -/

/-- What holds in every state. -/
structure TcpRelay.Sound (addr : WireAddress) (s : TcpRelay) : Prop where
  inv : s.Inv addr
  unbroken : s.Unbroken

namespace WindowedRelay

variable {addr : WireAddress} {w : Windows} {s : WindowedRelay}

structure Sound (addr : WireAddress) (w : Windows) (s : WindowedRelay) : Prop where
  relay : s.relay.Sound addr
  fits : s.Fits w

/-- The steps of the relay that have room are those of the relay. -/
theorem step_relay (s : WindowedRelay) (a : TcpStep) :
    (s.step w (.relay a) = { s with relay := s.relay.step a } ∧
      ({ s with relay := s.relay.step a } : WindowedRelay).Fits w) ∨ s.step w (.relay a) = s := by
  simp only [step]
  split_ifs with hfits
  · exact .inl ⟨rfl, hfits⟩
  · exact .inr rfl

theorem Sound.step (h : s.Sound addr w) (a : WindowedStep) : (s.step w a).Sound addr w := by
  have ⟨hup, hdown, htarget, happ, hcopy⟩ := h.fits
  cases a with
  | relay a =>
    rcases s.step_relay (w := w) a with ⟨hstep, hfits⟩ | hstep
    · rw [hstep]
      exact ⟨⟨h.relay.inv.step a, h.relay.unbroken.step a⟩, hfits⟩
    · rw [hstep]
      exact h
  | targetTakes num =>
    refine ⟨h.relay, hup, hdown, ?_, happ, hcopy⟩
    simp only [WindowedRelay.step, atTarget, List.length_drop] at htarget ⊢
    omega
  | appTakes num =>
    refine ⟨h.relay, hup, hdown, htarget, ?_, hcopy⟩
    simp only [WindowedRelay.step, atApp, List.length_drop] at happ ⊢
    omega

theorem sound_of_reachable (h : (windowedRelay addr w).Reachable s) : s.Sound addr w := by
  refine h.invariant (P := Sound addr w) ⟨⟨TcpRelay.inv_init addr, TcpRelay.unbroken_init addr⟩, ?_⟩
    fun s a hs => hs.step a
  exact ⟨Nat.zero_le _, Nat.zero_le _, Nat.zero_le _, Nat.zero_le _, Nat.zero_le _, Nat.zero_le _⟩

/-! ### Only so many steps -/

/-- What waits in the sockets counts last: all that the relay does comes before it. -/
def left (s : WindowedRelay) : ℕ ×ₗ ℕ ×ₗ ℕ :=
  toLex (s.relay.server.stage, toLex (s.relay.left, s.atTarget.length + s.atApp.length))

theorem works_less (h : s.Sound addr w) {a : WindowedStep} (hw : s.Works w a) : (s.step w a).left < s.left := by
  obtain ⟨hbrings, hrun, hne⟩ := hw
  cases a with
  | relay a =>
    rcases s.step_relay (w := w) a with ⟨hstep, -⟩ | hstep
    · rw [hstep] at hrun hne ⊢
      rcases TcpRelay.step_less h.relay.unbroken hbrings hrun with hsame | hstage | ⟨hstage, hleft⟩
      · exact absurd (by rw [hsame]) hne
      · exact Prod.Lex.toLex_lt_toLex.2 (.inl hstage)
      · exact Prod.Lex.toLex_lt_toLex.2 (.inr ⟨hstage, Prod.Lex.toLex_lt_toLex.2 (.inl hleft)⟩)
    · exact absurd hstep hne
  | targetTakes num =>
    refine Prod.Lex.toLex_lt_toLex.2 (.inr ⟨rfl, Prod.Lex.toLex_lt_toLex.2 (.inr ⟨rfl, ?_⟩)⟩)
    have htakes : min num s.atTarget.length ≠ 0 := fun hzero => hne (by simp only [step, hzero, Nat.add_zero])
    simp only [step, atTarget, atApp, List.length_drop] at htakes ⊢
    omega
  | appTakes num =>
    refine Prod.Lex.toLex_lt_toLex.2 (.inr ⟨rfl, Prod.Lex.toLex_lt_toLex.2 (.inr ⟨rfl, ?_⟩)⟩)
    have htakes : min num s.atApp.length ≠ 0 := fun hzero => hne (by simp only [step, hzero, Nat.add_zero])
    simp only [step, atTarget, atApp, List.length_drop] at htakes ⊢
    omega

theorem terminates_of_sound (hs : s.Sound addr w) : (windowedRelay addr w).Terminates (Works w) s :=
  Machine.terminates_of_measure wellFounded_lt left (P := Sound addr w) (fun _ a h _ => h.step a)
    (fun _ _ h hw => works_less h hw) hs

theorem keeps_running {steps : List WindowedStep} : ∀ {s : WindowedRelay}, s.relay.Running →
    (windowedRelay addr w).Keeps (Works w) s steps →
    ((windowedRelay addr w).exec s steps).relay.Running ∧
      ((windowedRelay addr w).exec s steps).relay.fromApp = s.relay.fromApp ∧
      ((windowedRelay addr w).exec s steps).relay.fromTarget = s.relay.fromTarget := by
  induction steps with
  | nil => exact fun hrun _ => ⟨hrun, rfl, rfl⟩
  | cons a steps ih =>
    intro s hrun hkeeps
    obtain ⟨hbrings, hrun', -⟩ := hkeeps.1
    obtain ⟨hrunning, happ, htarget⟩ := ih hrun' hkeeps.2
    have hsent : (s.step w a).relay.fromApp = s.relay.fromApp ∧
        (s.step w a).relay.fromTarget = s.relay.fromTarget := by
      cases a with
      | relay a =>
        rcases s.step_relay (w := w) a with ⟨hstep, -⟩ | hstep
        · rw [hstep]
          exact TcpRelay.brings_step hbrings
        · rw [hstep]
          exact ⟨rfl, rfl⟩
      | targetTakes num => exact ⟨rfl, rfl⟩
      | appTakes num => exact ⟨rfl, rfl⟩
    exact ⟨hrunning, happ.trans hsent.1, htarget.trans hsent.2⟩

/-! ### Where nothing is left to do -/

/-- A step that there is room for, and that ends neither side, does nothing. -/
theorem idle_of_still (h : Machine.Still (Works w) s) (a : TcpStep) {relay : TcpRelay}
    (hstep : s.relay.step a = relay) (hbrings : ¬ a.Brings) (hrun : relay.Running)
    (hfits : ({ s with relay } : WindowedRelay).Fits w) : relay = s.relay := by
  subst hstep
  have hnext : s.step w (.relay a) = { s with relay := s.relay.step a } := by simp only [step, hfits, if_true]
  by_contra hne
  exact h (.relay a) ⟨hbrings, hnext ▸ hrun, fun heq => hne (congrArg relay (hnext.symm.trans heq))⟩

/-- The sockets are empty. -/
theorem taken_of_still (hrun : s.relay.Running) (h : Machine.Still (Works w) s) : s.atTarget = [] ∧ s.atApp = [] := by
  constructor
  · by_contra hne
    have hpos := List.length_pos_iff.2 hne
    refine h (.targetTakes 1) ⟨id, hrun, fun heq => ?_⟩
    have htaken := congrArg targetTaken heq
    simp only [step] at htaken
    omega
  · by_contra hne
    have hpos := List.length_pos_iff.2 hne
    refine h (.appTakes 1) ⟨id, hrun, fun heq => ?_⟩
    have htaken := congrArg appTaken heq
    simp only [step] at htaken
    omega

theorem eq_nil_of_drop {xs : List UInt8} (h : xs.drop 1 = xs) : xs = [] := by
  have hlen := congrArg List.length h
  rw [List.length_drop] at hlen
  exact List.length_eq_zero_iff.1 (by omega)

theorem not_replying (hs : s.Sound addr w) (hrun : s.relay.Running) (h : Machine.Still (Works w) s) :
    s.relay.client ≠ .replying := by
  intro hclient
  have hstep : s.relay.step .reply = { s.relay with client := .copying } := by
    simp only [TcpRelay.step, TcpRelay.reply, hclient]
  have hidle := idle_of_still h .reply hstep id ⟨by simp, hrun.server, hrun.addresses, hrun.relay⟩ hs.fits
  have := congrArg TcpRelay.client hidle
  rw [hclient] at this
  cases this

/-- The header goes on by a byte at least: the client writes one, or the server reads one. -/
theorem not_accepting (hs : s.Sound addr w) (hrun : s.relay.Running) (h : Machine.Still (Works w) s)
    (p : Async UnmarshalError Header) : s.relay.server ≠ .accepting p := by
  intro hserver
  obtain ⟨rest, copied, hup⟩ := hs.relay.inv.up
  have hwaits := hs.relay.unbroken.reading p hserver
  cases hup.reads with
  | refused server relay suffix => exact hrun.server server
  | target server sent => exact server p hserver
  | header q server relay reads =>
    obtain rfl : p = q := by
      rw [hserver] at server
      exact ServerConnect.accepting.inj server
    cases hbytes : s.relay.up.bytes with
    | nil =>
      rw [hbytes, List.nil_append] at reads
      have hrest := hwaits.ne_nil reads
      have hclient := hup.header hrun.client
      cases hmarshalling : s.relay.client with
      | marshalling todo =>
        rw [hmarshalling] at hclient
        obtain rfl : todo = rest := hclient
        have hstep : s.relay.step (.writeHeader 1) = { s.relay with
            up := s.relay.up.write (todo.take 1)
            client := if todo.drop 1 = [] then .replying else .marshalling (todo.drop 1) } := by
          simp only [TcpRelay.step, TcpRelay.writeHeader, hmarshalling]
        have hroom : (todo.take 1).length ≤ w.up := (List.length_take_le 1 todo).trans w.up.pos
        have hidle := idle_of_still h _ hstep id
          ⟨by simp only; split_ifs <;> simp, hrun.server, hrun.addresses, hrun.relay⟩
          ⟨by simpa [TcpRelay.onStream, hbytes, relay, Exchange.new, Server.Direction.new] using hroom, hs.fits.2⟩
        have hsame := congrArg (fun s => s.client.rest) hidle
        rw [hmarshalling] at hsame
        dsimp only at hsame
        split_ifs at hsame with hdone
        · exact hrest hsame.symm
        · exact hrest (eq_nil_of_drop hsame)
      | replying => exact not_replying hs hrun h hmarshalling
      | copying => exact hrest (by rw [← hclient, hmarshalling]; rfl)
      | ended => exact hrun.client hmarshalling
    | cons x xs =>
      rw [hbytes, List.cons_append] at reads
      obtain ⟨hopen, hleft⟩ := hwaits.poll_byte reads
      have hmeets : ByteStream.bytes [.chunk [x] (List.cons_ne_nil x []), .pending] <+: s.relay.up.bytes ∧
          s.relay.up.reset = false :=
        ⟨by rw [hbytes]; exact List.prefix_append [x] xs, hs.relay.unbroken.up hrun.client⟩
      obtain ⟨server, hstep, hnext⟩ : ∃ server,
          s.relay.step (.pollHeader [.chunk [x] (List.cons_ne_nil x []), .pending]) =
            { s.relay with up := { s.relay.up with bytes := xs }, server } ∧
          (server = .resolving addr.1.onWire ∨ ∃ p', server = .accepting p') := by
        have hsame := (p.poll_append [.chunk [x] (List.cons_ne_nil x []), .pending] (xs ++ rest)).resolve_left hopen
        rw [show ByteStream.bytes [.chunk [x] (List.cons_ne_nil x []), .pending] ++ (xs ++ rest) = x :: (xs ++ rest)
          from rfl, reads, hleft] at hsame
        simp only [TcpRelay.step, TcpRelay.pollHeader, hserver, if_pos hmeets]
        generalize p.poll [.chunk [x] (List.cons_ne_nil x []), .pending] = res at hleft hsame
        obtain ⟨p', left⟩ := res
        dsimp only at hleft hsame ⊢
        cases p' with
        | reading room got next => exact ⟨_, by rw [hleft, hbytes]; rfl, .inr ⟨_, rfl⟩⟩
        | ready res =>
          obtain ⟨header, rfl, hheader⟩ := Outcome.bind_eq_ok.1 hsame
          cases hheader
          exact ⟨_, by rw [hleft, hbytes]; rfl, .inl rfl⟩
      have hload := hs.fits.1
      have hidle := idle_of_still h _ hstep id
        ⟨hrun.client, by rcases hnext with rfl | ⟨p', rfl⟩ <;> simp, by rcases hnext with rfl | ⟨p', rfl⟩ <;> simp,
          hrun.relay⟩
        ⟨by simp only [TcpRelay.onStream, hbytes, List.length_cons] at hload ⊢; omega, hs.fits.2⟩
      have hlen := congrArg (fun s => s.up.bytes.length) hidle
      simp [hbytes] at hlen

def localhost : SocketAddr := .v4 ⟨127, 0, 0, 1⟩ 80

/-- Every address that is one may resolve to something. -/
theorem exists_resolved (haddr : addr.1 ≠ .none) :
    ∃ x addrs, (resolveDns (some [localhost]) addr.1.onWire).getD [] = x :: addrs := by
  obtain ⟨address, hwire⟩ := addr
  cases address with
  | none => exact absurd rfl haddr
  | domainAddress domain port => exact ⟨localhost, [], rfl⟩
  | socketAddress socket => cases socket <;> exact ⟨_, [], rfl⟩

/-- The server has come to `exchange_tcp`. -/
theorem exchanging_of_still (haddr : addr.1 ≠ .none) (hs : s.Sound addr w) (hrun : s.relay.Running)
    (h : Machine.Still (Works w) s) : s.relay.server = .exchanging := by
  cases hserver : s.relay.server with
  | exchanging => rfl
  | ended => exact absurd hserver hrun.server
  | accepting p => exact absurd hserver (not_accepting hs hrun h p)
  | resolving a =>
    exfalso
    obtain ⟨rfl, -⟩ := hs.relay.inv.trying.resolving a hserver
    obtain ⟨x, addrs, hdns⟩ := exists_resolved haddr
    have hstep : s.relay.step (.resolve (some [localhost])) =
        { s.relay with server := .connecting (x :: addrs), answer := some [localhost] } := by
      simp only [TcpRelay.step, TcpRelay.resolve, hserver, hdns]
    have hidle := idle_of_still h _ hstep id ⟨hrun.client, by simp, by simp, hrun.relay⟩ hs.fits
    have := congrArg TcpRelay.server hidle
    rw [hserver] at this
    cases this
  | connecting addrs =>
    exfalso
    cases addrs with
    | nil => exact hrun.addresses hserver
    | cons a addrs =>
      have hstep : s.relay.step (.tryConnect .connected) =
          { s.relay with server := .exchanging, attempts := s.relay.attempts ++ [a] } := by
        simp only [TcpRelay.step, TcpRelay.tryConnect, hserver]
      have hidle := idle_of_still h _ hstep id ⟨hrun.client, by simp, by simp, hrun.relay⟩ hs.fits
      have := congrArg TcpRelay.server hidle
      rw [hserver] at this
      cases this

/-- So the header is through, and the client copies. -/
theorem copying_of_still (hs : s.Sound addr w) (hrun : s.relay.Running) (h : Machine.Still (Works w) s)
    (hserver : s.relay.server = .exchanging) : s.relay.client = .copying := by
  cases hclient : s.relay.client with
  | copying => rfl
  | ended => exact absurd hclient hrun.client
  | replying => exact absurd hclient (not_replying hs hrun h)
  | marshalling todo =>
    exfalso
    obtain ⟨rest, copied, hup⟩ := hs.relay.inv.up
    have htodo := hup.header hrun.client
    have hcopied := hup.reads.sent_of_running (by simp [hserver]) hrun.server
    obtain rfl : rest = [] := by
      by_contra hrest
      have happ := hup.app
      rw [hup.untouched (.inr hrest)] at happ
      have hnil : copied = [] := (List.append_eq_nil_iff.1 (List.self_eq_append_left.1 happ)).1
      rw [hnil] at hcopied
      exact hrest (List.append_eq_nil_iff.1 (List.append_eq_nil_iff.1 hcopied.symm).2).2
    rw [hclient] at htodo
    obtain rfl : todo = [] := htodo
    have hstep : s.relay.step (.writeHeader 0) = { s.relay with client := .replying } := by
      simp [TcpRelay.step, TcpRelay.writeHeader, hclient]
    have hidle := idle_of_still h _ hstep id ⟨by simp, hrun.server, hrun.addresses, hrun.relay⟩ hs.fits
    have := congrArg TcpRelay.client hidle
    rw [hclient] at this
    cases this

/-- Where the program has taken all, nothing is on its way to it from the server. -/
theorem down_of_still (hs : s.Sound addr w) (hrun : s.relay.Running) (h : Machine.Still (Works w) s)
    (hclient : s.relay.client = .copying) : s.relay.downBuf = [] ∧ s.relay.down.bytes = [] := by
  obtain ⟨hup, hdown, htarget, -, hcopy, hcopyDown⟩ := hs.fits
  have happ := (taken_of_still hrun h).2
  have hbuf : s.relay.downBuf = [] := by
    have hstep : s.relay.step (.writeApp 1) = { s.relay with
        toApp := s.relay.toApp ++ s.relay.downBuf.take 1, downBuf := s.relay.downBuf.drop 1 } := by
      simp only [TcpRelay.step, TcpRelay.writeApp, hclient]
    have hroom : ((s.relay.toApp ++ s.relay.downBuf.take 1).drop s.appTaken).length ≤ w.app := by
      have hwaits := congrArg List.length happ
      have hpos := w.app.pos
      simp only [atApp, List.length_drop, List.length_nil, List.length_append, List.length_take] at hwaits ⊢
      omega
    have hidle := idle_of_still h _ hstep id ⟨hrun.client, hrun.server, hrun.addresses, hrun.relay⟩
      ⟨hup, hdown, htarget, hroom, hcopy, by simpa using hcopyDown.trans (Nat.le_succ _)⟩
    exact eq_nil_of_drop (congrArg TcpRelay.downBuf hidle)
  refine ⟨hbuf, ?_⟩
  have hreset := hs.relay.unbroken.down hrun.server
  have hstep : s.relay.step (.readDown 1) = { s.relay with
      downBuf := s.relay.downBuf ++ s.relay.down.bytes.take 1
      down := { s.relay.down with bytes := s.relay.down.bytes.drop 1 } } := by
    simp [TcpRelay.step, TcpRelay.readDown, hclient, Flow.take, Flow.drop, hreset]
  have hroom : (s.relay.downBuf ++ s.relay.down.bytes.take 1).length ≤ w.copy := by
    rw [hbuf, List.nil_append]
    exact (List.length_take_le 1 _).trans w.copy.pos
  have hless : (s.relay.down.bytes.drop 1).length ≤ w.down := by
    rw [List.length_drop]
    omega
  have hidle := idle_of_still h _ hstep id ⟨hrun.client, hrun.server, hrun.addresses, hrun.relay⟩
    ⟨hup, hless, htarget, hs.fits.2.2.2.1, hcopy, hroom⟩
  exact eq_nil_of_drop (congrArg (fun s => s.down.bytes) hidle)

theorem write_phase {relay : Exchange} {source : End} {rest : List UInt8} (hphase : relay.phase = .writing source rest) :
    (relay.write 1).phase ≠ relay.phase ∧ ∀ failed, (relay.write 1).phase ≠ .returned failed := by
  simp only [Exchange.write, hphase]
  split_ifs with hdone
  · exact ⟨by simp, by simp⟩
  · refine ⟨fun heq => hdone ?_, by simp⟩
    have hrest := (Server.Exchanging.writing.inj heq).2
    exact hrest.trans (eq_nil_of_drop hrest)

/-- A write of one byte reads nothing. -/
theorem write_one (relay : Exchange) (k : End) : ((relay.write 1).dirs k).unread = (relay.dirs k).unread ∧
    ∃ more, more.length ≤ 1 ∧ ((relay.write 1).dirs k).written = (relay.dirs k).written ++ more := by
  unfold Exchange.write
  split
  · rename_i source rest hphase
    by_cases hk : k = source
    · subst hk
      exact ⟨by simp [Exchange.put], rest.take 1, List.length_take_le 1 rest, by simp [Exchange.put]⟩
    · exact ⟨by simp [Exchange.put, hk], [], Nat.zero_le 1, by simp [Exchange.put, hk]⟩
  · exact ⟨rfl, [], Nat.zero_le 1, (List.append_nil _).symm⟩

/-- A read of one byte writes nothing. -/
theorem read_one {relay : Exchange} {source : End} (hphase : relay.phase = .selecting)
    (hunread : (relay.dirs source).unread ≠ []) :
    (relay.read source 1).phase = .writing source ((relay.dirs source).unread.take 1) ∧
      ∀ k, ((relay.read source 1).dirs k).written = (relay.dirs k).written ∧
        ((relay.read source 1).dirs k).unread.length ≤ (relay.dirs k).unread.length := by
  have htakes : 0 < 1 ∧ 1 ≤ Server.bufferSize ∧ 1 ≤ (relay.dirs source).unread.length :=
    ⟨Nat.one_pos, by decide, List.length_pos_iff.2 hunread⟩
  have hread : relay.read source 1 = { relay.put source { relay.dirs source with
      unread := (relay.dirs source).unread.drop 1, num := (relay.dirs source).num + 1 } with
      phase := .writing source ((relay.dirs source).unread.take 1) } := by
    simp only [Exchange.read, hphase, hunread, htakes, ne_eq, not_true_eq_false, if_false, and_self, if_true]
  rw [hread]
  refine ⟨rfl, fun k => ?_⟩
  by_cases hk : k = source
  · subst hk
    simp [Exchange.put]
  · simp [Exchange.put, hk]

/-- Where the target has taken all and the stream to the client is empty, `exchange_tcp` has written
all that it read, and reads. -/
theorem selecting_of_still (hs : s.Sound addr w) (hrun : s.relay.Running) (h : Machine.Still (Works w) s)
    (hserver : s.relay.server = .exchanging) (hdown : s.relay.down.bytes = []) :
    s.relay.relay.phase = .selecting ∧ ∀ source, (s.relay.relay.dirs source).unread = [] := by
  obtain ⟨hup, hless, htarget, happ, hcopy⟩ := hs.fits
  have htaken := (taken_of_still hrun h).1
  have hstep (a : ExchangeStep) (hother : a = .write 1 ∨ ∃ source num, a = .read source num) :
      s.relay.step (.exchange a) = { s.relay with
        relay := s.relay.relay.step a
        down := s.relay.down.write (((s.relay.relay.step a).dirs .b).written.drop
          (s.relay.relay.dirs .b).written.length) } := by
    rcases hother with rfl | ⟨source, num, rfl⟩ <;> simp only [TcpRelay.step, TcpRelay.exchange, hserver]
  have hselecting : s.relay.relay.phase = .selecting := by
    cases hphase : s.relay.relay.phase with
    | selecting => rfl
    | returned failed => exact absurd hphase (hrun.relay failed)
    | writing source rest =>
      exfalso
      obtain ⟨hmoves, hgoes⟩ := write_phase hphase
      refine hmoves (congrArg (fun s => s.relay.phase) (idle_of_still h _ (hstep _ (.inl rfl)) id
        ⟨hrun.client, hrun.server, hrun.addresses, hgoes⟩ ⟨?_, ?_, ?_, happ, hcopy⟩))
      · simpa only [TcpRelay.onStream, Exchange.step, (write_one s.relay.relay .a).1] using hup
      · obtain ⟨-, more, hmore, hwritten⟩ := write_one s.relay.relay .b
        simp only [Exchange.step, hwritten, List.drop_left, Flow.write_bytes, hdown, List.nil_append]
        exact hmore.trans w.down.pos
      · obtain ⟨-, more, hmore, hwritten⟩ := write_one s.relay.relay .a
        have hwaits := congrArg List.length htaken
        have hpos := w.target.pos
        simp only [atTarget, TcpRelay.toTarget, Exchange.step, hwritten, List.length_drop, List.length_append,
          List.length_nil] at hwaits ⊢
        omega
  refine ⟨hselecting, fun source => ?_⟩
  by_contra hunread
  obtain ⟨hphase, hread⟩ := read_one hselecting hunread
  have hidle := idle_of_still h _ (hstep _ (.inr ⟨source, 1, rfl⟩)) id
    ⟨hrun.client, hrun.server, hrun.addresses, by simp [Exchange.step, hphase]⟩ ⟨?_, ?_, ?_, happ, hcopy⟩
  · have hsame := congrArg (fun s => s.relay.phase) hidle
    simp [Exchange.step, hphase, hselecting] at hsame
  · have hload := (hread .a).2
    simp only [TcpRelay.onStream, Exchange.step] at hup ⊢
    omega
  · simpa only [Exchange.step, (hread .b).1, List.drop_length, Flow.write_nil] using hless
  · simpa only [atTarget, TcpRelay.toTarget, Exchange.step, (hread .a).1] using htarget

theorem arrive_dirs (relay : Exchange) (bytes : List UInt8) :
    ((relay.step (.arrive .a bytes)).dirs .a).written = (relay.dirs .a).written ∧
      ((relay.step (.arrive .a bytes)).dirs .a).unread.length ≤ bytes.length + (relay.dirs .a).unread.length := by
  simp only [Exchange.step, Exchange.put, Function.update_self, Server.Direction.arrive]
  split_ifs
  · exact ⟨rfl, Nat.le_add_left _ _⟩
  · exact ⟨rfl, by rw [List.length_append, Nat.add_comm]⟩

/-- Where the server has read all that was on the stream, the client has written all that it had. -/
theorem up_of_still (hs : s.Sound addr w) (hrun : s.relay.Running) (h : Machine.Still (Works w) s)
    (hserver : s.relay.server = .exchanging) (hclient : s.relay.client = .copying)
    (hunread : (s.relay.relay.dirs .a).unread = []) :
    s.relay.up.bytes = [] ∧ s.relay.upBuf = [] ∧ s.relay.appUnread = [] := by
  obtain ⟨hup, hdown, htarget, happ, hcopy, hcopyDown⟩ := hs.fits
  have hbytes : s.relay.up.bytes = [] := by
    have hstep : s.relay.step (.deliver s.relay.up.bytes.length) = { s.relay with
        relay := s.relay.relay.step (.arrive .a s.relay.up.bytes), up := { s.relay.up with bytes := [] } } := by
      simp [TcpRelay.step, TcpRelay.deliver, hserver, Flow.take, Flow.drop, hs.relay.unbroken.up hrun.client]
    have hidle := idle_of_still h _ hstep id ⟨hrun.client, hrun.server, hrun.addresses, hrun.relay⟩
      ⟨?_, hdown, ?_, happ, hcopy, hcopyDown⟩
    · exact (congrArg (fun s => s.up.bytes) hidle).symm
    · have hload := (arrive_dirs s.relay.relay s.relay.up.bytes).2
      simp only [TcpRelay.onStream, List.length_nil] at hup ⊢
      omega
    · simpa only [atTarget, TcpRelay.toTarget, (arrive_dirs s.relay.relay s.relay.up.bytes).1] using htarget
  have hbuf : s.relay.upBuf = [] := by
    have hstep : s.relay.step (.writeUp 1) = { s.relay with
        up := s.relay.up.write (s.relay.upBuf.take 1), upBuf := s.relay.upBuf.drop 1 } := by
      simp only [TcpRelay.step, TcpRelay.writeUp, hclient]
    have hroom : (s.relay.upBuf.take 1).length ≤ w.up := (List.length_take_le 1 _).trans w.up.pos
    have hidle := idle_of_still h _ hstep id ⟨hrun.client, hrun.server, hrun.addresses, hrun.relay⟩
      ⟨by simpa [TcpRelay.onStream, hbytes, hunread] using hroom, hdown, htarget, happ,
        by simpa using hcopy.trans (Nat.le_succ _), hcopyDown⟩
    exact eq_nil_of_drop (congrArg TcpRelay.upBuf hidle)
  refine ⟨hbytes, hbuf, ?_⟩
  have hstep : s.relay.step (.readApp 1) = { s.relay with
      upBuf := s.relay.upBuf ++ s.relay.appUnread.take 1, appUnread := s.relay.appUnread.drop 1 } := by
    simp only [TcpRelay.step, TcpRelay.readApp, hclient]
  have hroom : (s.relay.upBuf ++ s.relay.appUnread.take 1).length ≤ w.copy := by
    rw [hbuf, List.nil_append]
    exact (List.length_take_le 1 _).trans w.copy.pos
  have hidle := idle_of_still h _ hstep id ⟨hrun.client, hrun.server, hrun.addresses, hrun.relay⟩
    ⟨hup, hdown, htarget, happ, hroom, hcopyDown⟩
  exact eq_nil_of_drop (congrArg TcpRelay.appUnread hidle)

/-- Where both sides are running and nothing is left to do, each has been sent all and has taken it. -/
theorem delivered_of_still (haddr : addr.1 ≠ .none) (hs : s.Sound addr w) (hrun : s.relay.Running)
    (h : Machine.Still (Works w) s) : s.Delivered s := by
  have hserver := exchanging_of_still haddr hs hrun h
  have hclient := copying_of_still hs hrun h hserver
  obtain ⟨htarget, happ⟩ := taken_of_still hrun h
  obtain ⟨hdownBuf, hdown⟩ := down_of_still hs hrun h hclient
  obtain ⟨hselecting, hread⟩ := selecting_of_still hs hrun h hserver hdown
  obtain ⟨hup, hupBuf, hunread⟩ := up_of_still hs hrun h hserver hclient (hread .a)
  have hshows := hs.relay.inv.shows
  exact ⟨⟨hshows.upDrained ⟨⟨hunread, hupBuf⟩, hup, hread .a, .inl hselecting⟩, htarget⟩,
    ⟨hshows.downDrained ⟨hread .b, .inl hselecting, hdown, hdownBuf⟩, happ⟩⟩

theorem reachable_exec (h : (windowedRelay addr w).Reachable s) (steps : List WindowedStep) :
    (windowedRelay addr w).Reachable ((windowedRelay addr w).exec s steps) := by
  obtain ⟨before, rfl⟩ := h
  exact ⟨before ++ steps, (windowedRelay addr w).exec_append _ _ _⟩

end WindowedRelay

/-- From every state in which both sides are running, the connection relays by itself all that
it has, whatever order its steps come in and however little room there is. -/
theorem WindowedRelay.delivers (addr : WireAddress) (w : Windows) (haddr : addr.1 ≠ .none) (s : WindowedRelay)
    (hreach : (windowedRelay addr w).Reachable s) (hrun : s.relay.Running) : s.Delivers addr w := by
  have hends := terminates_of_sound (sound_of_reachable hreach)
  have hdelivered (steps : List WindowedStep) (hkeeps : (windowedRelay addr w).Keeps (Works w) s steps)
      (hstill : Machine.Still (Works w) ((windowedRelay addr w).exec s steps)) :
      s.Delivered ((windowedRelay addr w).exec s steps) := by
    obtain ⟨hrunning, happ, htarget⟩ := keeps_running hrun hkeeps
    have hall := delivered_of_still haddr (sound_of_reachable (reachable_exec hreach steps)) hrunning hstill
    exact ⟨⟨hall.target.1.trans happ, hall.target.2⟩, ⟨hall.app.1.trans htarget, hall.app.2⟩⟩
  obtain ⟨steps, hkeeps, hstill⟩ := hends.exists_still
  exact ⟨hends, hdelivered, steps, hkeeps, hdelivered steps hkeeps hstill⟩

def webServer : WireAddress := ⟨.socketAddress (.v4 ⟨10, 0, 0, 1⟩ 80), trivial⟩

/-- Less room than the header needs. -/
def narrow : Windows := ⟨4, 2, 1, 1, 1⟩

/-- The program has sent two bytes, and the server has read a piece of the header; then the stream is full. -/
def cutHeader : List WindowedStep :=
  [.relay (.appSends [7, 8]), .relay (.writeHeader 4),
    .relay (.pollHeader [.chunk [5, 1, 1] (List.cons_ne_nil _ _), .pending]), .relay (.writeHeader 3)]

theorem WindowedRelay.delivers_cutHeader :
    ((windowedRelay webServer narrow).exec (.init webServer) cutHeader).Delivers webServer narrow ∧
      ((windowedRelay webServer narrow).exec (.init webServer) cutHeader).relay.onStream = 4 :=
  ⟨WindowedRelay.delivers webServer narrow (fun h => by cases h) _ ⟨cutHeader, rfl⟩
    ⟨fun h => (by cases h), fun h => (by cases h), fun h => (by cases h), fun _ h => (by cases h)⟩, by decide⟩

end Tuic
