import Tuic.Proofs.TcpRelay
import Tuic.Spec.Backpressure

/-! What is left to do of a relayed TCP connection. Each byte has so many hops before it, and
every step that does something takes a byte over one or comes closer to the first. -/

namespace Tuic.Server

/-! ### `exchange_tcp` -/

/-- What is written for an end counts for less than before it was read, and the write itself. -/
def Exchanging.left : Exchanging → ℕ
  | writing .a rest => 2 * rest.length + 1
  | writing .b rest => 5 * rest.length + 1
  | _ => 0

def Exchange.left (s : Exchange) : ℕ :=
  4 * (s.dirs .a).unread.length + 7 * (s.dirs .b).unread.length +
    (if (s.dirs .a).finished then 0 else 1) + s.phase.left

section

variable {s s' : Exchange} {a : ExchangeStep}

theorem put_self (s : Exchange) (source : End) : s.put source (s.dirs source) = s := by
  simp [Exchange.put]

/-- A step does nothing, or returns, or takes bytes on; what it writes for the target has a hop
left to the client. -/
theorem left_step (harrive : ∀ source bytes, a ≠ .arrive source bytes) (hfinish : a ≠ .finish .b) :
    s.step a = s ∨ (∃ failed, (s.step a).phase = .returned failed) ∨
      (s.step a).left + 4 * ((s.step a).dirs .b).written.length < s.left + 4 * (s.dirs .b).written.length := by
  have he := step_exchangeEffect s a
  generalize hs' : s.step a = s' at he ⊢
  cases he with
  | arrived source bytes unfinished => exact absurd rfl (harrive source bytes)
  | finished source =>
    cases source with
    | b => exact absurd rfl hfinish
    | a =>
      cases hfin : (s.dirs .a).finished with
      | true =>
        left
        have hsame : ({ s.dirs .a with finished := true } : Direction) = s.dirs .a := by rw [← hfin]
        rw [hsame, put_self]
      | false =>
        right; right
        simp [Exchange.left, Exchange.put, hfin]
  | took source num selecting =>
    right; right
    obtain ⟨-, -, hpos, -, hle⟩ := takes_of_read selecting (congrArg Exchange.phase hs')
    cases source with
    | a =>
      simp [Exchange.left, Exchanging.left, selecting]
      omega
    | b =>
      simp [Exchange.left, Exchanging.left, selecting]
      omega
  | ended source num sees => exact .inr (.inl ⟨false, rfl⟩)
  | wrote source num rest writing =>
    by_cases hdone : rest.drop num = []
    · right; right
      have hlen : rest.length ≤ num := by simpa using hdone
      cases source with
      | a => simp [Exchange.left, Exchanging.left, writing, hdone]
      | b =>
        simp [Exchange.left, Exchanging.left, writing, hdone]
        omega
    · cases num with
      | zero =>
        left
        simp only [List.take_zero, List.append_nil, List.drop_zero] at hdone ⊢
        rw [if_neg hdone, put_self, ← writing]
      | succ num =>
        right; right
        have hlen : num + 1 < rest.length := by simpa using hdone
        cases source with
        | a =>
          simp [Exchange.left, Exchanging.left, writing, hlen.not_ge]
          omega
        | b =>
          simp [Exchange.left, Exchanging.left, writing, hlen.not_ge]
          omega
  | failed => exact .inr (.inl ⟨true, rfl⟩)
  | idle => exact .inl rfl

end

end Tuic.Server

namespace Tuic

open Lib Quinn
open Server (End Exchange ExchangeStep)

@[simp] theorem Flow.drop_reset (self : Flow) (num : ℕ) : (self.drop num).reset = self.reset := by
  unfold drop
  split_ifs <;> rfl

@[simp] theorem Flow.write_nil (self : Flow) : self.write [] = self := by
  simp [write]

theorem Flow.drop_of_take {self : Flow} {num : ℕ} (h : self.take num = []) : self.drop num = self := by
  have hbytes := self.take_append_drop num
  rw [h, List.nil_append] at hbytes
  unfold drop at hbytes ⊢
  split_ifs at hbytes ⊢
  · rfl
  · dsimp only at hbytes
    rw [hbytes]

def Flow.unfinished (self : Flow) : ℕ := if self.finished then 0 else 1

@[simp] theorem Flow.write_unfinished (self : Flow) (bytes : List UInt8) :
    (self.write bytes).unfinished = self.unfinished := rfl

@[simp] theorem Flow.drop_unfinished (self : Flow) (num : ℕ) : (self.drop num).unfinished = self.unfinished := by
  rw [unfinished, drop_finished, unfinished]

/-- What is left to do of `handle_connect`, a byte of the header counting for more than one on
the stream. -/
def ClientConnect.left : ClientConnect → ℕ
  | marshalling rest => 6 * rest.length + 2
  | replying => 1
  | _ => 0

/-- The resolver may answer with any number of addresses. -/
def ServerConnect.stage : ServerConnect → ℕ
  | accepting _ => 2
  | resolving _ => 1
  | _ => 0

def ServerConnect.left : ServerConnect → ℕ
  | connecting addrs => addrs.length + 1
  | _ => 0

namespace TcpRelay

variable {addr : WireAddress} {s s' : TcpRelay} {a : TcpStep}

/-! ### What is not broken -/

/-- A stream is reset by an end that has ended, and a poll waits for bytes. -/
structure Unbroken (s : TcpRelay) : Prop where
  up : s.client ≠ .ended → s.up.reset = false
  down : s.server ≠ .ended → s.down.reset = false
  reading : ∀ p, s.server = .accepting p → p.Waits

theorem Unbroken.client (h : s.Unbroken) (he : ClientEffect s s') : s'.Unbroken := by
  cases he with
  | idle => exact h
  | sent => exact ⟨h.up, h.down, h.reading⟩
  | finished => exact ⟨h.up, h.down, h.reading⟩
  | wroteHeader rest num client marshalling => exact ⟨fun _ => h.up (by simp [marshalling]), h.down, h.reading⟩
  | replied replying => exact ⟨fun _ => h.up (by simp [replying]), h.down, h.reading⟩
  | readApp => exact ⟨h.up, h.down, h.reading⟩
  | wroteUp => exact ⟨h.up, h.down, h.reading⟩
  | finishedUp => exact ⟨h.up, h.down, h.reading⟩
  | readDown num => exact ⟨h.up, fun hserver => (s.down.drop_reset num).trans (h.down hserver), h.reading⟩
  | wroteApp => exact ⟨h.up, h.down, h.reading⟩
  | ended => exact ⟨fun hne => absurd rfl hne, h.down, h.reading⟩
  | dropped => exact ⟨fun hne => absurd rfl hne, h.down, h.reading⟩

theorem Unbroken.server (h : s.Unbroken) (he : ServerEffect s s') : s'.Unbroken := by
  cases he with
  | idle => exact h
  | ended => exact ⟨h.up, fun hne => absurd rfl hne, by simp⟩
  | polled p p' meets left server accepting met poll after =>
    refine ⟨h.up, fun _ => h.down (by simp [accepting]), ?_⟩
    cases after with
    | pending room got next =>
      intro q hq
      cases hq
      rcases p.waits_of_poll meets poll with hwaits | ⟨res, hres⟩
      · exact hwaits
      · cases hres
    | connect conn => simp
    | refused res other => simp
  | resolved a dns resolving => exact ⟨h.up, fun _ => h.down (by simp [resolving]), by simp⟩
  | tried a addrs connecting server next =>
    refine ⟨h.up, fun _ => h.down (by simp [connecting]), ?_⟩
    rcases next with rfl | rfl <;> simp
  | dropped => exact ⟨h.up, fun hne => absurd rfl hne, by simp⟩
  | unreached => exact ⟨h.up, fun hne => absurd rfl hne, by simp⟩
  | delivered num exchanging =>
    exact ⟨fun hclient => (s.up.drop_reset num).trans (h.up hclient), h.down, by simp [exchanging]⟩
  | exchanged a more exchanging => exact ⟨h.up, h.down, by simp [exchanging]⟩
  | aborted => exact ⟨h.up, fun hne => absurd rfl hne, by simp⟩
  | returned => exact ⟨h.up, fun hne => absurd rfl hne, by simp⟩

theorem Unbroken.step (h : s.Unbroken) (a : TcpStep) : (s.step a).Unbroken := by
  rcases s.step_effect a with he | he
  · exact h.client he
  · exact h.server he

theorem unbroken_init (addr : WireAddress) : (init addr).Unbroken :=
  ⟨fun _ => rfl, fun _ => rfl, fun p hp => by cases hp; exact Nat.succ_pos 0⟩

/-! ### What is left to do -/

def left (s : TcpRelay) : ℕ :=
  s.client.left + 7 * s.appUnread.length + 6 * s.upBuf.length + 5 * s.up.bytes.length +
    s.up.unfinished + s.server.left + s.relay.left + 4 * s.down.bytes.length + 3 * s.downBuf.length

def Less (s' s : TcpRelay) : Prop :=
  s'.server.stage < s.server.stage ∨ s'.server.stage = s.server.stage ∧ s'.left < s.left

theorem drop_of_take {num : ℕ} {xs : List UInt8} (h : xs.take num = []) : xs.drop num = xs := by
  simpa [h] using List.take_append_drop num xs

/-- The bytes that a step takes, and those it leaves. -/
theorem length_take_drop (num : ℕ) (xs : List UInt8) : (xs.take num).length + (xs.drop num).length = xs.length := by
  rw [← List.length_append, List.take_append_drop]

theorem Flow.length_take_drop (f : Flow) (num : ℕ) :
    (f.take num).length + (f.drop num).bytes.length = f.bytes.length := by
  rw [← List.length_append, Flow.take_append_drop]

theorem writeHeader_less (s : TcpRelay) (num : ℕ) : s.writeHeader num = s ∨ (s.writeHeader num).Less s := by
  unfold writeHeader
  split
  case h_2 => exact .inl rfl
  case h_1 rest hclient =>
    have hlen := length_take_drop num rest
    by_cases hdone : rest.drop num = []
    · refine .inr (.inr ⟨rfl, ?_⟩)
      rw [hdone] at hlen
      simp only [left, hclient, hdone, if_true, ClientConnect.left, Flow.write_bytes, Flow.write_unfinished,
        List.length_append, List.length_nil] at hlen ⊢
      omega
    · cases htake : rest.take num with
      | nil =>
        left
        rw [if_neg hdone, Flow.write_nil, drop_of_take htake, ← hclient]
      | cons x xs =>
        refine .inr (.inr ⟨rfl, ?_⟩)
        rw [htake, List.length_cons] at hlen
        simp only [left, hclient, hdone, if_false, ClientConnect.left, Flow.write_bytes, Flow.write_unfinished,
          List.length_append, List.length_cons]
        omega

theorem reply_less (s : TcpRelay) : s.reply = s ∨ s.reply.Less s := by
  unfold reply
  split
  case h_2 => exact .inl rfl
  case h_1 hclient =>
    refine .inr (.inr ⟨rfl, ?_⟩)
    simp only [left, hclient, ClientConnect.left]
    omega

theorem readApp_less (s : TcpRelay) (num : ℕ) : s.readApp num = s ∨ (s.readApp num).Less s := by
  unfold readApp
  split
  case h_2 => exact .inl rfl
  case h_1 hclient =>
    have hlen := length_take_drop num s.appUnread
    cases htake : s.appUnread.take num with
    | nil =>
      left
      rw [drop_of_take htake, List.append_nil]
    | cons x xs =>
      refine .inr (.inr ⟨rfl, ?_⟩)
      rw [htake, List.length_cons] at hlen
      simp only [left, List.length_append, List.length_cons]
      omega

theorem writeUp_less (s : TcpRelay) (num : ℕ) : s.writeUp num = s ∨ (s.writeUp num).Less s := by
  unfold writeUp
  split
  case h_2 => exact .inl rfl
  case h_1 hclient =>
    have hlen := length_take_drop num s.upBuf
    cases htake : s.upBuf.take num with
    | nil =>
      left
      rw [drop_of_take htake, Flow.write_nil]
    | cons x xs =>
      refine .inr (.inr ⟨rfl, ?_⟩)
      rw [htake, List.length_cons] at hlen
      simp only [left, Flow.write_bytes, Flow.write_unfinished, List.length_append, List.length_cons]
      omega

theorem finishUp_less (s : TcpRelay) : s.finishUp = s ∨ s.finishUp.Less s := by
  unfold finishUp
  split
  case h_2 => exact .inl rfl
  case h_1 hclient =>
    split_ifs with hthrough
    · cases hfin : s.up.finished with
      | true =>
        left
        have hsame : s.up.finish = s.up := by rw [Flow.finish, ← hfin]
        rw [hsame]
      | false =>
        refine .inr (.inr ⟨rfl, ?_⟩)
        simp only [left, Flow.unfinished, Flow.finish, hfin, if_true, Bool.false_eq_true, if_false]
        omega
    · exact .inl rfl

theorem readDown_less (s : TcpRelay) (num : ℕ) : s.readDown num = s ∨ (s.readDown num).Less s := by
  unfold readDown
  split
  case h_2 => exact .inl rfl
  case h_1 hclient =>
    have hlen := Flow.length_take_drop s.down num
    cases htake : s.down.take num with
    | nil =>
      left
      rw [Flow.drop_of_take htake, List.append_nil]
    | cons x xs =>
      refine .inr (.inr ⟨rfl, ?_⟩)
      rw [htake, List.length_cons] at hlen
      simp only [left, List.length_append, List.length_cons]
      omega

theorem writeApp_less (s : TcpRelay) (num : ℕ) : s.writeApp num = s ∨ (s.writeApp num).Less s := by
  unfold writeApp
  split
  case h_2 => exact .inl rfl
  case h_1 hclient =>
    have hlen := length_take_drop num s.downBuf
    cases htake : s.downBuf.take num with
    | nil =>
      left
      rw [drop_of_take htake, List.append_nil]
    | cons x xs =>
      refine .inr (.inr ⟨rfl, ?_⟩)
      rw [htake, List.length_cons] at hlen
      simp only [left]
      omega

/-- A poll that runs into the end of the stream ends the server. -/
theorem pollHeader_less (h : s.Unbroken) (meets : ByteStream) (hrun : (s.pollHeader meets).Running) :
    s.pollHeader meets = s ∨ (s.pollHeader meets).Less s := by
  unfold pollHeader at hrun ⊢
  split at hrun
  case h_2 => exact .inl rfl
  case h_1 p hserver =>
    split_ifs at hrun ⊢ with hmeets
    · obtain ⟨⟨more, hmore⟩, -⟩ := hmeets
      have hpoll := (h.reading p hserver).poll meets
      generalize p.poll meets = res at hpoll hrun ⊢
      obtain ⟨p', rest⟩ := res
      dsimp only at hpoll hrun ⊢
      split at hrun
      · split at hrun
        · exact .inr (.inl (by simp [hserver, ServerConnect.stage]))
        · exact absurd rfl hrun.server
      · exact absurd rfl hrun.server
      · rename_i hready
        rcases hpoll with rfl | hless | ⟨rfl, hbytes⟩
        · exact absurd rfl (hready _)
        · refine .inr (.inr ⟨by simp [hserver, ServerConnect.stage], ?_⟩)
          have hlen := congrArg List.length hmore
          simp only [left, hserver, ServerConnect.left, Flow.unfinished, List.length_append, List.length_drop] at hlen ⊢
          omega
        · left
          rw [hbytes, ← hmore, List.drop_left, hmore, ← hserver]
    · exact .inl rfl

theorem resolve_less (s : TcpRelay) (dns : Option (List SocketAddr)) : s.resolve dns = s ∨ (s.resolve dns).Less s := by
  unfold resolve
  split
  case h_2 => exact .inl rfl
  case h_1 hserver => exact .inr (.inl (by simp [hserver, ServerConnect.stage]))

theorem tryConnect_less (s : TcpRelay) (tcp : TcpConnect) (hrun : (s.tryConnect tcp).Running) :
    s.tryConnect tcp = s ∨ (s.tryConnect tcp).Less s := by
  unfold tryConnect at hrun ⊢
  split at hrun
  case h_1 addr addrs hserver =>
    cases tcp with
    | nodelayFails => exact absurd rfl hrun.server
    | connected =>
      refine .inr (.inr ⟨by simp [hserver, ServerConnect.stage], ?_⟩)
      simp only [left, hserver, ServerConnect.left]
      omega
    | fails =>
      refine .inr (.inr ⟨by simp [hserver, ServerConnect.stage], ?_⟩)
      simp only [left, hserver, ServerConnect.left, List.length_cons]
      omega
  case h_2 => exact absurd rfl hrun.server
  case h_3 => exact .inl rfl

theorem deliver_less (s : TcpRelay) (num : ℕ) : s.deliver num = s ∨ (s.deliver num).Less s := by
  unfold deliver
  split
  case h_2 => exact .inl rfl
  case h_1 hserver =>
    have hlen := Flow.length_take_drop s.up num
    cases htake : s.up.take num with
    | nil =>
      left
      have hsame : s.relay.step (.arrive .a []) = s.relay := by
        have harrive : (s.relay.dirs .a).arrive [] = s.relay.dirs .a := by simp [Server.Direction.arrive]
        rw [Exchange.step, harrive, Server.put_self]
      rw [Flow.drop_of_take htake, hsame]
    | cons x xs =>
      refine .inr (.inr ⟨rfl, ?_⟩)
      rw [htake, List.length_cons] at hlen
      have harrived : (s.relay.step (.arrive .a (x :: xs))).left ≤ s.relay.left + 4 * (xs.length + 1) := by
        simp only [Exchange.step, Server.Direction.arrive]
        split_ifs with hfin
        · rw [Server.put_self]
          omega
        · simp [Exchange.left, Exchange.put, hfin]
          omega
      simp only [TcpRelay.left, Flow.drop_unfinished]
      omega

theorem exchange_less (s : TcpRelay) (a : ExchangeStep) (hbrings : ¬ (TcpStep.exchange a).Brings)
    (hrun : (s.exchange a).Running) : s.exchange a = s ∨ (s.exchange a).Less s := by
  unfold exchange at hrun ⊢
  split at hrun
  case h_2 => exact .inl rfl
  case h_1 hserver =>
    have hstep := Server.left_step (s := s.relay) (a := a) (fun source bytes heq => hbrings (heq ▸ trivial))
      (fun heq => hbrings (heq ▸ trivial))
    obtain ⟨more, hmore⟩ := Server.written_step (Server.step_exchangeEffect s.relay a) .b
    have hwritten := congrArg List.length hmore
    have hnone : (s.relay.dirs .b).written.drop (s.relay.dirs .b).written.length = [] := by simp
    split at hrun
    · exact .inl rfl
    · split_ifs at hrun ⊢ with hend
      · rcases hstep with hsame | ⟨failed, hreturned⟩ | hless
        · left
          rw [hsame]
        · exact absurd hreturned (hrun.relay failed)
        · refine .inr (.inr ⟨rfl, ?_⟩)
          have hsame : ((s.relay.step (.finish .a)).dirs .b).written = (s.relay.dirs .b).written := by
            simp [Exchange.step]
          rw [hsame] at hless
          simp only [TcpRelay.left]
          omega
      · exact .inl rfl
    · rcases hstep with hsame | ⟨failed, hreturned⟩ | hless
      · left
        dsimp only
        rw [hsame, hnone, Flow.write_nil]
      · exact absurd hreturned (hrun.relay failed)
      · refine .inr (.inr ⟨rfl, ?_⟩)
        dsimp only
        rw [← hmore, List.drop_left]
        rw [List.length_append] at hwritten
        simp only [TcpRelay.left, Flow.write_bytes, List.length_append]
        omega

/-- A step that does something leaves less to do. -/
theorem step_less (h : s.Unbroken) (hbrings : ¬ a.Brings) (hrun : (s.step a).Running) :
    s.step a = s ∨ (s.step a).Less s := by
  cases a with
  | appSends bytes => exact absurd trivial hbrings
  | appFinishes => exact absurd trivial hbrings
  | writeHeader num => exact s.writeHeader_less num
  | reply => exact s.reply_less
  | readApp num => exact s.readApp_less num
  | writeUp num => exact s.writeUp_less num
  | finishUp => exact s.finishUp_less
  | readDown num => exact s.readDown_less num
  | writeApp num => exact s.writeApp_less num
  | finishClient =>
    left
    simp only [step, finishClient] at hrun ⊢
    split at hrun
    · split_ifs at hrun ⊢
      · exact absurd rfl hrun.client
      · rfl
    · rfl
  | failClient =>
    left
    simp only [step, failClient] at hrun ⊢
    split at hrun
    · exact absurd rfl hrun.client
    · rfl
    · exact absurd rfl hrun.client
  | pollHeader meets => exact pollHeader_less h meets hrun
  | resolve dns => exact s.resolve_less dns
  | tryConnect tcp => exact s.tryConnect_less tcp hrun
  | deliver num => exact s.deliver_less num
  | exchange a => exact s.exchange_less a hbrings hrun
  | finishServer =>
    left
    simp only [step, finishServer] at hrun ⊢
    split at hrun
    · exact absurd rfl hrun.server
    · exact absurd rfl hrun.server
    · rfl
  | failServer => exact absurd rfl hrun.server

/-- Nothing comes from outside. -/
theorem brings_step (hbrings : ¬ a.Brings) : (s.step a).fromApp = s.fromApp ∧ (s.step a).fromTarget = s.fromTarget := by
  have htarget (relay : Exchange) (a : ExchangeStep) (harrive : ∀ source bytes, a ≠ .arrive source bytes) :
      ((relay.step a).dirs .b).sent = (relay.dirs .b).sent := by
    rw [Server.sent_step (Server.step_exchangeEffect relay a),
      Server.arrival_eq_nil fun bytes heq => absurd heq (harrive .b bytes), List.append_nil]
  cases a with
  | appSends bytes => exact absurd trivial hbrings
  | appFinishes => exact absurd trivial hbrings
  | deliver num =>
    simp only [step, deliver, fromTarget]
    split
    · exact ⟨rfl, by simp [Exchange.step]⟩
    · exact ⟨rfl, rfl⟩
  | exchange a =>
    have harrive : ∀ source bytes, a ≠ .arrive source bytes := fun source bytes heq => hbrings (heq ▸ trivial)
    simp only [step, exchange, fromTarget]
    split
    · split
      · exact ⟨rfl, rfl⟩
      · split_ifs
        · exact ⟨rfl, htarget _ _ harrive⟩
        · exact ⟨rfl, rfl⟩
      · exact ⟨rfl, htarget _ _ harrive⟩
    · exact ⟨rfl, rfl⟩
  | writeHeader num =>
    simp only [step, writeHeader]
    split <;> exact ⟨rfl, rfl⟩
  | reply =>
    simp only [step, reply]
    split <;> exact ⟨rfl, rfl⟩
  | readApp num =>
    simp only [step, readApp]
    split <;> exact ⟨rfl, rfl⟩
  | writeUp num =>
    simp only [step, writeUp]
    split <;> exact ⟨rfl, rfl⟩
  | finishUp =>
    simp only [step, finishUp]
    split
    · split_ifs <;> exact ⟨rfl, rfl⟩
    · exact ⟨rfl, rfl⟩
  | readDown num =>
    simp only [step, readDown]
    split <;> exact ⟨rfl, rfl⟩
  | writeApp num =>
    simp only [step, writeApp]
    split <;> exact ⟨rfl, rfl⟩
  | finishClient =>
    simp only [step, finishClient]
    split
    · split_ifs <;> exact ⟨rfl, rfl⟩
    · exact ⟨rfl, rfl⟩
  | failClient =>
    simp only [step, failClient]
    split <;> exact ⟨rfl, rfl⟩
  | resolve dns =>
    simp only [step, resolve]
    split <;> exact ⟨rfl, rfl⟩
  | finishServer =>
    simp only [step, finishServer]
    split <;> exact ⟨rfl, rfl⟩
  | pollHeader meets =>
    simp only [step, pollHeader]
    split
    · split_ifs
      · split
        · split <;> exact ⟨rfl, rfl⟩
        · exact ⟨rfl, rfl⟩
        · exact ⟨rfl, rfl⟩
      · exact ⟨rfl, rfl⟩
    · exact ⟨rfl, rfl⟩
  | tryConnect tcp =>
    simp only [step, tryConnect]
    split
    · cases tcp <;> exact ⟨rfl, rfl⟩
    · exact ⟨rfl, rfl⟩
    · exact ⟨rfl, rfl⟩
  | failServer => exact ⟨rfl, rfl⟩

end TcpRelay

end Tuic
