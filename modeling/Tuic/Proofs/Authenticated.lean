import Tuic.Sanity.Connections
import Tuic.Sanity.Online

/-! Who counts as authenticated. Every connection starts with the nil uuid, so nobody
else ever is, and the nil uuid needs not be a user. -/

namespace Tuic.Server

open Lib Model

section

variable {ctx : Context} {s : Connections}

/-- No step panics where the nil user has a counter. -/
theorem step_noPanic (h : s.Initial ctx)
    (hnil : ∀ (c : QuicClient) conn, s.conns[c]? = some conn → nilUuid ∈ ctx.cfg.users.keys)
    (a : ConnectionStep) (p : Panic) : (s.step ctx a).2 ≠ .panic p := by
  have hok : (.ok () : Outcome Error Unit) ≠ .panic p := fun h => by cases h
  have hon : ∀ c f, (∀ conn, s.conns[c]? = some conn → (f conn).2 ≠ .panic p) → (s.on c f).2 ≠ .panic p :=
    fun c f hf => on_induction (P := fun o => o.2 ≠ .panic p) hok hf
  cases a with
  | accept => exact hok
  | elapse d => exact hok
  | request req => exact hok
  | hangUp c => exact hon c _ fun _ _ => hok
  | set c => exact hon c _ fun _ _ => hok
  | relay c tx rx => exact hon c _ fun _ _ => hok
  | authenticate c auth =>
    refine hon c _ fun conn hc => ?_
    unfold Connections.authenticate
    rw [authenticate_nilAuth (h.nilAuth c conn hc)]
    exact fun h => by cases h
  | timeoutAuthenticate c =>
    refine hon c _ fun conn hc => ?_
    have hcounter : nilUuid ∈ s.restful.onlineCounter.keys := h.covers.counter ▸ hnil c conn hc
    obtain ⟨r, hr⟩ := clientConnect_total ctx.cfg c hcounter
    split
    · simp [Connections.timeoutAuthenticate, (h.nilAuth c conn hc).1, hr]
    · exact hok
  | collectGarbage c =>
    refine hon c _ fun conn hc => ?_
    have hcounter : nilUuid ∈ s.restful.onlineCounter.keys := h.covers.counter ▸ hnil c conn hc
    obtain ⟨r, hr⟩ := clientDisconnect_total ctx.cfg c hcounter
    split
    · simp only [Connections.collectGarbage, (h.nilAuth c conn hc).1, hr]
      split <;> exact hok
    · exact hok

end

/-- There are no connections before the first is accepted. -/
theorem accepted_of_conn {ctx : Context} {steps : List ConnectionStep} {n : ℕ} (hn : n ≤ steps.length)
    {c : QuicClient} {conn : Connection}
    (hc : ((connections ctx).stateAt steps n).conns[c]? = some conn) : .accept ∈ steps := by
  by_contra hnone
  have hrun := Machine.run_invariant (m := connections ctx) steps
    (P := fun _ s => s.conns.length = 0) rfl (fun i a ha hs =>
      (step_length fun haccept => hnone (haccept ▸ List.mem_of_getElem? ha)).trans hs) n hn
  exact absurd (Pool.lt_of_eq_some hc) (by omega)

/-- Whoever is authenticated on a server that accepts connections is a user exactly
if the nil uuid is. -/
theorem authenticated_iff (ctx : Context) (steps : List ConnectionStep) :
    Identifies ctx steps ↔ (.accept ∈ steps → nilUuid ∈ ctx.cfg.users.keys) := by
  have hinitial := connections_initial ctx steps
  constructor
  · intro h haccept
    obtain ⟨i, hi⟩ := List.mem_iff_getElem?.1 haccept
    have hlt := (List.getElem?_eq_some_iff.1 hi).1
    have hnew : ((connections ctx).stateAt steps (i + 1)).conns[
        ((connections ctx).stateAt steps i).conns.length]? =
        some (.new ctx.cfg ((connections ctx).stateAt steps i).clock) := by
      rw [(connections ctx).stateAt_succ hi]
      exact Pool.concat_eq_some.2 (.inr ⟨rfl, rfl⟩)
    exact (h.known (i + 1) hlt _ _ nilUuid hnew rfl).1
  · intro h
    refine ⟨fun n hn c conn uuid hc hget => ?_, fun i p hout => ?_⟩
    · obtain rfl : nilUuid = uuid := Option.some.inj (((hinitial n).nilAuth c conn hc).1.symm.trans hget)
      have hmem := h (accepted_of_conn hn hc)
      exact ⟨hmem, Table.mem_keys.1 ((hinitial n).covers.traffic ▸ hmem)⟩
    · obtain ⟨a, ha, ho⟩ := (connections ctx).outAt_some hout
      have hlt := (List.getElem?_eq_some_iff.1 ha).1
      exact step_noPanic (hinitial i) (fun c conn hc => h (accepted_of_conn hlt.le hc)) a p ho

/-- A server with one user, who is not the nil user. -/
def oneUser : Context := served ⟨.insert .empty someone "", some ⟨"secret", 0⟩, 3000, 3000⟩

/-- A connection on which nobody authenticates: its first timer panics. -/
theorem nobody_panics : ¬ Identifies oneUser [.accept, .elapse 3000, .timeoutAuthenticate 0] ∧
    (connections oneUser).outAt [.accept, .elapse 3000, .timeoutAuthenticate 0] 2 =
      some (.panic .unwrapNone) := by
  refine ⟨fun h => h.noPanic 2 .unwrapNone ?_, ?_⟩ <;> decide

end Tuic.Server
