import Mathlib.Data.List.Induction
import Tuic.Lib.Lock
import Tuic.Spec.GetConn

/-! The shared connection over all runs: one call connects at a time and only while no
connection is open, what a call returns was open during the call, and no call is stuck. -/

namespace Tuic.Client

open Lib

variable {E : Type}

namespace SharedConn

/-- A call goes on, and the locks stay where they are. -/
inductive Moves (s : SharedConn E) : GetConn E → GetConn E → Prop
  | unset : s.slot = none → Moves s .called .acquiring
  | set {call : GetConn E} (h : call = .called ∨ call = .acquiring) : s.slot ≠ none → Moves s call .locking
  | initializing (c c' : Connecting E) : Moves s (.initializing c) (.initializing c')
  | reconnecting (c c' : Connecting E) : Moves s (.reconnecting c) (.reconnecting c')
  | fresh {c : ℕ} : s.slot = some c → s.IsOpen c → Moves s .checking .cloning
  | stale {c : ℕ} : s.slot = some c → ¬ s.IsOpen c → Moves s .checking (.reconnecting .resolving)

/-- All that a step can do. -/
inductive Effect (s : SharedConn E) : SharedConn E → Prop
  | same : Effect s s
  | call : Effect s { s with calls := s.calls ++ [.called] }
  | close (c : ℕ) : Effect s { s with conns := s.conns.modify c fun _ => false }
  | move {x : ℕ} {call call' : GetConn E} (hx : s.calls[x]? = some call) : Moves s call call' →
      Effect s (s.goTo x call')
  | takePermit {x : ℕ} (hx : s.calls[x]? = some .acquiring) : s.slot = none → s.permit = none →
      Effect s ({ s with permit := some x }.goTo x (.initializing .resolving))
  | takeLock {x : ℕ} (hx : s.calls[x]? = some .locking) : s.writer = none →
      Effect s ({ s with writer := some x }.goTo x .checking)
  | giveBack {x c : ℕ} (hx : s.calls[x]? = some .cloning) : s.slot = some c →
      Effect s ({ s with writer := none }.goTo x (.returned c))
  | fail {x : ℕ} {call : GetConn E} (hx : s.calls[x]? = some call) (e : GetConnError E) : call.Waits →
      Effect s (s.fail x e)
  | init {x : ℕ} {c : Connecting E} (hx : s.calls[x]? = some (.initializing c)) :
      Effect s ({ s with slot := some s.conns.length, permit := none, conns := s.conns ++ [true] }.goTo x .locking)
  | replace {x : ℕ} {c : Connecting E} (hx : s.calls[x]? = some (.reconnecting c)) :
      Effect s ({ s with slot := some s.conns.length, conns := s.conns ++ [true] }.goTo x .cloning)

variable {s : SharedConn E} {x : ℕ}

theorem connecting_some {c : Connecting E} (h : s.calls[x]?.bind GetConn.connecting = some c) :
    s.calls[x]? = some (.initializing c) ∨ s.calls[x]? = some (.reconnecting c) := by
  obtain ⟨call, hx, hc⟩ := Option.bind_eq_some_iff.1 h
  cases call with
  | initializing c' => cases hc; exact .inl hx
  | reconnecting c' => cases hc; exact .inr hx
  | _ => cases hc

theorem effect_connect {c : Connecting E} (h : s.calls[x]?.bind GetConn.connecting = some c)
    (next : Except (GetConnError E) (Connecting E)) : s.Effect (s.connect x next) := by
  rcases connecting_some h with hx | hx
  · cases next with
    | error e => exact .fail hx e trivial
    | ok c' =>
      simp only [connect, hx]
      exact .move hx (.initializing c c')
  · cases next with
    | error e => exact .fail hx e trivial
    | ok c' =>
      simp only [connect, hx]
      exact .move hx (.reconnecting c c')

theorem effect_store {c : Connecting E} (h : s.calls[x]?.bind GetConn.connecting = some c) :
    s.Effect (s.store x) := by
  rcases connecting_some h with hx | hx
  · simp only [store, hx]
    exact .init hx
  · simp only [store, hx]
    exact .replace hx

theorem effect_goOn (s : SharedConn E) (x : ℕ) : s.Effect (s.goOn x) := by
  unfold goOn
  split
  · rename_i hx
    split_ifs with hs
    · exact .move hx (.set (.inl rfl) (Option.isSome_iff_ne_none.1 hs))
    · exact .move hx (.unset (Option.not_isSome_iff_eq_none.1 hs))
  · rename_i hx
    split_ifs with hs hp
    · exact .move hx (.set (.inr rfl) (Option.isSome_iff_ne_none.1 hs))
    · exact .takePermit hx (Option.not_isSome_iff_eq_none.1 hs) (Option.isNone_iff_eq_none.1 hp)
    · exact .same
  · rename_i hx
    split_ifs with hw
    · exact .takeLock hx (Option.isNone_iff_eq_none.1 hw)
    · exact .same
  · rename_i hx
    split
    · rename_i c hs
      split_ifs with hopen
      · exact .move hx (.fresh hs hopen)
      · exact .move hx (.stale hs hopen)
    · exact .same
  · rename_i hx
    split
    · rename_i c hs
      exact .giveBack hx hs
    · exact .same
  · exact .same

theorem effect (s : SharedConn E) (a : SharedStep E) : s.Effect (s.step a) := by
  cases a with
  | call => exact .call
  | goOn x => exact effect_goOn s x
  | resolved x res =>
    simp only [step, resolved]
    split
    · rename_i h
      cases res with
      | ok addrs => exact effect_connect h _
      | error e => exact effect_connect h _
    · exact .same
  | attempted x res =>
    simp only [step, attempted]
    split
    · rename_i h
      cases res with
      | ok _ => exact effect_store h
      | error e => exact effect_connect h _
    · exact .same
  | timeout x =>
    simp only [step, timeout]
    split
    · rename_i call hx
      split_ifs with hw
      · exact .fail hx _ hw
      · exact .same
    · exact .same
  | close c => exact .close c

end SharedConn

/-- It found the cell initialized. -/
def GetConn.Past : GetConn E → Prop
  | locking | checking | reconnecting _ | cloning | returned _ => True
  | _ => False

namespace SharedConn

/-- What holds after every step. -/
structure Inv (s : SharedConn E) : Prop where
  permit : Held GetConn.HasPermit s.calls s.permit
  writer : Held GetConn.HasLock s.calls s.writer
  unset : s.permit ≠ none → s.slot = none
  past : ∀ (x : ℕ) (call : GetConn E), s.calls[x]? = some call → call.Past → s.slot ≠ none
  opened : ∀ c, s.IsOpen c → s.slot = some c
  closed : ∀ (x : ℕ) (c : Connecting E), s.calls[x]? = some (GetConn.reconnecting c) → ∀ c', ¬ s.IsOpen c'

variable {s s' : SharedConn E} {x : ℕ}

theorem Moves.hasPermit {call call' : GetConn E} (h : s.Moves call call') : call'.HasPermit ↔ call.HasPermit := by
  cases h with
  | set hcall => rcases hcall with rfl | rfl <;> exact Iff.rfl
  | _ => exact Iff.rfl

theorem Moves.hasLock {call call' : GetConn E} (h : s.Moves call call') : call'.HasLock ↔ call.HasLock := by
  cases h with
  | set hcall => rcases hcall with rfl | rfl <;> exact Iff.rfl
  | _ => exact Iff.rfl

theorem Effect.permit (he : s.Effect s') (h : Held GetConn.HasPermit s.calls s.permit) :
    Held GetConn.HasPermit s'.calls s'.permit := by
  cases he with
  | same => exact h
  | close c => exact h
  | call => exact h.concat id
  | move hx hm => exact h.keep hx hm.hasPermit
  | takePermit hx _ hp =>
    rw [hp] at h
    exact h.acquire hx trivial
  | takeLock hx => exact h.keep hx Iff.rfl
  | giveBack hx => exact h.keep hx Iff.rfl
  | fail hx => exact h.drop hx id
  | init hx => exact h.release hx trivial id
  | replace hx => exact h.keep hx Iff.rfl

theorem Effect.writer (he : s.Effect s') (h : Held GetConn.HasLock s.calls s.writer) :
    Held GetConn.HasLock s'.calls s'.writer := by
  cases he with
  | same => exact h
  | close c => exact h
  | call => exact h.concat id
  | move hx hm => exact h.keep hx hm.hasLock
  | takePermit hx => exact h.keep hx Iff.rfl
  | takeLock hx hw =>
    rw [hw] at h
    exact h.acquire hx trivial
  | giveBack hx => exact h.release hx trivial id
  | fail hx => exact h.drop hx id
  | init hx => exact h.keep hx Iff.rfl
  | replace hx => exact h.keep hx Iff.rfl

/-- Once set, the cell stays set. -/
theorem Effect.slot (he : s.Effect s') (h : s.slot ≠ none) : s'.slot ≠ none := by
  cases he with
  | init hx => exact Option.some_ne_none _
  | replace hx => exact Option.some_ne_none _
  | _ => exact h

theorem goTo_some {call v : GetConn E} {y : ℕ} (h : (s.goTo x call).calls[y]? = some v) :
    (y = x ∧ v = call) ∨ s.calls[y]? = some v := by
  obtain ⟨u, hu, rfl⟩ := Pool.modify_eq_some.1 h
  split_ifs with hxy
  · exact .inl ⟨hxy.symm, rfl⟩
  · exact .inr hu

theorem isOpen_concat {c : ℕ} : (s.conns ++ [true])[c]? = some true ↔ s.IsOpen c ∨ c = s.conns.length := by
  rw [Pool.concat_eq_some]
  simp [IsOpen]

theorem isOpen_close {c c' : ℕ} (h : (s.conns.modify c fun _ => false)[c']? = some true) : s.IsOpen c' := by
  obtain ⟨u, hu, htrue⟩ := Pool.modify_eq_some.1 h
  split_ifs at htrue
  rw [IsOpen, hu, htrue]

/-- A call that went past the cell was past it before, or found it set. -/
theorem Effect.past (he : s.Effect s') (h : s.Inv) {call : GetConn E} (hx : s'.calls[x]? = some call)
    (hpast : call.Past) : s'.slot ≠ none := by
  cases he with
  | same => exact h.past x call hx hpast
  | close c => exact h.past x call hx hpast
  | call =>
    rcases Pool.concat_eq_some.1 hx with hold | ⟨-, rfl⟩
    · exact h.past x call hold hpast
    · exact hpast.elim
  | move hy hm =>
    rcases goTo_some hx with ⟨-, rfl⟩ | hold
    · cases hm with
      | unset => exact hpast.elim
      | set _ hs => exact hs
      | initializing => exact hpast.elim
      | reconnecting => exact h.past _ _ hy trivial
      | fresh hs => exact hs ▸ Option.some_ne_none _
      | stale hs => exact hs ▸ Option.some_ne_none _
    · exact h.past x call hold hpast
  | takePermit hy =>
    rcases goTo_some hx with ⟨-, rfl⟩ | hold
    · exact hpast.elim
    · exact h.past x call hold hpast
  | takeLock hy =>
    rcases goTo_some hx with ⟨-, rfl⟩ | hold
    · exact h.past _ _ hy trivial
    · exact h.past x call hold hpast
  | giveBack hy =>
    rcases goTo_some hx with ⟨-, rfl⟩ | hold
    · exact h.past _ _ hy trivial
    · exact h.past x call hold hpast
  | fail hy =>
    rcases goTo_some hx with ⟨-, rfl⟩ | hold
    · exact hpast.elim
    · exact h.past x call hold hpast
  | init hy => exact Option.some_ne_none _
  | replace hy => exact Option.some_ne_none _

/-- No connection is open while a call connects. -/
theorem Inv.not_open (h : s.Inv) {call : GetConn E} {c : Connecting E} (hx : s.calls[x]? = some call)
    (hc : call.connecting = some c) (c' : ℕ) : ¬ s.IsOpen c' := by
  cases call with
  | initializing c =>
    have hslot := h.unset (h.permit.only x _ hx trivial ▸ Option.some_ne_none x)
    intro hopen
    rw [h.opened c' hopen] at hslot
    cases hslot
  | reconnecting c => exact h.closed x c hx c'
  | _ => cases hc

theorem Effect.opened (he : s.Effect s') (h : s.Inv) {c : ℕ} (hopen : s'.IsOpen c) : s'.slot = some c := by
  cases he with
  | close c' => exact h.opened c (isOpen_close hopen)
  | init hx =>
    rcases isOpen_concat.1 hopen with hold | rfl
    · exact absurd hold (h.not_open hx rfl c)
    · rfl
  | replace hx =>
    rcases isOpen_concat.1 hopen with hold | rfl
    · exact absurd hold (h.not_open hx rfl c)
    · rfl
  | _ => exact h.opened c hopen

theorem Effect.closed (he : s.Effect s') (h : s.Inv) {c : Connecting E}
    (hx : s'.calls[x]? = some (.reconnecting c)) (c' : ℕ) : ¬ s'.IsOpen c' := by
  cases he with
  | same => exact h.closed x c hx c'
  | close => exact fun hopen => h.closed x c hx c' (isOpen_close hopen)
  | call =>
    rcases Pool.concat_eq_some.1 hx with hold | ⟨-, heq⟩
    · exact h.closed x c hold c'
    · cases heq
  | move hy hm =>
    rcases goTo_some hx with ⟨-, heq⟩ | hold
    · subst heq
      cases hm with
      | reconnecting => exact h.closed _ _ hy c'
      | stale hs hclosed =>
        intro hopen
        obtain rfl := Option.some.inj (hs.symm.trans (h.opened c' hopen))
        exact hclosed hopen
    · exact h.closed x c hold c'
  | takePermit hy =>
    rcases goTo_some hx with ⟨-, heq⟩ | hold
    · cases heq
    · exact h.closed x c hold c'
  | takeLock hy =>
    rcases goTo_some hx with ⟨-, heq⟩ | hold
    · cases heq
    · exact h.closed x c hold c'
  | giveBack hy =>
    rcases goTo_some hx with ⟨-, heq⟩ | hold
    · cases heq
    · exact h.closed x c hold c'
  | fail hy =>
    rcases goTo_some hx with ⟨-, heq⟩ | hold
    · cases heq
    · exact h.closed x c hold c'
  | init hy =>
    -- the cell was not set, so no call is past it
    rcases goTo_some hx with ⟨-, heq⟩ | hold
    · cases heq
    · exact absurd (h.unset (h.permit.only _ _ hy trivial ▸ Option.some_ne_none _)) (h.past x _ hold trivial)
  | replace hy =>
    -- the other call would have the lock as well
    obtain ⟨u, hu, heq⟩ := Pool.modify_eq_some.1 hx
    split_ifs at heq with hxy
    subst heq
    exact absurd (h.writer.unique hy hu trivial trivial) hxy

theorem Effect.unset (he : s.Effect s') (h : s.Inv) (hpermit : s'.permit ≠ none) : s'.slot = none := by
  cases he with
  | takePermit _ hs => exact hs
  | fail hx =>
    refine h.unset fun hnone => hpermit ?_
    change release s.permit _ = none
    rw [hnone]
    rfl
  | init hx => exact absurd rfl hpermit
  | replace hx => exact absurd (h.unset hpermit) (h.past _ _ hx trivial)
  | _ => exact h.unset hpermit

theorem inv_new : (new : SharedConn E).Inv := ⟨.nil, .nil, nofun, nofun, nofun, nofun⟩

theorem Inv.step (h : s.Inv) (a : SharedStep E) : (s.step a).Inv where
  permit := (s.effect a).permit h.permit
  writer := (s.effect a).writer h.writer
  unset := (s.effect a).unset h
  past _ _ := (s.effect a).past h
  opened _ := (s.effect a).opened h
  closed _ _ := (s.effect a).closed h

theorem inv_of_reachable (h : (sharedConn E).Reachable s) : s.Inv :=
  h.invariant inv_new fun _ a hs => hs.step a

/-- Call number `x` runs `Endpoint::connect`. -/
def Connects (s : SharedConn E) (x : ℕ) : Prop :=
  ∃ call, s.calls[x]? = some call ∧ call.connecting ≠ none

theorem Inv.connects_unique (h : s.Inv) {y : ℕ} (hx : s.Connects x) (hy : s.Connects y) : x = y := by
  obtain ⟨u, hu, hcu⟩ := hx
  obtain ⟨v, hv, hcv⟩ := hy
  -- the permit is there while the cell is not set, and the lock once it is
  have hapart : ∀ {z w : ℕ} {c c' : Connecting E}, s.calls[z]? = some (.initializing c) →
      s.calls[w]? ≠ some (.reconnecting c') := fun hz hw =>
    h.past _ _ hw trivial (h.unset (h.permit.only _ _ hz trivial ▸ Option.some_ne_none _))
  cases u with
  | initializing c =>
    cases v with
    | initializing c' => exact h.permit.unique hu hv trivial trivial
    | reconnecting c' => exact absurd hv (hapart hu)
    | _ => exact absurd rfl hcv
  | reconnecting c =>
    cases v with
    | initializing c' => exact absurd hu (hapart hv)
    | reconnecting c' => exact h.writer.unique hu hv trivial trivial
    | _ => exact absurd rfl hcv
  | _ => exact absurd rfl hcu

end SharedConn

section

open SharedConn

/-- After every run at most one call connects, and only while no connection is open.
Every open connection is the one that is stored. -/
theorem single_flight (steps : List (SharedStep E)) :
    let s := (sharedConn E).exec .new steps
    (∀ x y, s.Connects x → s.Connects y → x = y) ∧
      ∀ c, s.IsOpen c → s.slot = some c ∧ ∀ x, ¬ s.Connects x := by
  intro s
  have hinv : s.Inv := inv_of_reachable ⟨steps, rfl⟩
  refine ⟨fun x y => hinv.connects_unique, fun c hopen => ⟨hinv.opened c hopen, ?_⟩⟩
  rintro x ⟨call, hx, hc⟩
  obtain ⟨connecting, hc⟩ := Option.ne_none_iff_exists'.1 hc
  exact hinv.not_open hx hc c hopen

/-- At some moment of the run call `x` had begun, and `c` was stored and open. -/
def WasOpen (steps : List (SharedStep E)) (x c : ℕ) : Prop :=
  ∃ before after, steps = before ++ after ∧
    let s := (sharedConn E).exec .new before
    x < s.calls.length ∧ s.slot = some c ∧ s.IsOpen c

theorem WasOpen.concat {steps : List (SharedStep E)} {x c : ℕ} (h : WasOpen steps x c) (a : SharedStep E) :
    WasOpen (steps ++ [a]) x c := by
  obtain ⟨before, after, rfl, h⟩ := h
  exact ⟨before, after ++ [a], List.append_assoc _ _ _, h⟩

theorem WasOpen.last {steps : List (SharedStep E)} {x c : ℕ} {call : GetConn E}
    (hx : ((sharedConn E).exec .new steps).calls[x]? = some call)
    (hslot : ((sharedConn E).exec .new steps).slot = some c)
    (hopen : ((sharedConn E).exec .new steps).IsOpen c) : WasOpen steps x c :=
  ⟨steps, [], (List.append_nil _).symm, Pool.lt_of_eq_some hx, hslot, hopen⟩

/-- What the calls at the end of a run have seen. -/
structure Seen (steps : List (SharedStep E)) (s : SharedConn E) : Prop where
  cloning : ∀ x, s.calls[x]? = some .cloning → ∃ c, s.slot = some c ∧ WasOpen steps x c
  returned : ∀ x c, s.calls[x]? = some (.returned c) → WasOpen steps x c

theorem Seen.concat {steps : List (SharedStep E)} {s : SharedConn E} (h : Seen steps s) (a : SharedStep E) :
    Seen (steps ++ [a]) s where
  cloning x hx := by
    obtain ⟨c, hc, hwas⟩ := h.cloning x hx
    exact ⟨c, hc, hwas.concat a⟩
  returned x c hx := (h.returned x c hx).concat a

/-- A call that is neither about to clone nor has returned has seen nothing. -/
theorem Seen.goTo {steps : List (SharedStep E)} {s s' : SharedConn E} (h : Seen steps s) {x : ℕ}
    {call : GetConn E} (hcalls : s'.calls = (s.goTo x call).calls) (hslot : s'.slot = s.slot)
    (hcloning : call ≠ .cloning) (hreturned : ∀ c, call ≠ .returned c) : Seen steps s' where
  cloning y hy := hslot ▸ h.cloning y ((goTo_some (hcalls ▸ hy)).resolve_left fun heq => hcloning heq.2.symm)
  returned y c hy := h.returned y c ((goTo_some (hcalls ▸ hy)).resolve_left fun heq => hreturned c heq.2.symm)

theorem Seen.step {steps : List (SharedStep E)} {s s' : SharedConn E} (he : s.Effect s') (hinv : s.Inv)
    (h : Seen steps s) (hs' : (sharedConn E).exec .new steps = s') : Seen steps s' := by
  cases he with
  | same => exact h
  | close c => exact ⟨h.cloning, h.returned⟩
  | call =>
    refine ⟨fun x hx => ?_, fun x c hx => ?_⟩
    · rcases Pool.concat_eq_some.1 hx with hold | ⟨-, heq⟩
      · exact h.cloning x hold
      · cases heq
    · rcases Pool.concat_eq_some.1 hx with hold | ⟨-, heq⟩
      · exact h.returned x c hold
      · cases heq
  | move hx hm =>
    cases hm with
    | fresh hslot hopen =>
      -- the call has found the connection open just now
      refine ⟨fun y hy => ?_, fun y c hy => h.returned y c ((goTo_some hy).resolve_left nofun)⟩
      refine ⟨_, hslot, WasOpen.last (hs' ▸ hy) (hs' ▸ hslot) (hs' ▸ hopen)⟩
    | _ => exact h.goTo rfl rfl nofun nofun
  | takePermit hx => exact h.goTo rfl rfl nofun nofun
  | takeLock hx => exact h.goTo rfl rfl nofun nofun
  | giveBack hx hslot =>
    refine ⟨fun y hy => h.cloning y ((goTo_some hy).resolve_left nofun), fun y c hy => ?_⟩
    rcases goTo_some hy with ⟨rfl, heq⟩ | hold
    · cases heq
      obtain ⟨c', hc', hwas⟩ := h.cloning _ hx
      obtain rfl := Option.some.inj (hslot.symm.trans hc')
      exact hwas
    · exact h.returned y c hold
  | fail hx => exact h.goTo rfl rfl nofun nofun
  | init hx =>
    refine ⟨fun y hy => ?_, fun y c hy => h.returned y c ((goTo_some hy).resolve_left nofun)⟩
    have hunset := hinv.unset (hinv.permit.only _ _ hx trivial ▸ Option.some_ne_none _)
    exact absurd hunset (hinv.past y _ ((goTo_some hy).resolve_left nofun) trivial)
  | replace hx =>
    refine ⟨fun y hy => ?_, fun y c hy => h.returned y c ((goTo_some hy).resolve_left nofun)⟩
    have hopen := isOpen_concat.2 (.inr rfl : s.IsOpen _ ∨ s.conns.length = s.conns.length)
    exact ⟨_, rfl, WasOpen.last (hs' ▸ hy) (hs' ▸ rfl) (hs' ▸ hopen)⟩

theorem seen (steps : List (SharedStep E)) : Seen steps ((sharedConn E).exec .new steps) := by
  induction steps using List.reverseRecOn with
  | nil => exact ⟨nofun, nofun⟩
  | append_singleton steps a ih =>
    have hinv : ((sharedConn E).exec .new steps).Inv := inv_of_reachable ⟨steps, rfl⟩
    rw [Machine.exec_concat]
    exact (ih.concat a).step (effect _ a) hinv (Machine.exec_concat _ _ _ _)

/-- Call 0 makes the connection at its second address, but call 1 is first at the lock.
By the time that call 0 has it, the connection is closed, and it makes another one. -/
def overtaken : List (SharedStep Unit) :=
  [.call, .call, .goOn 0, .goOn 0, .goOn 1, .resolved 0 (.ok 2), .attempted 0 (.error ()),
    .attempted 0 (.ok ()), .goOn 1, .goOn 1, .goOn 0, .goOn 1, .goOn 1, .close 0, .goOn 0, .goOn 0,
    .resolved 0 (.ok 1), .attempted 0 (.ok ()), .goOn 0]

/-- Some steps, none of which is its timeout, make the call return. -/
def CanReturn (s : SharedConn E) (x : ℕ) : Prop :=
  ∃ steps c, (∀ a ∈ steps, a ≠ .timeout x) ∧
    ((sharedConn E).exec s steps).calls[x]? = some (.returned c)

variable {s : SharedConn E} {x : ℕ}

theorem CanReturn.step (a : SharedStep E) (ha : a ≠ .timeout x) (h : CanReturn (s.step a) x) : CanReturn s x := by
  obtain ⟨steps, c, hsteps, hx⟩ := h
  refine ⟨a :: steps, c, fun a' ha' => ?_, hx⟩
  rcases List.mem_cons.1 ha' with rfl | hmem
  · exact ha
  · exact hsteps a' hmem

theorem goTo_self {u : GetConn E} (call : GetConn E) (hx : s.calls[x]? = some u) :
    (s.goTo x call).calls[x]? = some call :=
  Pool.modify_eq_some.2 ⟨u, hx, (if_pos rfl).symm⟩

theorem goTo_ne {y : ℕ} {u : GetConn E} (call : GetConn E) (hx : s.calls[x]? = some u) (hne : y ≠ x) :
    (s.goTo y call).calls[x]? = some u :=
  Pool.modify_eq_some.2 ⟨u, hx, (if_neg hne).symm⟩

theorem step_timeout {call : GetConn E} (hx : s.calls[x]? = some call) (hw : call.Waits) :
    s.step (.timeout x) = s.fail x .timeout := by
  simp only [SharedConn.step, timeout, hx]
  exact if_pos hw

theorem canReturn_of_cloning (h : s.Inv) (hx : s.calls[x]? = some .cloning) : CanReturn s x := by
  obtain ⟨c, hc⟩ := Option.ne_none_iff_exists'.1 (h.past x _ hx trivial)
  refine ⟨[.goOn x], c, by simp, ?_⟩
  change (s.goOn x).calls[x]? = _
  simp only [goOn, hx, hc]
  exact goTo_self _ hx

theorem canReturn_of_reattempting (h : s.Inv) (lastErr : Option E) (left : ℕ)
    (hx : s.calls[x]? = some (.reconnecting (.attempting lastErr left))) : CanReturn s x := by
  refine .step (.attempted x (.ok ())) nofun (canReturn_of_cloning (h.step _) ?_)
  simp only [SharedConn.step, attempted, hx, Option.bind_some, GetConn.connecting, store]
  exact goTo_self _ hx

theorem canReturn_of_reconnecting (h : s.Inv) {connecting : Connecting E}
    (hx : s.calls[x]? = some (.reconnecting connecting)) : CanReturn s x := by
  cases connecting with
  | attempting lastErr left => exact canReturn_of_reattempting h lastErr left hx
  | resolving =>
    refine .step (.resolved x (.ok 1)) nofun (canReturn_of_reattempting (h.step _) none 0 ?_)
    simp only [SharedConn.step, resolved, hx, Option.bind_some, GetConn.connecting, Connecting.next,
      SharedConn.connect]
    exact goTo_self _ hx

theorem canReturn_of_checking (h : s.Inv) (hx : s.calls[x]? = some .checking) : CanReturn s x := by
  obtain ⟨c, hc⟩ := Option.ne_none_iff_exists'.1 (h.past x _ hx trivial)
  refine .step (.goOn x) nofun ?_
  have hinv := h.step (.goOn x)
  have hgo : s.step (.goOn x) = s.goTo x (if s.IsOpen c then .cloning else .reconnecting .resolving) := by
    simp only [SharedConn.step, goOn, hx, hc]
  have hnow := goTo_self (if s.IsOpen c then .cloning else .reconnecting .resolving) hx
  rw [← hgo] at hnow
  by_cases hopen : s.IsOpen c
  · rw [if_pos hopen] at hnow
    exact canReturn_of_cloning hinv hnow
  · rw [if_neg hopen] at hnow
    exact canReturn_of_reconnecting hinv hnow

theorem canReturn_of_locking_free (h : s.Inv) (hx : s.calls[x]? = some .locking) (hw : s.writer = none) :
    CanReturn s x := by
  refine .step (.goOn x) nofun (canReturn_of_checking (h.step _) ?_)
  simp only [SharedConn.step, goOn, hx, hw]
  exact goTo_self _ hx

/-- Whoever has the lock gives it back: by returning, or by its timeout. -/
theorem canReturn_of_locking (h : s.Inv) (hx : s.calls[x]? = some .locking) : CanReturn s x := by
  cases hw : s.writer with
  | none => exact canReturn_of_locking_free h hx hw
  | some y =>
    obtain ⟨v, hy, hholds⟩ := h.writer.live y hw
    have hne : y ≠ x := by
      rintro rfl
      rw [hx] at hy
      cases hy
      exact hholds
    have hcloning : ∀ {s : SharedConn E}, s.Inv → s.calls[x]? = some .locking →
        s.calls[y]? = some .cloning → CanReturn s x := by
      intro s h hx hy
      obtain ⟨c, hc⟩ := Option.ne_none_iff_exists'.1 (h.past x _ hx trivial)
      have hgo : s.step (.goOn y) = ({ s with writer := none } : SharedConn E).goTo y (.returned c) := by
        simp only [SharedConn.step, goOn, hy, hc]
      refine .step (.goOn y) nofun (canReturn_of_locking_free (h.step _) ?_ ?_)
      · rw [hgo]
        exact goTo_ne _ hx hne
      · rw [hgo]
        rfl
    have hreconnecting : ∀ {s : SharedConn E} {c : Connecting E}, s.Inv → s.calls[x]? = some .locking →
        s.calls[y]? = some (.reconnecting c) → CanReturn s x := by
      intro s c h hx hy
      have hgo := step_timeout hy trivial
      refine .step (.timeout y) (fun heq => hne (SharedStep.timeout.inj heq))
        (canReturn_of_locking_free (h.step _) ?_ ?_)
      · rw [hgo]
        exact goTo_ne _ hx hne
      · rw [hgo]
        exact if_pos (h.writer.only y _ hy trivial)
    cases v with
    | cloning => exact hcloning h hx hy
    | reconnecting c => exact hreconnecting h hx hy
    | checking =>
      obtain ⟨c, hc⟩ := Option.ne_none_iff_exists'.1 (h.past x _ hx trivial)
      have hgo : s.step (.goOn y) = s.goTo y (if s.IsOpen c then .cloning else .reconnecting .resolving) := by
        simp only [SharedConn.step, goOn, hy, hc]
      refine .step (.goOn y) nofun ?_
      have hinv := h.step (.goOn y)
      rw [hgo] at hinv ⊢
      split_ifs at hinv ⊢
      · exact hcloning hinv (goTo_ne _ hx hne) (goTo_self _ hy)
      · exact hreconnecting hinv (goTo_ne _ hx hne) (goTo_self _ hy)
    | _ => exact hholds.elim

theorem canReturn_of_initializing (h : s.Inv) {connecting : Connecting E}
    (hx : s.calls[x]? = some (.initializing connecting)) : CanReturn s x := by
  have hattempt : ∀ (s : SharedConn E) (lastErr : Option E) (left : ℕ), s.Inv →
      s.calls[x]? = some (.initializing (.attempting lastErr left)) → CanReturn s x := by
    intro s lastErr left h hx
    refine .step (.attempted x (.ok ())) nofun (canReturn_of_locking (h.step _) ?_)
    simp only [SharedConn.step, attempted, hx, Option.bind_some, GetConn.connecting, store]
    exact goTo_self _ hx
  cases connecting with
  | attempting lastErr left => exact hattempt s lastErr left h hx
  | resolving =>
    refine .step (.resolved x (.ok 1)) nofun (hattempt _ none 0 (h.step _) ?_)
    simp only [SharedConn.step, resolved, hx, Option.bind_some, GetConn.connecting, Connecting.next,
      SharedConn.connect]
    exact goTo_self _ hx

theorem canReturn_of_acquiring (h : s.Inv) (hx : s.calls[x]? = some .acquiring) : CanReturn s x := by
  have hfree : ∀ {s : SharedConn E}, s.Inv → s.calls[x]? = some .acquiring → s.permit = none →
      CanReturn s x := by
    intro s h hx hp
    refine .step (.goOn x) nofun ?_
    have hinv := h.step (.goOn x)
    have hgo : s.step (.goOn x) = if s.slot.isSome then s.goTo x .locking else
        ({ s with permit := some x } : SharedConn E).goTo x (.initializing .resolving) := by
      simp only [SharedConn.step, goOn, hx, hp, Option.isNone_none, if_true]
    rw [hgo] at hinv ⊢
    split_ifs at hinv ⊢
    · exact canReturn_of_locking hinv (goTo_self _ hx)
    · exact canReturn_of_initializing hinv (goTo_self _ hx)
  cases hp : s.permit with
  | none => exact hfree h hx hp
  | some y =>
    obtain ⟨v, hy, hholds⟩ := h.permit.live y hp
    cases v with
    | initializing c =>
      have hne : y ≠ x := by
        rintro rfl
        rw [hx] at hy
        cases hy
      have hgo := step_timeout hy trivial
      refine .step (.timeout y) (fun heq => hne (SharedStep.timeout.inj heq)) (hfree (h.step _) ?_ ?_)
      · rw [hgo]
        exact goTo_ne _ hx hne
      · rw [hgo]
        exact if_pos hp
    | _ => exact hholds.elim

theorem canReturn_of_called (h : s.Inv) (hx : s.calls[x]? = some .called) : CanReturn s x := by
  refine .step (.goOn x) nofun ?_
  have hinv := h.step (.goOn x)
  have hgo : s.step (.goOn x) = s.goTo x (if s.slot.isSome then .locking else .acquiring) := by
    simp only [SharedConn.step, goOn, hx]
  rw [hgo] at hinv ⊢
  split_ifs at hinv ⊢
  · exact canReturn_of_locking hinv (goTo_self _ hx)
  · exact canReturn_of_acquiring hinv (goTo_self _ hx)

/-- After every run, whatever has timed out, failed or been closed, a call that is not
done can still return. -/
theorem never_stuck (steps : List (SharedStep E)) (x : ℕ) (call : GetConn E)
    (hx : ((sharedConn E).exec .new steps).calls[x]? = some call) (hdone : ¬ call.Done) :
    CanReturn ((sharedConn E).exec .new steps) x := by
  have h : ((sharedConn E).exec .new steps).Inv := inv_of_reachable ⟨steps, rfl⟩
  cases call with
  | called => exact canReturn_of_called h hx
  | acquiring => exact canReturn_of_acquiring h hx
  | initializing c => exact canReturn_of_initializing h hx
  | locking => exact canReturn_of_locking h hx
  | checking => exact canReturn_of_checking h hx
  | reconnecting c => exact canReturn_of_reconnecting h hx
  | cloning => exact canReturn_of_cloning h hx
  | returned c => exact absurd trivial hdone
  | failed e => exact absurd trivial hdone

theorem never_stuck_overtaken : CanReturn ((sharedConn Unit).exec .new (overtaken.take 16)) 0 :=
  never_stuck (overtaken.take 16) 0 (.reconnecting .resolving) rfl id

end

end Tuic.Client
