import Mathlib.Data.Nat.ModEq
import Tuic.Lib.Keys
import Tuic.Lib.Pool
import Tuic.Spec.Traffic

/-! Traffic accounting under every interleaving: what a reset takes out of a
counter is in its hands until it answers, and in its answer from then on, so that
only a relay changes the balance. -/

namespace Tuic.Server

open Lib

variable {cfg : Config} {order : UserOrder cfg} {dir : TrafficSide} {u : Uuid}

/-! ### One atomic operation -/

/-- A `swap` gives what it takes. -/
theorem read_reset (s : Restful) (dir' : TrafficSide) (v : Uuid) :
    (s.read .reset dir' v).1.counter dir u +
      (if v = u ∧ dir = dir' then (s.read .reset dir' v).2.toNat else 0) = s.counter dir u := by
  unfold Restful.read
  cases hv : s.trafficStats.get v with
  | none => simp
  | some stats =>
    by_cases huv : v = u
    · subst huv
      simp only [Restful.counter, hv, Table.get_insert_self, true_and]
      cases dir <;> cases dir' <;> simp [TrafficSide.of, TrafficSide.zero]
    · have hget := Table.get_insert_ne s.trafficStats (dir'.zero stats) (Ne.symm huv)
      simp only [Restful.counter, hget, huv, false_and, if_false, Nat.add_zero]

@[simp] theorem read_list (s : Restful) (dir' : TrafficSide) (v : Uuid) :
    (s.read .list dir' v).1 = s := by
  unfold Restful.read
  cases s.trafficStats.get v <;> rfl

theorem read_keys (s : Restful) (walker : Walker) (dir' : TrafficSide) (v : Uuid) :
    (s.read walker dir' v).1.trafficStats.keys = s.trafficStats.keys := by
  unfold Restful.read
  cases hv : s.trafficStats.get v with
  | none => cases walker <;> rfl
  | some stats =>
    cases walker with
    | list => rfl
    | reset => exact Table.keys_insert_of_mem (Table.mem_keys_of_some hv) _

theorem count_keys (s : Restful) (dir' : TrafficSide) (v : Uuid) (size : UInt64) :
    (s.count cfg dir' v size).trafficStats.keys = s.trafficStats.keys := by
  unfold Restful.count
  split
  · rename_i hv
    exact Table.keys_insert_of_mem (Table.mem_keys_of_some hv) _
  · rfl

/-- What `count` adds to a counter. -/
def counted (dir dir' : TrafficSide) (u v : Uuid) (size : UInt64) : ℕ :=
  if v = u ∧ dir = dir' then size.toNat else 0

/-- `fetch_add` wraps around. -/
theorem count_counter (hrest : cfg.restful ≠ none) {s : Restful} (hu : u ∈ s.trafficStats.keys)
    (dir' : TrafficSide) (v : Uuid) (size : UInt64) :
    (s.count cfg dir' v size).counter dir u ≡ s.counter dir u + counted dir dir' u v size [MOD 2 ^ 64] := by
  obtain ⟨restful, hcfg⟩ := Option.ne_none_iff_exists'.1 hrest
  unfold Restful.count
  rw [hcfg]
  cases hv : s.trafficStats.get v with
  | none =>
    have hne : v ≠ u := fun h => Table.mem_keys.1 hu (h ▸ hv)
    simpa [counted, hne] using Nat.ModEq.refl _
  | some stats =>
    by_cases huv : v = u
    · subst huv
      simp only [Restful.counter, hv, Table.get_insert_self, counted, true_and]
      by_cases hdir : dir = dir'
      · subst hdir
        rw [if_pos rfl]
        cases dir with
        | tx => exact (UInt64.toNat_add _ _).symm ▸ Nat.mod_modEq _ _
        | rx => exact (UInt64.toNat_add _ _).symm ▸ Nat.mod_modEq _ _
      · have hsame : dir.of (dir'.add stats size) = dir.of stats := by
          cases dir <;> cases dir' <;> first | rfl | exact absurd rfl hdir
        rw [hsame, if_neg hdir]
        exact Nat.ModEq.refl _
    · have hget := Table.get_insert_ne s.trafficStats (dir'.add stats size) (Ne.symm huv)
      simp only [Restful.counter, hget, counted, huv, false_and, if_false]
      exact Nat.ModEq.refl _

/-! ### One step of a walk -/

/-- What a reset has taken from a counter, in its hands or in its answer. -/
def Walk.taken (walk : Walk) (dir : TrafficSide) (u : Uuid) : ℕ :=
  walk.reported dir u + walk.swapped dir u

/-- The walk comes to every user once. -/
def Walk.WF (walk : Walk) : Prop :=
  match walk.phase with
  | .walking todo result => todo.Nodup ∧ ∀ v ∈ todo, result.get v = none
  | .between uuid _ todo result => (uuid :: todo).Nodup ∧ ∀ v ∈ uuid :: todo, result.get v = none
  | .done _ _ => True

theorem start_wf (walker : Walker) (token : Option String) : (Walk.start walker cfg order token).WF := by
  unfold Walk.WF Walk.start
  cases turnsAway cfg token with
  | true => trivial
  | false => exact ⟨order.nodup, fun _ _ => rfl⟩

theorem start_taken (walker : Walker) (token : Option String) :
    (Walk.start walker cfg order token).taken dir u = 0 := by
  unfold Walk.taken Walk.start
  cases turnsAway cfg token with
  | true => cases walker <;> rfl
  | false => cases walker <;> rfl

/-- What a user contributes to the response. -/
theorem amount_report (result : Table Uuid Traffic) (hnone : result.get u = none) (tx rx : UInt64) :
    amount dir u (if tx ≠ 0 ∨ rx ≠ 0 then result.insert u ⟨tx, rx⟩ else result) =
      (Traffic.of ⟨tx, rx⟩ dir).toNat := by
  split_ifs with h
  · simp [amount]
  · -- an omitted user has nothing to report
    obtain ⟨rfl, rfl⟩ : tx = 0 ∧ rx = 0 := by simpa using h
    rw [amount, hnone]
    cases dir <;> rfl

theorem amount_report_ne (result : Table Uuid Traffic) {v : Uuid} (hne : v ≠ u) (tx rx : UInt64) :
    amount dir u (if tx ≠ 0 ∨ rx ≠ 0 then result.insert v ⟨tx, rx⟩ else result) =
      amount dir u result := by
  split_ifs
  · simp only [amount, Table.get_insert_ne _ _ (Ne.symm hne)]
  · rfl

theorem advance_wf {walk : Walk} (h : walk.WF) (s : Restful) : (walk.advance s).2.WF := by
  obtain ⟨walker, phase⟩ := walk
  cases phase with
  | walking todo result =>
    cases todo with
    | nil => trivial
    | cons v todo => exact h
  | between v tx todo result =>
    obtain ⟨hnodup, hnone⟩ := h
    obtain ⟨hv, hnodup⟩ := List.nodup_cons.1 hnodup
    refine ⟨hnodup, fun w hw => ?_⟩
    have hne : w ≠ v := fun heq => hv (heq ▸ hw)
    change Table.get (if _ then result.insert v _ else result) w = none
    split_ifs
    · rw [Table.get_insert_ne _ _ hne]
      exact hnone w (List.mem_cons_of_mem _ hw)
    · exact hnone w (List.mem_cons_of_mem _ hw)
  | done status result => trivial

/-- A step of a walk moves values from a counter to the walk, or keeps them there. -/
theorem advance_taken {walk : Walk} (h : walk.WF) (s : Restful) :
    (walk.advance s).2.taken dir u + (walk.advance s).1.counter dir u =
      walk.taken dir u + s.counter dir u := by
  obtain ⟨walker, phase⟩ := walk
  cases walker with
  | list =>
    cases phase with
    | walking todo result =>
      cases todo with
      | nil => rfl
      | cons v todo => simp [Walk.advance, Walk.taken, Walk.reported, Walk.swapped]
    | between v tx todo result => simp [Walk.advance, Walk.taken, Walk.reported, Walk.swapped]
    | done status result => rfl
  | reset =>
    cases phase with
    | walking todo result =>
      cases todo with
      | nil => simp [Walk.advance, Walk.taken, Walk.reported, Walk.swapped]
      | cons v todo =>
        have hread : (s.read .reset .tx v).1.counter dir u + _ = s.counter dir u := read_reset s .tx v
        simp only [Walk.advance, Walk.taken, Walk.reported, Walk.swapped]
        omega
    | between v tx todo result =>
      have hread : (s.read .reset .rx v).1.counter dir u + _ = s.counter dir u := read_reset s .rx v
      simp only [Walk.advance, Walk.taken, Walk.reported, Walk.swapped]
      by_cases huv : v = u
      · subst huv
        have hnone : result.get v = none := h.2 v List.mem_cons_self
        rw [amount_report result hnone]
        have hzero : amount dir v result = 0 := by rw [amount, hnone]
        cases dir with
        | tx =>
          simp only [true_and, reduceCtorEq, if_false, if_true, Traffic.of] at hread ⊢
          omega
        | rx =>
          simp only [true_and, reduceCtorEq, if_false, if_true, Traffic.of] at hread ⊢
          omega
      · rw [amount_report_ne result huv]
        simp only [huv, false_and, if_false] at hread ⊢
        omega
    | done status result => rfl

/-! ### Runs -/

def TrafficState.taken (s : TrafficState) (dir : TrafficSide) (u : Uuid) : ℕ :=
  (s.walks.map fun walk => walk.taken dir u).sum

theorem taken_eq (s : TrafficState) : s.taken dir u = s.reported dir u + s.swapped dir u :=
  List.sum_map_add

/-- Every user of the configuration has counters, every walk comes to each of them
once, and the accounts of the steps so far balance. -/
structure Balanced (cfg : Config) (steps : List TrafficStep) (s : TrafficState) : Prop where
  keys : s.restful.trafficStats.keys = cfg.users.keys
  walks : ∀ walk ∈ s.walks, walk.WF
  accounts : ∀ dir u, u ∈ cfg.users.keys →
    s.taken dir u + s.restful.counter dir u ≡ added dir u steps [MOD 2 ^ 64]

theorem added_concat (steps : List TrafficStep) (a : TrafficStep) :
    added dir u (steps ++ [a]) = added dir u steps + a.adds dir u := by
  simp [added]

theorem balanced_start (cfg : Config) : Balanced cfg [] ⟨.start cfg, []⟩ where
  keys := Table.keys_map _ _
  walks := fun _ h => absurd h List.not_mem_nil
  accounts := by
    intro dir u hu
    obtain ⟨secret, hu⟩ := Option.ne_none_iff_exists'.1 (Table.mem_keys.1 hu)
    simp only [TrafficState.taken, Restful.counter, Restful.start, Table.get_map, hu, added]
    cases dir <;> rfl

theorem balanced_count (hrest : cfg.restful ≠ none) {steps : List TrafficStep} {s : TrafficState}
    (h : Balanced cfg steps s) {a : TrafficStep} {dir' : TrafficSide} {v : Uuid} {size : UInt64}
    (ha : ∀ dir u, a.adds dir u = counted dir dir' u v size) :
    Balanced cfg (steps ++ [a]) { s with restful := s.restful.count cfg dir' v size } where
  keys := (count_keys s.restful dir' v size).trans h.keys
  walks := h.walks
  accounts := by
    intro dir u hu
    have hcount : (s.restful.count cfg dir' v size).counter dir u ≡ _ [MOD 2 ^ 64] :=
      count_counter hrest (h.keys ▸ hu) dir' v size
    have hsum := (Nat.ModEq.add_left (s.taken dir u) hcount)
    rw [← Nat.add_assoc] at hsum
    rw [added_concat, ha]
    exact hsum.trans ((h.accounts dir u hu).add_right _)

theorem balanced_request {steps : List TrafficStep} {s : TrafficState} (h : Balanced cfg steps s)
    (walker : Walker) (token : Option String) :
    Balanced cfg (steps ++ [.request walker token])
      { s with walks := s.walks ++ [.start walker cfg order token] } where
  keys := h.keys
  walks := by
    intro walk hwalk
    rcases List.mem_append.1 hwalk with hold | hnew
    · exact h.walks walk hold
    · obtain rfl := List.mem_singleton.1 hnew
      exact start_wf walker token
  accounts := by
    intro dir u hu
    have hsame : TrafficState.taken { s with walks := s.walks ++ [.start walker cfg order token] } dir u =
        s.taken dir u := by
      simp [TrafficState.taken, start_taken]
    rw [hsame, added_concat]
    exact h.accounts dir u hu

theorem advance_keys (walk : Walk) (s : Restful) :
    (walk.advance s).1.trafficStats.keys = s.trafficStats.keys := by
  obtain ⟨walker, phase⟩ := walk
  cases phase with
  | walking todo result =>
    cases todo with
    | nil => rfl
    | cons v todo => exact read_keys s walker .tx v
  | between v tx todo result => exact read_keys s walker .rx v
  | done status result => rfl

theorem balanced_advance {steps : List TrafficStep} {s : TrafficState} (h : Balanced cfg steps s) {i : ℕ}
    {walk : Walk} (hi : s.walks[i]? = some walk) :
    Balanced cfg (steps ++ [.advance i])
      ⟨(walk.advance s.restful).1, s.walks.modify i fun _ => (walk.advance s.restful).2⟩ where
  keys := (advance_keys walk s.restful).trans h.keys
  walks := by
    intro walk' hwalk
    obtain ⟨j, hj⟩ := List.mem_iff_getElem?.1 hwalk
    obtain ⟨old, hold, rfl⟩ := Pool.modify_eq_some.1 hj
    split_ifs
    · exact advance_wf (h.walks walk (List.mem_of_getElem? hi)) s.restful
    · exact h.walks old (List.mem_of_getElem? hold)
  accounts := by
    intro dir u hu
    have hstep : (walk.advance s.restful).2.taken dir u + (walk.advance s.restful).1.counter dir u =
        walk.taken dir u + s.restful.counter dir u :=
      advance_taken (h.walks walk (List.mem_of_getElem? hi)) s.restful
    have hsum := Pool.sum_modify hi (fun walk => walk.taken dir u) fun _ => (walk.advance s.restful).2
    have hsame : ((s.walks.modify i fun _ => (walk.advance s.restful).2).map fun walk =>
        walk.taken dir u).sum + (walk.advance s.restful).1.counter dir u =
        s.taken dir u + s.restful.counter dir u := by
      simp only [TrafficState.taken]
      omega
    rw [added_concat]
    exact hsame ▸ h.accounts dir u hu

theorem balanced_step (hrest : cfg.restful ≠ none) {steps : List TrafficStep} {s : TrafficState}
    (h : Balanced cfg steps s) (a : TrafficStep) : Balanced cfg (steps ++ [a]) (s.step cfg order a) := by
  cases a with
  | trafficTx v size =>
    rw [TrafficState.step, trafficTx_eq]
    exact balanced_count hrest h fun _ _ => rfl
  | trafficRx v size =>
    rw [TrafficState.step, trafficRx_eq]
    exact balanced_count hrest h fun _ _ => rfl
  | request walker token => exact balanced_request h walker token
  | advance i =>
    simp only [TrafficState.step]
    cases hi : s.walks[i]? with
    | some walk => exact balanced_advance h hi
    | none =>
      refine ⟨h.keys, h.walks, fun dir u hu => ?_⟩
      rw [added_concat]
      exact h.accounts dir u hu

theorem balanced_run (hrest : cfg.restful ≠ none) (steps : List TrafficStep) :
    Balanced cfg steps ((traffic cfg order).exec (traffic cfg order).init steps) := by
  induction steps using List.reverseRecOn with
  | nil => exact balanced_start cfg
  | append_singleton steps a ih =>
    rw [Machine.exec_concat]
    exact balanced_step hrest ih a

theorem advance_walker (walk : Walk) (s : Restful) : (walk.advance s).2.walker = walk.walker := by
  obtain ⟨walker, (_ | ⟨v, todo⟩) | _ | _⟩ := walk <;> rfl

theorem advance_list (phase : WalkPhase) (s : Restful) : ((Walk.mk .list phase).advance s).1 = s := by
  rcases phase with (_ | ⟨v, todo⟩) | _ | _ <;> simp [Walk.advance]

/-- A step of a `list_traffic` request changes no counter and no reset. -/
theorem lists_step {s : TrafficState} {a : TrafficStep} (h : s.Lists a) :
    (s.step cfg order a).restful = s.restful ∧
      ∀ (i : ℕ) phase, (s.step cfg order a).walks[i]? = some ⟨.reset, phase⟩ ↔
        s.walks[i]? = some ⟨.reset, phase⟩ := by
  cases a with
  | trafficTx v size => cases h
  | trafficRx v size => cases h
  | request walker token =>
    cases walker with
    | reset => cases h
    | list =>
      refine ⟨rfl, fun i phase => ?_⟩
      simp [TrafficState.step, Pool.concat_eq_some, Walk.start]
  | advance i =>
    obtain ⟨phase, hi⟩ := h
    simp only [TrafficState.step, hi]
    refine ⟨advance_list phase s.restful, fun j phase' => ?_⟩
    rw [Pool.modify_eq_some]
    constructor
    · rintro ⟨old, hold, heq⟩
      split_ifs at heq with hij
      · have := congrArg Walk.walker heq
        rw [advance_walker] at this
        cases this
      · rw [heq]
        exact hold
    · intro hj
      refine ⟨_, hj, (if_neg ?_).symm⟩
      rintro rfl
      rw [hi] at hj
      cases hj

/-- Traffic accounting after any interleaving of relays and requests: for every
user and each direction, what the completed resets reported, what the others have
swapped out and what is in the counter make up what was added; and no step of a
`list_traffic` request changes any of it. -/
theorem traffic_conserved (cfg : Config) (order : UserOrder cfg) (hrest : cfg.restful ≠ none)
    (steps : List TrafficStep) :
    let s := (traffic cfg order).exec (traffic cfg order).init steps
    (∀ dir u, cfg.users.get u ≠ none →
      s.reported dir u + s.swapped dir u + s.restful.counter dir u ≡ added dir u steps [MOD 2 ^ 64]) ∧
    ∀ a, s.Lists a → (s.step cfg order a).restful = s.restful ∧
      ∀ (i : ℕ) phase, (s.step cfg order a).walks[i]? = some ⟨.reset, phase⟩ ↔
        s.walks[i]? = some ⟨.reset, phase⟩ := by
  refine ⟨fun dir u hu => ?_, fun a => lists_step⟩
  rw [← taken_eq]
  exact (balanced_run hrest steps).accounts dir u hu

/-- A server with one user. -/
def oneUserConfig : Config := ⟨.insert .empty (Vector.replicate 16 0) "", some ⟨"secret", 0⟩, 3000, 3000⟩

def oneOrder : UserOrder oneUserConfig where
  users := [Vector.replicate 16 0]
  nodup := List.nodup_singleton _
  mem_iff := by
    intro uuid
    simp [oneUserConfig, Table.get_insert]

/-- A relay counts between the two swaps of a reset. -/
theorem traffic_conserved_reset :
    let s := (traffic oneUserConfig oneOrder).exec (traffic oneUserConfig oneOrder).init
      [.trafficTx (Vector.replicate 16 0) 5, .request .reset none, .advance 0,
        .trafficTx (Vector.replicate 16 0) 3]
    s.reported .tx (Vector.replicate 16 0) + s.swapped .tx (Vector.replicate 16 0) +
      s.restful.counter .tx (Vector.replicate 16 0) ≡ 8 [MOD 2 ^ 64] :=
  (traffic_conserved oneUserConfig oneOrder (by decide) [.trafficTx (Vector.replicate 16 0) 5,
    .request .reset none, .advance 0, .trafficTx (Vector.replicate 16 0) 3]).1 .tx
    (Vector.replicate 16 0) (by decide)

end Tuic.Server
