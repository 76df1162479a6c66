import Tuic.Lib.Pool
import Tuic.Spec.Socks5

/-! When the associations of the client have different ids. The ids wrap around, and
nobody looks whether the next one is in use. -/

namespace Tuic.Client

open Lib

section

variable {s s' : Socks5} {a : Socks5Step}

/-! ### What a step does -/

inductive Socks5Effect (s : Socks5) : Socks5Step → Socks5 → Outcome Empty Unit → Prop
  | associated : Socks5Effect s .associate s.associate (.ok ())
  | failed (k : ℕ) (assocId : UInt16) (entry : s.associations[k]? = some ⟨assocId, .starting⟩) :
      Socks5Effect s (.fail k) (s.enter k .closed) (.ok ())
  | inserted (k : ℕ) (assocId : UInt16) (entry : s.associations[k]? = some ⟨assocId, .starting⟩) :
      Socks5Effect s (.insert k)
        { s.enter k .live with udpSessions := s.udpSessions.insert assocId k } (.ok ())
  | removed (k session : ℕ) (assocId : UInt16) (entry : s.associations[k]? = some ⟨assocId, .live⟩)
      (listed : s.udpSessions.get assocId = some session) :
      Socks5Effect s (.close k)
        { s.enter k .closed with udpSessions := s.udpSessions.remove assocId } (.ok ())
  | panicked (k : ℕ) (assocId : UInt16) (entry : s.associations[k]? = some ⟨assocId, .live⟩)
      (missing : s.udpSessions.get assocId = none) :
      Socks5Effect s (.close k) (s.enter k .closed) (.panic .unwrapNone)
  | idle (a : Socks5Step) (silent : ∀ k, ¬ Inserts k s a) : Socks5Effect s a s (.ok ())

theorem step_socks5Effect (s : Socks5) (a : Socks5Step) :
    Socks5Effect s a (s.step a).1 (s.step a).2 := by
  cases a with
  | associate => exact .associated
  | fail k =>
    simp only [Socks5.step, Socks5.fail]
    split
    · exact .failed k _ ‹_›
    · exact .idle _ fun _ h => by cases h.1
  | insert k =>
    simp only [Socks5.step, Socks5.insert]
    split
    · exact .inserted k _ ‹_›
    · rename_i hnone
      refine .idle _ fun k' h => ?_
      obtain ⟨heq, ⟨assocId, stage⟩, hu, rfl⟩ := h
      obtain rfl := Socks5Step.insert.inj heq
      exact hnone assocId hu
  | close k =>
    simp only [Socks5.step, Socks5.close]
    split
    · split
      · exact .removed k _ _ ‹_› ‹_›
      · exact .panicked k _ ‹_› ‹_›
    · exact .idle _ fun _ h => by cases h.1

/-- A live association after association `k` entered a stage. -/
theorem live_enter {k j : ℕ} {stage : Stage} {v : Association}
    (hv : (s.enter k stage).associations[j]? = some v) (hlive : v.stage = .live) :
    (j = k ∧ stage = .live) ∨ (j ≠ k ∧ s.associations[j]? = some v) := by
  obtain ⟨u, hu, rfl⟩ := Pool.modify_eq_some.1 hv
  by_cases hkj : k = j
  · rw [if_pos hkj] at hlive
    exact .inl ⟨hkj.symm, hlive⟩
  · exact .inr ⟨Ne.symm hkj, by rwa [if_neg hkj]⟩

/-! ### The ids -/

/-- Every association has its number as its id, up to the wrap. -/
structure Socks5.Numbered (s : Socks5) : Prop where
  next : s.nextAssocId = UInt16.ofNat s.associations.length
  ids : ∀ (k : ℕ) u, s.associations[k]? = some u → u.assocId = UInt16.ofNat k

theorem Socks5.Numbered.enter (h : s.Numbered) (k : ℕ) (stage : Stage) : (s.enter k stage).Numbered := by
  refine ⟨?_, fun j v hv => ?_⟩
  · rw [Socks5.enter, List.length_modify]
    exact h.next
  · obtain ⟨u, hu, rfl⟩ := Pool.modify_eq_some.1 hv
    split_ifs
    · exact h.ids j u hu
    · exact h.ids j u hu

theorem Socks5.Numbered.step {o : Outcome Empty Unit} (he : Socks5Effect s a s' o) (h : s.Numbered) :
    s'.Numbered := by
  cases he with
  | associated =>
    refine ⟨?_, fun k u hu => ?_⟩
    · change s.nextAssocId + 1 = UInt16.ofNat (s.associations ++ [_]).length
      rw [List.length_append, UInt16.ofNat_add, h.next]
      rfl
    · rcases Pool.concat_eq_some.1 hu with hold | ⟨rfl, rfl⟩
      · exact h.ids k u hold
      · exact h.next
  | failed k assocId hk => exact h.enter k .closed
  | inserted k assocId hk => exact ⟨(h.enter k .live).next, (h.enter k .live).ids⟩
  | removed k session assocId hk => exact ⟨(h.enter k .closed).next, (h.enter k .closed).ids⟩
  | panicked k assocId hk => exact h.enter k .closed
  | idle => exact h

theorem Socks5.Numbered.same (h : s.Numbered) {j k : ℕ} {u v : Association}
    (hu : s.associations[j]? = some u) (hv : s.associations[k]? = some v) :
    u.assocId = v.assocId ↔ j % 65536 = k % 65536 := by
  rw [h.ids j u hu, h.ids k v hv, ← UInt16.toNat_inj, UInt16.toNat_ofNat', UInt16.toNat_ofNat']

theorem socks5_numbered (steps : List Socks5Step) (n : ℕ) : (socks5.stateAt steps n).Numbered :=
  (socks5.stateAt_reachable steps n).invariant (P := Socks5.Numbered)
    ⟨rfl, fun k u hu => by simp [socks5, Socks5.new] at hu⟩
    fun s a h => h.step (step_socks5Effect s a)

/-! ### Live associations -/

theorem new_apart : Socks5.new.Apart :=
  ⟨fun _ _ _ _ hu => by simp [Socks5.new] at hu, fun _ _ hu => by simp [Socks5.new] at hu⟩

/-- Associations stay apart where none becomes live and the live ones keep their
sessions. -/
theorem Socks5.Apart.fewer (h : s.Apart)
    (hlive : ∀ (k : ℕ) u, s'.associations[k]? = some u → u.stage = .live →
      s.associations[k]? = some u ∧ s'.udpSessions.get u.assocId = s.udpSessions.get u.assocId) :
    s'.Apart where
  distinct j k u v hu hv hul hvl :=
    h.distinct j k u v (hlive j u hu hul).1 (hlive k v hv hvl).1 hul hvl
  listed k u hu hl := by
    obtain ⟨hold, hget⟩ := hlive k u hu hl
    rw [hget]
    exact h.listed k u hold hl

/-- An insertion apart from the live associations keeps them apart. -/
theorem Socks5.Apart.inserted (h : s.Apart) (hn : s.Numbered) {k : ℕ} {assocId : UInt16}
    (hk : s.associations[k]? = some ⟨assocId, .starting⟩)
    (hinserts : ∀ (j : ℕ) u, s.associations[j]? = some u → u.stage = .live → j % 65536 ≠ k % 65536) :
    ({ s.enter k .live with udpSessions := s.udpSessions.insert assocId k } : Socks5).Apart := by
  have hnew : ∀ v, (s.enter k .live).associations[k]? = some v → v.assocId = assocId := by
    intro v hv
    obtain ⟨u, hu, rfl⟩ := Pool.modify_eq_some.1 hv
    obtain rfl := Option.some.inj (hk.symm.trans hu)
    simp
  have hold : ∀ (j : ℕ) v, s.associations[j]? = some v → v.stage = .live → v.assocId ≠ assocId :=
    fun j v hv hl heq => hinserts j v hv hl ((hn.same hv hk).1 heq)
  refine ⟨fun j i u v hu hv hul hvl heq => ?_, fun j v hv hl => ?_⟩
  · rcases live_enter hu hul with ⟨rfl, -⟩ | ⟨-, hu'⟩
    · rcases live_enter hv hvl with ⟨rfl, -⟩ | ⟨-, hv'⟩
      · rfl
      · exact absurd (heq.symm.trans (hnew u hu)) (hold i v hv' hvl)
    · rcases live_enter hv hvl with ⟨rfl, -⟩ | ⟨-, hv'⟩
      · exact absurd (heq.trans (hnew v hv)) (hold j u hu' hul)
      · exact h.distinct j i u v hu' hv' hul hvl heq
  · rcases live_enter hv hl with ⟨rfl, -⟩ | ⟨-, hv'⟩
    · rw [hnew v hv]
      exact Table.get_insert_self _ _ _
    · exact (Table.get_insert_ne _ _ (hold j v hv' hl)).trans (h.listed j v hv' hl)

theorem Socks5.Apart.step {o : Outcome Empty Unit} (he : Socks5Effect s a s' o) (hn : s.Numbered)
    (hinserts : ∀ k, Inserts k s a → ∀ (j : ℕ) u, s.associations[j]? = some u → u.stage = .live →
      j % 65536 ≠ k % 65536)
    (h : s.Apart) : s'.Apart ∧ ∀ p, o ≠ .panic p := by
  cases he with
  | associated =>
    refine ⟨h.fewer fun k u hu hl => ⟨?_, rfl⟩, nofun⟩
    rcases Pool.concat_eq_some.1 hu with hold | ⟨-, rfl⟩
    · exact hold
    · cases hl
  | failed k assocId hk =>
    refine ⟨h.fewer fun j u hu hl => ?_, nofun⟩
    rcases live_enter hu hl with ⟨-, hstage⟩ | ⟨-, hold⟩
    · cases hstage
    · exact ⟨hold, rfl⟩
  | inserted k assocId hk => exact ⟨h.inserted hn hk (hinserts k ⟨rfl, _, hk, rfl⟩), nofun⟩
  | removed k session assocId hk hlisted =>
    refine ⟨h.fewer fun j u hu hl => ?_, nofun⟩
    rcases live_enter hu hl with ⟨-, hstage⟩ | ⟨hne, hold⟩
    · cases hstage
    · exact ⟨hold, Table.get_remove_ne _ fun heq => hne (h.distinct j k u _ hold hk hl rfl heq)⟩
  | panicked k assocId hk hmissing =>
    rw [h.listed k _ hk rfl] at hmissing
    cases hmissing
  | idle => exact ⟨h, nofun⟩

end

theorem socks5EffectAt {steps : List Socks5Step} {n : ℕ} {a : Socks5Step} (ha : steps[n]? = some a) :
    Socks5Effect (socks5.stateAt steps n) a (socks5.stateAt steps (n + 1))
      (socks5.step (socks5.stateAt steps n) a).2 := by
  rw [socks5.stateAt_succ ha]
  exact step_socks5Effect _ a

theorem InsertsApart.apart {steps : List Socks5Step} (h : InsertsApart steps) :
    ∀ n ≤ steps.length, (socks5.stateAt steps n).Apart := by
  intro n
  refine Machine.run_induction (k := 0) (P := fun n => (socks5.stateAt steps n).Apart) new_apart
    (fun i a _ ha ih => ?_) (Nat.zero_le n)
  exact (ih.step (socks5EffectAt ha) (socks5_numbered steps i) fun k hk => h i k ⟨a, ha, hk⟩).1

/-- An insertion next to a live association of the same id makes two of them. -/
theorem KeepsApart.inserts {steps : List Socks5Step} (h : KeepsApart steps) : InsertsApart steps := by
  rintro i k ⟨a, ha, rfl, ⟨assocId, stage⟩, hu, rfl⟩ j v hv hl heq
  have hlt := (List.getElem?_eq_some_iff.1 ha).1
  have hne : k ≠ j := by
    rintro rfl
    obtain rfl := Option.some.inj (hu.symm.trans hv)
    cases hl
  have hnext : (socks5.stateAt steps (i + 1)).associations =
      ((socks5.stateAt steps i).enter k .live).associations := by
    rw [socks5.stateAt_succ ha]
    change (Socks5.insert _ k).associations = _
    simp [Socks5.insert, hu]
  have hold : (socks5.stateAt steps (i + 1)).associations[j]? = some v := by
    rw [hnext]
    exact Pool.modify_eq_some.2 ⟨v, hv, (if_neg hne).symm⟩
  have hnew : (socks5.stateAt steps (i + 1)).associations[k]? = some ⟨assocId, .live⟩ := by
    rw [hnext]
    exact Pool.modify_eq_some.2 ⟨_, hu, (if_pos rfl).symm⟩
  have hsame := ((socks5_numbered steps i).same hv hu).2 heq
  exact hne ((h.1 (i + 1) hlt).distinct j k v _ hold hnew hl rfl hsame).symm

theorem InsertsApart.keeps {steps : List Socks5Step} (h : InsertsApart steps) : KeepsApart steps := by
  refine ⟨h.apart, fun i p hout => ?_⟩
  obtain ⟨a, ha, ho⟩ := socks5.outAt_some hout
  have hlt := (List.getElem?_eq_some_iff.1 ha).1
  exact ((h.apart i (Nat.le_of_lt hlt)).step (socks5EffectAt ha) (socks5_numbered steps i)
    fun k hk => h i k ⟨a, ha, hk⟩).2 p ho

/-- Associations that end before 65536 newer ones are requested never meet their ids. -/
theorem keepsApart_of_young {steps : List Socks5Step}
    (h : ∀ i k, socks5.At steps (Inserts k) i → ∀ (j : ℕ) u,
      (socks5.stateAt steps i).associations[j]? = some u → u.stage = .live →
        j < k + 65536 ∧ k < j + 65536) : KeepsApart steps := by
  refine InsertsApart.keeps fun i k hk j u hu hl heq => ?_
  obtain ⟨a, ha, rfl, v, hv, hstage⟩ := hk
  obtain ⟨hbelow, habove⟩ := h i k ⟨_, ha, rfl, v, hv, hstage⟩ j u hu hl
  obtain rfl : j = k := by omega
  obtain rfl := Option.some.inj (hv.symm.trans hu)
  rw [hstage] at hl
  cases hl

/-- Live associations keep different ids and their own sessions exactly if none is
inserted while one of the same id is live. -/
theorem keepsApart_iff (steps : List Socks5Step) : KeepsApart steps ↔ InsertsApart steps :=
  ⟨KeepsApart.inserts, InsertsApart.keeps⟩

/-! ### A full turn of the ids -/

/-- Requests for associations add associations that have not started. -/
theorem exec_associate (s : Socks5) (n : ℕ) : ∃ more : List Association,
    (socks5.exec s (List.replicate n .associate)).associations = s.associations ++ more ∧
      more.length = n ∧ ∀ u ∈ more, u.stage = .starting := by
  induction n generalizing s with
  | zero => exact ⟨[], by simp [Machine.exec], rfl, nofun⟩
  | succ n ih =>
    obtain ⟨more, hmore, hlength, hstage⟩ := ih s.associate
    refine ⟨⟨s.nextAssocId, .starting⟩ :: more, ?_, by simp [hlength], ?_⟩
    · rw [List.append_cons]
      exact hmore
    · rintro u (_ | ⟨_, hu⟩)
      · rfl
      · exact hstage u hu

/-- The first association lives on while `n` more are requested, and the last of them
goes live. -/
def turn (n : ℕ) : List Socks5Step :=
  [.associate, .insert 0] ++ List.replicate n .associate ++ [.insert n]

theorem turn_inserts (n : ℕ) (hn : n ≠ 0) : socks5.At (turn n) (Inserts n) (n + 2) ∧
    (socks5.stateAt (turn n) (n + 2)).associations[0]? = some ⟨0, .live⟩ := by
  have hfront : ([.associate, .insert 0] ++ List.replicate n .associate : List Socks5Step).length = n + 2 := by
    rw [List.length_append, List.length_replicate, Nat.add_comm]
    rfl
  have hstate : socks5.stateAt (turn n) (n + 2) =
      socks5.exec (socks5.exec .new [.associate, .insert 0]) (List.replicate n .associate) := by
    rw [Machine.stateAt, turn, List.take_left' hfront, Machine.exec_append]
    rfl
  obtain ⟨more, hmore, hlength, hstage⟩ := exec_associate (socks5.exec .new [.associate, .insert 0]) n
  rw [← hstate] at hmore
  replace hmore : _ = ⟨0, .live⟩ :: more := hmore
  obtain ⟨m, rfl⟩ := Nat.exists_eq_succ_of_ne_zero hn
  have hlast : m < more.length := by omega
  refine ⟨⟨.insert (m + 1), ?_, rfl, more[m], ?_, hstage _ (List.getElem_mem hlast)⟩, ?_⟩
  · rw [turn, List.getElem?_append_right (Nat.le_of_eq hfront), hfront, Nat.sub_self]
    rfl
  · rw [hmore]
    exact List.getElem?_eq_getElem hlast
  · rw [hmore]
    rfl

theorem turn_collides : ¬ KeepsApart (turn 65536) := by
  intro h
  obtain ⟨hinsert, hfirst⟩ := turn_inserts 65536 (by decide)
  exact h.inserts _ 65536 hinsert 0 _ hfirst rfl rfl

end Tuic.Client
