import Mathlib.Data.Nat.Notation
import Tuic.Spec.Tls

/-! Which certificate and key a server shows. The two reads of a load come after the message
that led to it, and a message comes after the write that it tells of. -/

namespace Tuic.Server

open Lib

variable {φ χ κ : Type} {l : Loader φ χ κ}

/-! ### What a step does -/

inductive ResolverEffect (l : Loader φ χ κ) (s : CertResolver φ χ κ) : ResolverStep φ → CertResolver φ χ κ → Prop
  | idle (a : ResolverStep φ) : ResolverEffect l s a s
  | wroteCert (content : φ) (event : Bool) :
      ResolverEffect l s (.writeCert content event) (s.writeCert content event)
  | wroteKey (content : φ) : ResolverEffect l s (.writeKey content) { s with keyFile := content }
  | readCert (cert : χ) (loading : s.phase = .loading) (ok : l.loadCertChain s.certFile = some cert) :
      ResolverEffect l s .readCert { s with phase := .loadingKey cert }
  | readKey (cert : χ) (key : κ) (loading : s.phase = .loadingKey cert) (ok : l.loadPrivKey s.keyFile = some key) :
      ResolverEffect l s .readKey { s with phase := .loaded cert key }
  | stored (cert : χ) (key : κ) (loaded : s.phase = .loaded cert key) :
      ResolverEffect l s .store
        { s with certKey := some (cert, key), phase := if s.watched then .receiving else .starting }
  | started (starting : s.phase = .starting) :
      ResolverEffect l s (.startWatch true) { s with phase := .receiving, watched := true }
  | notified (watched : s.watched = true) :
      ResolverEffect l s .notify { s with events := s.events - 1, unread := s.unread + 1 }
  | received (receiving : s.phase = .receiving) :
      ResolverEffect l s .recv { s with phase := .loading, unread := 0 }
  | failed (a : ResolverStep φ) (fails : Fails l s a) : ResolverEffect l s a s.finish

theorem step_resolverEffect (l : Loader φ χ κ) (s : CertResolver φ χ κ) (a : ResolverStep φ) :
    ResolverEffect l s a (s.step l a) := by
  cases a with
  | writeCert content event => exact .wroteCert content event
  | writeKey content => exact .wroteKey content
  | readCert =>
    simp only [CertResolver.step, CertResolver.readCert]
    split
    · rename_i hphase
      cases hload : l.loadCertChain s.certFile with
      | none => exact .failed _ (.cert hphase hload)
      | some cert => exact .readCert cert hphase hload
    · exact .idle _
  | readKey =>
    simp only [CertResolver.step, CertResolver.readKey]
    split
    · rename_i cert hphase
      cases hload : l.loadPrivKey s.keyFile with
      | none => exact .failed _ (.key cert hphase hload)
      | some key => exact .readKey cert key hphase hload
    · exact .idle _
  | store =>
    simp only [CertResolver.step, CertResolver.store]
    split
    · exact .stored _ _ ‹_›
    · exact .idle _
  | startWatch ok =>
    simp only [CertResolver.step, CertResolver.startWatch]
    split
    · cases ok with
      | true => exact .started ‹_›
      | false => exact .failed _ (.start ‹_›)
    · exact .idle _
  | notify =>
    simp only [CertResolver.step, CertResolver.notify]
    split_ifs with hevent
    · exact .notified (by simp_all)
    · exact .idle _
  | recv =>
    simp only [CertResolver.step, CertResolver.recv]
    split
    · split_ifs with hnone hone
      · exact .idle _
      · exact .received ‹_›
      · exact .failed _ (.lagged ‹_› (by omega))
    · exact .idle _

section

variable {certFile keyFile : φ} {steps : List (ResolverStep φ)}

theorem resolverEffectAt (l : Loader φ χ κ) (certFile keyFile : φ) {n : ℕ} {a : ResolverStep φ}
    (ha : steps[n]? = some a) : ResolverEffect l ((certResolver l certFile keyFile).stateAt steps n) a
      ((certResolver l certFile keyFile).stateAt steps (n + 1)) := by
  rw [(certResolver l certFile keyFile).stateAt_succ ha]
  exact step_resolverEffect l _ a

/-! ### What is served has been loaded -/

/-- The certificate has been loaded at the moment `w` or later. -/
def CertSince (l : Loader φ χ κ) (certFile keyFile : φ) (steps : List (ResolverStep φ)) (w n : ℕ) (cert : χ) : Prop :=
  ∃ i, w ≤ i ∧ i < n ∧ l.loadCertChain ((certResolver l certFile keyFile).stateAt steps i).certFile = some cert

/-- And then the key. -/
def LoadedSince (l : Loader φ χ κ) (certFile keyFile : φ) (steps : List (ResolverStep φ)) (w n : ℕ) (cert : χ)
    (key : κ) : Prop :=
  ∃ i j, w ≤ i ∧ j < n ∧ LoadedAt l certFile keyFile steps cert key i j

theorem CertSince.succ {w n : ℕ} {cert : χ} (h : CertSince l certFile keyFile steps w n cert) :
    CertSince l certFile keyFile steps w (n + 1) cert := by
  obtain ⟨i, hwi, hin, hcert⟩ := h
  exact ⟨i, hwi, Nat.lt_succ_of_lt hin, hcert⟩

theorem LoadedSince.succ {w n : ℕ} {cert : χ} {key : κ} (h : LoadedSince l certFile keyFile steps w n cert key) :
    LoadedSince l certFile keyFile steps w (n + 1) cert key := by
  obtain ⟨i, j, hwi, hjn, hloaded⟩ := h
  exact ⟨i, j, hwi, Nat.lt_succ_of_lt hjn, hloaded⟩

/-- What a load has so far, it has since the moment `w`. -/
structure HoldsSince (l : Loader φ χ κ) (certFile keyFile : φ) (steps : List (ResolverStep φ)) (w n : ℕ)
    (s : CertResolver φ χ κ) : Prop where
  cert : ∀ cert, s.phase = .loadingKey cert → CertSince l certFile keyFile steps w n cert
  key : ∀ cert key, s.phase = .loaded cert key → LoadedSince l certFile keyFile steps w n cert key

/-- A load that begins has nothing yet. -/
theorem holdsSince_of_idle {w n : ℕ} {s : CertResolver φ χ κ} (hcert : ∀ cert, s.phase ≠ .loadingKey cert)
    (hkey : ∀ cert key, s.phase ≠ .loaded cert key) : HoldsSince l certFile keyFile steps w n s :=
  ⟨fun cert h => absurd h (hcert cert), fun cert key h => absurd h (hkey cert key)⟩

theorem HoldsSince.step {w n : ℕ} (hwn : w ≤ n) {a : ResolverStep φ} {s' : CertResolver φ χ κ}
    (h : HoldsSince l certFile keyFile steps w n ((certResolver l certFile keyFile).stateAt steps n))
    (he : ResolverEffect l ((certResolver l certFile keyFile).stateAt steps n) a s') :
    HoldsSince l certFile keyFile steps w (n + 1) s' := by
  have hsame {s' : CertResolver φ χ κ}
      (hphase : s'.phase = ((certResolver l certFile keyFile).stateAt steps n).phase) :
      HoldsSince l certFile keyFile steps w (n + 1) s' :=
    ⟨fun cert heq => (h.cert cert (hphase ▸ heq)).succ, fun cert key heq => (h.key cert key (hphase ▸ heq)).succ⟩
  cases he with
  | idle => exact hsame rfl
  | wroteCert content event => exact hsame rfl
  | wroteKey content => exact hsame rfl
  | notified watched => exact hsame rfl
  | readCert cert loading ok =>
    refine ⟨fun cert' heq => ?_, fun cert' key heq => by cases heq⟩
    cases heq
    exact ⟨n, hwn, Nat.lt_succ_self n, ok⟩
  | readKey cert key loading ok =>
    refine ⟨fun cert' heq => (by cases heq), fun cert' key' heq => ?_⟩
    cases heq
    obtain ⟨i, hwi, hin, hcert⟩ := h.cert cert loading
    exact ⟨i, n, hwi, Nat.lt_succ_self n, Nat.le_of_lt hin, hcert, ok⟩
  | stored cert key loaded =>
    apply holdsSince_of_idle
    · intro cert'
      dsimp only
      split_ifs <;> exact fun heq => by cases heq
    · intro cert' key'
      dsimp only
      split_ifs <;> exact fun heq => by cases heq
  | started starting => exact holdsSince_of_idle (by simp) (by simp)
  | received receiving => exact holdsSince_of_idle (by simp) (by simp)
  | failed a fails => exact holdsSince_of_idle (by simp [CertResolver.finish]) (by simp [CertResolver.finish])

/-- What is served, and what is to be, has been loaded. -/
theorem loaded_at {n : ℕ} (hn : n ≤ steps.length) :
    HoldsSince l certFile keyFile steps 0 n ((certResolver l certFile keyFile).stateAt steps n) ∧
      ∀ cert key, ((certResolver l certFile keyFile).stateAt steps n).certKey = some (cert, key) →
        LoadedSince l certFile keyFile steps 0 n cert key := by
  refine Machine.run_induction (k := 0)
    (P := fun n => HoldsSince l certFile keyFile steps 0 n ((certResolver l certFile keyFile).stateAt steps n) ∧
      ∀ cert key, ((certResolver l certFile keyFile).stateAt steps n).certKey = some (cert, key) →
        LoadedSince l certFile keyFile steps 0 n cert key)
    ⟨holdsSince_of_idle (fun _ h => by cases h) (fun _ _ h => by cases h), fun _ _ h => by cases h⟩
    (fun n a _ ha ih => ?_) (Nat.zero_le n) hn
  obtain ⟨hholds, hserved⟩ := ih
  have he := resolverEffectAt l certFile keyFile ha
  refine ⟨hholds.step (Nat.zero_le n) he, ?_⟩
  generalize (certResolver l certFile keyFile).stateAt steps (n + 1) = s' at he
  cases he with
  | stored cert key loaded =>
    intro cert' key' heq
    cases heq
    exact (hholds.key cert key loaded).succ
  | _ => exact fun cert key heq => (hserved cert key heq).succ

/-! ### What is served is fresh -/

/-- A write that came before `w` is still to be seen, or it has been. -/
inductive Due (l : Loader φ χ κ) (certFile keyFile : φ) (steps : List (ResolverStep φ)) (w n : ℕ)
    (s : CertResolver φ χ κ) : Prop
  | ended (phase : s.phase = .ended)
  | pending (watched : s.watched = true) (pending : 0 < s.events ∨ 0 < s.unread)
  | seen (watched : s.watched = true) (phase : s.phase ≠ .starting) (holds : HoldsSince l certFile keyFile steps w n s)
      (serves : s.phase = .receiving → ∃ cert key, s.certKey = some (cert, key) ∧
        LoadedSince l certFile keyFile steps w n cert key)

theorem Due.step {w n : ℕ} (hwn : w ≤ n) {a : ResolverStep φ} {s' : CertResolver φ χ κ}
    (h : Due l certFile keyFile steps w n ((certResolver l certFile keyFile).stateAt steps n))
    (he : ResolverEffect l ((certResolver l certFile keyFile).stateAt steps n) a s') :
    Due l certFile keyFile steps w (n + 1) s' := by
  cases h with
  | ended phase =>
    cases he with
    | idle => exact .ended phase
    | wroteCert content event => exact .ended phase
    | wroteKey content => exact .ended phase
    | notified watched => exact .ended phase
    | failed a fails => exact .ended rfl
    | readCert cert loading => rw [phase] at loading; cases loading
    | readKey cert key loading => rw [phase] at loading; cases loading
    | stored cert key loaded => rw [phase] at loaded; cases loaded
    | started starting => rw [phase] at starting; cases starting
    | received receiving => rw [phase] at receiving; cases receiving
  | pending watched pending =>
    cases he with
    | received receiving => exact .seen watched (by simp) (holdsSince_of_idle (by simp) (by simp)) (by simp)
    | notified _ => exact .pending watched (.inr (Nat.succ_pos _))
    | failed a fails => exact .ended rfl
    | wroteCert content event =>
      refine .pending watched (pending.imp_left fun hevents => ?_)
      simp only [CertResolver.writeCert]
      split_ifs <;> omega
    | started starting => exact .pending rfl pending
    | _ => exact .pending watched pending
  | seen watched phase holds serves =>
    have hholds := holds.step hwn he
    have hserves (hreceiving : ((certResolver l certFile keyFile).stateAt steps n).phase = .receiving) :
        ∃ cert key, ((certResolver l certFile keyFile).stateAt steps n).certKey = some (cert, key) ∧
          LoadedSince l certFile keyFile steps w (n + 1) cert key := by
      obtain ⟨cert, key, hserved, hloaded⟩ := serves hreceiving
      exact ⟨cert, key, hserved, hloaded.succ⟩
    cases he with
    | idle => exact .seen watched phase hholds hserves
    | wroteCert content event => exact .seen watched phase hholds hserves
    | wroteKey content => exact .seen watched phase hholds hserves
    | readCert cert loading ok => exact .seen watched (by simp) hholds (by simp)
    | readKey cert key loading ok => exact .seen watched (by simp) hholds (by simp)
    | stored cert key loaded =>
      exact .seen watched (by simp [watched]) hholds fun _ => ⟨cert, key, rfl, (holds.key cert key loaded).succ⟩
    | started starting => exact absurd starting phase
    | notified _ => exact .pending watched (.inr (Nat.succ_pos _))
    | received receiving => exact .seen watched (by simp) hholds (by simp)
    | failed a fails => exact .ended rfl

theorem due_at {w n : ℕ} (hwn : w < n) (hn : n ≤ steps.length)
    (hnoticed : (certResolver l certFile keyFile).At steps Noticed w) :
    Due l certFile keyFile steps (w + 1) n ((certResolver l certFile keyFile).stateAt steps n) := by
  refine Machine.run_induction
    (P := fun n => Due l certFile keyFile steps (w + 1) n ((certResolver l certFile keyFile).stateAt steps n))
    ?_ (fun i a hwi ha ih => ih.step hwi (resolverEffectAt l certFile keyFile ha)) hwn hn
  obtain ⟨a, ha, hwatched, content, event, rfl, hevent⟩ := hnoticed
  rw [(certResolver l certFile keyFile).stateAt_succ ha]
  refine .pending hwatched (.inl ?_)
  change 0 < (CertResolver.writeCert _ content event).events
  rcases hevent with rfl | hevents
  · simp [CertResolver.writeCert, hwatched]
  · simp only [CertResolver.writeCert]
    split_ifs <;> omega

/-- A file that is not written stays as it is. -/
theorem certFile_of_quiet {i n : ℕ} (hin : i ≤ n) (hn : n ≤ steps.length)
    (h : ∀ k content event, i ≤ k → k < n → steps[k]? ≠ some (.writeCert content event)) :
    ((certResolver l certFile keyFile).stateAt steps i).certFile =
      ((certResolver l certFile keyFile).stateAt steps n).certFile := by
  refine Machine.run_induction (P := fun m => m ≤ n → ((certResolver l certFile keyFile).stateAt steps i).certFile =
    ((certResolver l certFile keyFile).stateAt steps m).certFile) (fun _ => rfl) (fun k a hik ha ih hk => ?_) hin hn
    (Nat.le_refl n)
  refine (ih (Nat.le_of_succ_le hk)).trans ?_
  have he := resolverEffectAt l certFile keyFile ha
  generalize (certResolver l certFile keyFile).stateAt steps (k + 1) = s' at he
  cases he with
  | wroteCert content event => exact absurd ha (h k content event hik hk)
  | _ => rfl

theorem keyFile_of_quiet {i n : ℕ} (hin : i ≤ n) (hn : n ≤ steps.length)
    (h : ∀ k content, i ≤ k → k < n → steps[k]? ≠ some (.writeKey content)) :
    ((certResolver l certFile keyFile).stateAt steps i).keyFile =
      ((certResolver l certFile keyFile).stateAt steps n).keyFile := by
  refine Machine.run_induction (P := fun m => m ≤ n → ((certResolver l certFile keyFile).stateAt steps i).keyFile =
    ((certResolver l certFile keyFile).stateAt steps m).keyFile) (fun _ => rfl) (fun k a hik ha ih hk => ?_) hin hn
    (Nat.le_refl n)
  refine (ih (Nat.le_of_succ_le hk)).trans ?_
  have he := resolverEffectAt l certFile keyFile ha
  generalize (certResolver l certFile keyFile).stateAt steps (k + 1) = s' at he
  cases he with
  | wroteKey content => exact absurd ha (h k content hik hk)
  | _ => rfl

/-- At rest, what is served has been loaded after every write that was noticed. -/
theorem fresh_at {w n : ℕ} (hwn : w < n) (hn : n ≤ steps.length)
    (hnoticed : (certResolver l certFile keyFile).At steps Noticed w)
    (hrest : ((certResolver l certFile keyFile).stateAt steps n).AtRest) :
    ∃ cert key, ((certResolver l certFile keyFile).stateAt steps n).certKey = some (cert, key) ∧
      LoadedSince l certFile keyFile steps (w + 1) n cert key := by
  obtain ⟨hphase, hevents, hunread⟩ := hrest
  cases due_at hwn hn hnoticed with
  | ended phase =>
    rw [hphase] at phase
    cases phase
  | pending watched pending => omega
  | seen watched phase holds serves => exact serves hphase

/-- The task returns by a step that fails, and after that it serves what it has served. -/
theorem ended_at {n : ℕ} (hn : n ≤ steps.length)
    (h : ((certResolver l certFile keyFile).stateAt steps n).phase = .ended) :
    ∃ k < n, (certResolver l certFile keyFile).At steps (Fails l) k ∧
      ((certResolver l certFile keyFile).stateAt steps n).certKey =
        ((certResolver l certFile keyFile).stateAt steps k).certKey := by
  revert h
  refine Machine.run_induction (k := 0)
    (P := fun n => ((certResolver l certFile keyFile).stateAt steps n).phase = .ended →
      ∃ k < n, (certResolver l certFile keyFile).At steps (Fails l) k ∧
        ((certResolver l certFile keyFile).stateAt steps n).certKey =
          ((certResolver l certFile keyFile).stateAt steps k).certKey)
    (fun h => by cases h) (fun n a _ ha ih h => ?_) (Nat.zero_le n) hn
  have he := resolverEffectAt l certFile keyFile ha
  generalize hs' : (certResolver l certFile keyFile).stateAt steps (n + 1) = s' at he h ⊢
  have hearlier (hphase : ((certResolver l certFile keyFile).stateAt steps n).phase = .ended) :
      ∃ k < n + 1, (certResolver l certFile keyFile).At steps (Fails l) k ∧
        ((certResolver l certFile keyFile).stateAt steps n).certKey =
          ((certResolver l certFile keyFile).stateAt steps k).certKey := by
    obtain ⟨k, hk, hfails, hsame⟩ := ih hphase
    exact ⟨k, Nat.lt_succ_of_lt hk, hfails, hsame⟩
  cases he with
  | idle => exact hearlier h
  | wroteCert content event => exact hearlier h
  | wroteKey content => exact hearlier h
  | notified watched => exact hearlier h
  | failed a fails => exact ⟨n, Nat.lt_succ_self n, ⟨a, ha, fails⟩, rfl⟩
  | stored cert key loaded =>
    dsimp only at h
    split_ifs at h
  | _ => cases h

end

/-- Two writes during one load end the watch, and later ones are not seen. -/
example :
    let s := (certResolver (⟨some, some⟩ : Loader ℕ ℕ ℕ) 1 2).exec (.init 1 2) [.readCert, .readKey, .store,
      .startWatch true, .writeCert 3 true, .notify, .recv, .writeCert 4 true, .notify, .writeCert 5 true, .notify,
      .readCert, .readKey, .store, .recv, .writeCert 6 true, .notify, .recv]
    s.phase = .ended ∧ s.certKey = some (5, 2) ∧ s.certFile = 6 := by
  decide

end Tuic.Server
