import Tuic.Lib.Machine

/-! The certificate of a server: `CertResolver` in `tls.rs` of `tuic-server`, which loads the
certificate and the key and watches the file of the certificate, with `async_watcher` of
`utils.rs`. The files are written at any time, also between the two reads of a load. -/

namespace Tuic.Server

open Lib

/-- The two loads: `load_cert_chain`, and `load_priv_key` with the signing key made of it.
They fail where a file cannot be read or parsed. -/
structure Loader (φ χ κ : Type) where
  loadCertChain : φ → Option χ
  loadPrivKey : φ → Option κ

/-- Where the task is: in `CertResolver::new` or in `start_watch`. -/
inductive Watching (χ κ : Type)
  | loading
  | loadingKey (cert : χ)
  | loaded (cert : χ) (key : κ)
  | starting
  | receiving
  | ended
  deriving DecidableEq

/-- `events` are on their way to the callback of the watcher, and `unread` of the messages it
sent have not been received. -/
structure CertResolver (φ χ κ : Type) where
  certFile : φ
  keyFile : φ
  certKey : Option (χ × κ)
  phase : Watching χ κ
  watched : Bool
  events : ℕ
  unread : ℕ
  deriving DecidableEq

/-- A write of the certificate leads to an event of its own, or it is merged with one that is
on its way, or none comes of it. -/
inductive ResolverStep (φ : Type)
  | writeCert (content : φ) (event : Bool)
  | writeKey (content : φ)
  | readCert
  | readKey
  | store
  | startWatch (ok : Bool)
  | notify
  | recv
  deriving DecidableEq

variable {φ χ κ : Type}

namespace CertResolver

def init (certFile keyFile : φ) : CertResolver φ χ κ where
  certFile := certFile
  keyFile := keyFile
  certKey := none
  phase := .loading
  watched := false
  events := 0
  unread := 0

def writeCert (self : CertResolver φ χ κ) (content : φ) (event : Bool) : CertResolver φ χ κ :=
  { self with
    certFile := content
    events := if self.watched && event then self.events + 1 else self.events }

/-- The task returns, and the watcher is dropped. -/
def finish (self : CertResolver φ χ κ) : CertResolver φ χ κ := { self with phase := .ended, watched := false }

def readCert (l : Loader φ χ κ) (self : CertResolver φ χ κ) : CertResolver φ χ κ :=
  match self.phase with
  | .loading =>
    match l.loadCertChain self.certFile with
    | some cert => { self with phase := .loadingKey cert }
    | none => self.finish
  | _ => self

def readKey (l : Loader φ χ κ) (self : CertResolver φ χ κ) : CertResolver φ χ κ :=
  match self.phase with
  | .loadingKey cert =>
    match l.loadPrivKey self.keyFile with
    | some key => { self with phase := .loaded cert key }
    | none => self.finish
  | _ => self

/-- Only `new` has no watcher yet. -/
def store (self : CertResolver φ χ κ) : CertResolver φ χ κ :=
  match self.phase with
  | .loaded cert key =>
    { self with certKey := some (cert, key), phase := if self.watched then .receiving else .starting }
  | _ => self

def startWatch (self : CertResolver φ χ κ) (ok : Bool) : CertResolver φ χ κ :=
  match self.phase with
  | .starting => if ok then { self with phase := .receiving, watched := true } else self.finish
  | _ => self

/-- The callback sends a message. -/
def notify (self : CertResolver φ χ κ) : CertResolver φ χ κ :=
  if self.watched && self.events ≠ 0 then { self with events := self.events - 1, unread := self.unread + 1 }
  else self

/-- `rx.recv().await.is_ok()`: the channel holds one message, and a receiver that has missed
one gets an error. -/
def recv (self : CertResolver φ χ κ) : CertResolver φ χ κ :=
  match self.phase with
  | .receiving =>
    if self.unread = 0 then self
    else if self.unread = 1 then { self with phase := .loading, unread := 0 }
    else self.finish
  | _ => self

def step (l : Loader φ χ κ) (self : CertResolver φ χ κ) : ResolverStep φ → CertResolver φ χ κ
  | .writeCert content event => self.writeCert content event
  | .writeKey content => { self with keyFile := content }
  | .readCert => self.readCert l
  | .readKey => self.readKey l
  | .store => self.store
  | .startWatch ok => self.startWatch ok
  | .notify => self.notify
  | .recv => self.recv

end CertResolver

def certResolver (l : Loader φ χ κ) (certFile keyFile : φ) :
    Machine (CertResolver φ χ κ) (ResolverStep φ) Unit where
  init := .init certFile keyFile
  step s a := (s.step l a, ())

/-! ### What a run shows -/

/-- A write of the certificate that is followed by an event. -/
def Noticed (s : CertResolver φ χ κ) (a : ResolverStep φ) : Prop :=
  s.watched = true ∧ ∃ content event, a = .writeCert content event ∧ (event = true ∨ 0 < s.events)

/-- The watch goes on, and nothing is on its way to it. -/
def CertResolver.AtRest (s : CertResolver φ χ κ) : Prop := s.phase = .receiving ∧ s.events = 0 ∧ s.unread = 0

/-- The task returns here, after a load or the start of the watcher that failed, or after it
has missed a message. -/
inductive Fails (l : Loader φ χ κ) (s : CertResolver φ χ κ) : ResolverStep φ → Prop
  | cert (phase : s.phase = .loading) (failed : l.loadCertChain s.certFile = none) : Fails l s .readCert
  | key (cert : χ) (phase : s.phase = .loadingKey cert) (failed : l.loadPrivKey s.keyFile = none) :
      Fails l s .readKey
  | start (phase : s.phase = .starting) : Fails l s (.startWatch false)
  | lagged (phase : s.phase = .receiving) (missed : 1 < s.unread) : Fails l s .recv

section

variable (l : Loader φ χ κ) (certFile keyFile : φ) (steps : List (ResolverStep φ))

/-- The certificate has been loaded at the first of two moments of the run, and the key at the
second. -/
structure LoadedAt (cert : χ) (key : κ) (i j : ℕ) : Prop where
  order : i ≤ j
  cert : l.loadCertChain ((certResolver l certFile keyFile).stateAt steps i).certFile = some cert
  key : l.loadPrivKey ((certResolver l certFile keyFile).stateAt steps j).keyFile = some key

/-- What the resolver serves is never half loaded. At rest it is not older than the last write
that was noticed, and it is what the files hold if that was the last write of all. Once the task
has returned, it stays. -/
structure ServesLoaded : Prop where
  loaded : ∀ n ≤ steps.length, ∀ cert key,
    ((certResolver l certFile keyFile).stateAt steps n).certKey = some (cert, key) →
    ∃ i j, j ≤ n ∧ LoadedAt l certFile keyFile steps cert key i j
  fresh : ∀ w n, w < n → n ≤ steps.length → (certResolver l certFile keyFile).At steps Noticed w →
    ((certResolver l certFile keyFile).stateAt steps n).AtRest →
    ∃ cert key i j, ((certResolver l certFile keyFile).stateAt steps n).certKey = some (cert, key) ∧
      w < i ∧ j ≤ n ∧ LoadedAt l certFile keyFile steps cert key i j
  current : ∀ w n, w < n → n ≤ steps.length → (certResolver l certFile keyFile).At steps Noticed w →
    ((certResolver l certFile keyFile).stateAt steps n).AtRest →
    (∀ k content event, w < k → k < n → steps[k]? ≠ some (.writeCert content event)) →
    (∀ k content, w < k → k < n → steps[k]? ≠ some (.writeKey content)) →
    ∃ cert key, ((certResolver l certFile keyFile).stateAt steps n).certKey = some (cert, key) ∧
      LoadedAt l certFile keyFile steps cert key n n
  ended : ∀ n ≤ steps.length, ((certResolver l certFile keyFile).stateAt steps n).phase = .ended →
    ∃ k < n, (certResolver l certFile keyFile).At steps (Fails l) k ∧
      ((certResolver l certFile keyFile).stateAt steps n).certKey =
        ((certResolver l certFile keyFile).stateAt steps k).certKey

end

end Tuic.Server
