import Tuic.Spec.Restful

/-! Which requests the RESTful server turns away. The guard compares a token with
the secret only if there is one: a request without the header passes. -/

namespace Tuic.Server

open Lib

variable {cfg : Config} {remoteAddress : QuicClient → SocketAddr}

/-- The request is answered `UNAUTHORIZED`, changes nothing, and is answered alike
whatever the tables hold. -/
def TurnedAway (cfg : Config) (remoteAddress : QuicClient → SocketAddr) (s : Restful) (r : Request) :
    Prop :=
  (s.serve cfg remoteAddress r).2.status = .unauthorized ∧ (s.serve cfg remoteAddress r).1 = s ∧
    ∀ s' : Restful, (s'.serve cfg remoteAddress r).2 = (s.serve cfg remoteAddress r).2

/-- The body of the answer to a request that is turned away. -/
def Request.emptyBody : Request → Body
  | .kick _ _ => .empty
  | .listOnline _ => .online .empty
  | .listDetailedOnline _ => .detailedOnline .empty
  | .listTraffic _ | .resetTraffic _ => .traffic .empty

theorem serve_turned {r : Request} (h : turnsAway cfg r.token = true) (s : Restful) :
    s.serve cfg remoteAddress r = (s, ⟨.unauthorized, r.emptyBody⟩) := by
  cases r with
  | kick token users =>
    replace h : turnsAway cfg token = true := h
    simp [Restful.serve, Restful.kick, Request.emptyBody, h]
  | listOnline token =>
    replace h : turnsAway cfg token = true := h
    simp [Restful.serve, Restful.listOnline, Request.emptyBody, h]
  | listDetailedOnline token =>
    replace h : turnsAway cfg token = true := h
    simp [Restful.serve, Restful.listDetailedOnline, Request.emptyBody, h]
  | listTraffic token =>
    replace h : turnsAway cfg token = true := h
    simp [Restful.serve, Restful.listTraffic, Request.emptyBody, h]
  | resetTraffic token =>
    replace h : turnsAway cfg token = true := h
    simp [Restful.serve, Restful.resetTraffic, Request.emptyBody, h]

theorem serve_admitted {r : Request} (h : turnsAway cfg r.token = false) (s : Restful) :
    (s.serve cfg remoteAddress r).2.status = .ok := by
  cases r with
  | kick token users =>
    replace h : turnsAway cfg token = false := h
    simp [Restful.serve, Restful.kick, h]
  | listOnline token =>
    replace h : turnsAway cfg token = false := h
    simp [Restful.serve, Restful.listOnline, h]
  | listDetailedOnline token =>
    replace h : turnsAway cfg token = false := h
    simp [Restful.serve, Restful.listDetailedOnline, h]
  | listTraffic token =>
    replace h : turnsAway cfg token = false := h
    simp [Restful.serve, Restful.listTraffic, h]
  | resetTraffic token =>
    replace h : turnsAway cfg token = false := h
    simp [Restful.serve, Restful.resetTraffic, h]

theorem turnedAway_iff (s : Restful) (r : Request) :
    TurnedAway cfg remoteAddress s r ↔ turnsAway cfg r.token = true := by
  constructor
  · rintro ⟨hstatus, -⟩
    by_contra hpass
    rw [serve_admitted (by simpa using hpass)] at hstatus
    cases hstatus
  · intro h
    refine ⟨?_, ?_, fun s' => ?_⟩
    · rw [serve_turned h]
    · rw [serve_turned h]
    · rw [serve_turned h, serve_turned h]

/-- The guard lets the secret pass, and a missing token. -/
theorem turnsAway_iff {restful : RestfulConfig} (hcfg : cfg.restful = some restful)
    (hsecret : restful.secret ≠ "") (token : Option String) :
    turnsAway cfg token = true ↔ token ≠ some restful.secret ∧ token ≠ none := by
  cases token with
  | none => simp [turnsAway]
  | some token =>
    have hne : restful.secret ≠ token ↔ token ≠ restful.secret := ne_comm
    simpa [turnsAway, hcfg, hsecret] using hne

/-- In a sequence of requests, those without the secret are turned away exactly if
every request has a token. -/
theorem authorisation_iff (cfg : Config) (restful : RestfulConfig) (hcfg : cfg.restful = some restful)
    (hsecret : restful.secret ≠ "") (remoteAddress : QuicClient → SocketAddr) (s : Restful)
    (reqs : List Request) :
    (∀ (i : ℕ) r, reqs[i]? = some r → r.token ≠ some restful.secret →
      TurnedAway cfg remoteAddress ((requests cfg remoteAddress s).stateAt reqs i) r) ↔
    ∀ r ∈ reqs, r.token ≠ none := by
  constructor
  · intro h r hr hnone
    obtain ⟨i, hi⟩ := List.mem_iff_getElem?.1 hr
    have haway := h i r hi (by simp [hnone])
    rw [turnedAway_iff, turnsAway_iff hcfg hsecret] at haway
    exact haway.2 hnone
  · intro h i r hi hwrong
    rw [turnedAway_iff, turnsAway_iff hcfg hsecret]
    exact ⟨hwrong, h r (List.mem_of_getElem? hi)⟩

/-- A server with a secret and one user. -/
def secured : Config := ⟨.insert .empty (Vector.replicate 16 0) "", some ⟨"secret", 0⟩, 3000, 3000⟩

/-- Every address is that of the examples. -/
def nowhere (_ : QuicClient) : SocketAddr := .v4 ⟨127, 0, 0, 1⟩ 53

/-- One client of the nil user is online. -/
def oneOnline : Restful := { Restful.start secured with
  onlineClients := .insert .empty (Vector.replicate 16 0) {7} }

/-- A request with another token does not kick it. -/
theorem wrong_token_turned :
    TurnedAway secured nowhere oneOnline (.kick (some "guess") [Vector.replicate 16 0]) :=
  (authorisation_iff secured ⟨"secret", 0⟩ rfl (by decide) nowhere oneOnline
    [.kick (some "guess") [Vector.replicate 16 0]]).2 (by simp [Request.token]) 0 _ rfl (by simp [Request.token])

/-- A request without a header kicks it. -/
theorem no_token_kicks : secured.restful = some ⟨"secret", 0⟩ ∧
    (Request.kick none [Vector.replicate 16 0]).token ≠ some "secret" ∧
    ¬ TurnedAway secured nowhere oneOnline (.kick none [Vector.replicate 16 0]) ∧
    (oneOnline.serve secured nowhere (.kick none [Vector.replicate 16 0])).1.closes =
      {⟨7, 6002, "Client got kicked"⟩} := by
  refine ⟨rfl, by simp [Request.token], fun h => ?_, by decide⟩
  rw [turnedAway_iff] at h
  cases h

end Tuic.Server
