import Tuic.Sanity.Online
import Tuic.Spec.Exporter

/-! What a failed export makes of an authentication: a token of zeroes is as good as
the right one. -/

namespace Tuic.Quinn

open Lib

variable {ε : Type}

theorem exportKeyingMaterial_ok {conn : Exports ε} {label context : List UInt8} {buf : Token}
    (h : conn label context = .ok buf) : exportKeyingMaterial conn label context = buf := by
  simp only [exportKeyingMaterial, h]

theorem exportKeyingMaterial_error {conn : Exports ε} {label context : List UInt8} {e : ε}
    (h : conn label context = .error e) : exportKeyingMaterial conn label context = zeroes := by
  simp only [exportKeyingMaterial, h]

/-- A connection authenticates as its model does with a password of the configuration. -/
theorem validate_asBytes (self : Authenticate ε) (password : String) :
    self.model.validate password (exportKeyingMaterial self.exporter) = self.validate (asBytes password) :=
  rfl

/-- The tokens that are accepted. -/
theorem validate_iff (self : Authenticate ε) (password : List UInt8) :
    self.validate password = true ↔ self.exported password = .ok self.model.token ∨
      (∃ e, self.exported password = .error e) ∧ self.model.token = zeroes := by
  have hvalid : self.validate password = true ↔
      self.model.token = exportKeyingMaterial self.exporter self.model.uuid.toList password := beq_iff_eq
  rw [hvalid]
  cases hexp : self.exported password with
  | ok buf =>
    rw [exportKeyingMaterial_ok hexp]
    simp [eq_comm]
  | error e =>
    rw [exportKeyingMaterial_error hexp]
    simp

/-- An authentication fails closed exactly if the export succeeds or the token is not
the one of zeroes. -/
theorem failsClosed_iff (self : Authenticate ε) (password : List UInt8) :
    self.FailsClosed password ↔
      (∃ buf, self.exported password = .ok buf) ∨ self.model.token ≠ zeroes := by
  rw [Authenticate.FailsClosed, validate_iff]
  cases hexp : self.exported password with
  | ok buf => simp
  | error e => simp

/-- Before the end of the handshake nothing can be exported, and any password goes
with zeroes. -/
theorem failsClosed_not :
    let self : Authenticate String := ⟨⟨Server.someone, zeroes⟩, fun _ _ => .error "NotReady"⟩
    (∀ password, self.validate password = true) ∧ ¬ self.FailsClosed (asBytes "secret") := by
  refine ⟨fun password => rfl, fun h => ?_⟩
  cases h rfl

end Tuic.Quinn
