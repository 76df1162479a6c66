import Tuic.Spec.Connections

/-! What a received `Authenticate` command of `tuic-quinn/src/lib.rs` exports its
keying material with: the TLS session of its connection, which can fail. -/

namespace Tuic

open Lib

/-- `Authenticate::<side::Rx>::is_valid` -/
def Authenticate.isValid (self : Authenticate) (password : List UInt8)
    (exporter : KeyingMaterialExporter) : Bool :=
  self.token == exporter self.uuid.toList password

namespace Quinn

/-- `quinn::Connection::export_keying_material` into a buffer of 32 bytes. -/
abbrev Exports (ε : Type) := List UInt8 → List UInt8 → Except ε Token

variable {ε : Type}

def zeroes : Token := Vector.replicate 32 0

/-- The adapter of a connection to the exporter that the model takes. -/
def exportKeyingMaterial (conn : Exports ε) : KeyingMaterialExporter := fun label context =>
  match conn label context with
  | .ok buf => buf
  | .error _ => zeroes

/-- A received `Authenticate` command. -/
structure Authenticate (ε : Type) where
  model : Tuic.Authenticate
  exporter : Exports ε

namespace Authenticate

variable (self : Authenticate ε) (password : List UInt8)

def validate : Bool := self.model.isValid password (exportKeyingMaterial self.exporter)

/-- What the connection exports for the uuid of the command and the password. -/
def exported : Except ε Token := self.exporter self.model.uuid.toList password

/-- A password is accepted only for the token that has been exported with it. -/
def FailsClosed : Prop := self.validate password = true → self.exported password = .ok self.model.token

end Authenticate

end Quinn

end Tuic
