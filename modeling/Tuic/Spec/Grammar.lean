import Tuic.Lib.Bytes
import Tuic.Spec.Unmarshal

/-! The grammar of `SPEC.md`: which byte strings are commands, and the rules a
decoder checks, in the order in which it can check them. Positions are absolute;
nothing here reads sequentially. -/

namespace Tuic.Grammar

open Lib Lib.Reader

/-- `ADDR`: the type, the address and the port. -/
inductive AddressBytes : List UInt8 → Prop
  | none : AddressBytes [0xff]
  | domain (name : String) (port : List UInt8) (hn : (asBytes name).length ≤ 255)
      (hp : port.length = 2) :
      AddressBytes ([0x00, UInt8.ofNat (asBytes name).length] ++ asBytes name ++ port)
  | ipv4 (ip port : List UInt8) (hi : ip.length = 4) (hp : port.length = 2) :
      AddressBytes ([0x01] ++ ip ++ port)
  | ipv6 (ip port : List UInt8) (hi : ip.length = 16) (hp : port.length = 2) :
      AddressBytes ([0x02] ++ ip ++ port)

/-- A command: the version, the type and the fields of that type. -/
inductive CommandBytes : List UInt8 → Prop
  | authenticate (uuid token : List UInt8) (hu : uuid.length = 16) (ht : token.length = 32) :
      CommandBytes ([0x05, 0x00] ++ uuid ++ token)
  | connect (addr : List UInt8) (ha : AddressBytes addr) : CommandBytes ([0x05, 0x01] ++ addr)
  | packet (assocId pktId : List UInt8) (fragTotal fragId : UInt8) (size addr : List UInt8)
      (h1 : assocId.length = 2) (h2 : pktId.length = 2) (h3 : size.length = 2)
      (ha : AddressBytes addr) :
      CommandBytes ([0x05, 0x02] ++ assocId ++ pktId ++ [fragTotal, fragId] ++ size ++ addr)
  | dissociate (assocId : List UInt8) (h : assocId.length = 2) : CommandBytes ([0x05, 0x03] ++ assocId)
  | heartbeat : CommandBytes [0x05, 0x04]

def byteAt (bs : List UInt8) (i : ℕ) : UInt8 := bs.getD i 0

/-- The size that the head of an address announces for the whole of it. -/
def addressSize (bs : List UInt8) : ℕ :=
  match byteAt bs 0 with
  | 0x00 => 1 + 1 + (byteAt bs 1).toNat + 2
  | 0x01 => 1 + 4 + 2
  | 0x02 => 1 + 16 + 2
  | _ => 1

def domainBytes (bs : List UInt8) : List UInt8 := (bs.drop 2).take (byteAt bs 1).toNat

def addressRules : List (Rule UnmarshalError) :=
  [ Rule.length 1,
    ⟨fun bs => byteAt bs 0 ∈ [0xff, 0x00, 0x01, 0x02], fun bs => .invalidAddressType (byteAt bs 0)⟩,
    ⟨fun bs => byteAt bs 0 = 0x00 → 2 ≤ bs.length, fun _ => eof⟩,
    ⟨fun bs => addressSize bs ≤ bs.length, fun _ => eof⟩,
    ⟨fun bs => byteAt bs 0 = 0x00 → (fromUtf8 (domainBytes bs)).isSome,
      fun bs => .addressParse (domainBytes bs)⟩ ]

/-- The rules for the fields of each command type. -/
def bodyRules (cmd : UInt8) : List (Rule UnmarshalError) :=
  match cmd with
  | 0x00 => [Rule.length 48]
  | 0x01 => addressRules
  | 0x02 => Rule.length 8 :: addressRules.map (Rule.after 8)
  | 0x03 => [Rule.length 2]
  | _ => []

/-- All rules for `bs`, in reading order. -/
def rules (bs : List UInt8) : List (Rule UnmarshalError) :=
  [ Rule.length 1,
    ⟨fun bs => byteAt bs 0 = 0x05, fun bs => .invalidVersion (byteAt bs 0)⟩,
    Rule.length 2,
    ⟨fun bs => byteAt bs 1 ≤ 0x04, fun bs => .invalidCommand (byteAt bs 1)⟩ ] ++
  (bodyRules (byteAt bs 1)).map (Rule.after 2)

end Tuic.Grammar
