import Mathlib.Algebra.Group.Nat.Defs
import Mathlib.Tactic.SplitIfs

/-! How a call ends: it returns a value, it returns an error, or it does not
return because of a panic. Machine arithmetic whose overflow depends on the
build is stated here too. -/

namespace Lib

/-- Why a call did not return. `undefined` is a broken `unsafe` precondition. -/
inductive Panic
  | overflow
  | divideByZero
  | outOfBounds
  | assertFailed
  | unwrapNone
  | unreachable
  | undefined
  deriving DecidableEq, Repr

inductive Outcome (ε α : Type)
  | ok (a : α)
  | err (e : ε)
  | panic (p : Panic)
  deriving DecidableEq, Repr

namespace Outcome

variable {ε α β : Type}

protected def bind : Outcome ε α → (α → Outcome ε β) → Outcome ε β
  | ok a, f => f a
  | err e, _ => err e
  | panic p, _ => panic p

instance : Monad (Outcome ε) where
  pure := ok
  bind := Outcome.bind

@[simp] theorem pure_eq (a : α) : (pure a : Outcome ε α) = ok a := rfl
@[simp] theorem ok_bind (a : α) (f : α → Outcome ε β) : (ok a >>= f) = f a := rfl
@[simp] theorem err_bind (e : ε) (f : α → Outcome ε β) : (err e >>= f) = err e := rfl
@[simp] theorem panic_bind (p : Panic) (f : α → Outcome ε β) : (panic p >>= f) = panic p := rfl

theorem bind_eq_ok {x : Outcome ε α} {f : α → Outcome ε β} {b : β} :
    (x >>= f) = ok b ↔ ∃ a, x = ok a ∧ f a = ok b := by
  cases x <;> simp

/-- The call came back to its caller, with a value or with an error. -/
def Returns : Outcome ε α → Prop
  | panic _ => False
  | _ => True

@[simp] theorem returns_ok (a : α) : (ok a : Outcome ε α).Returns := trivial
@[simp] theorem returns_err (e : ε) : (err e : Outcome ε α).Returns := trivial
@[simp] theorem not_returns_panic (p : Panic) : ¬ (panic p : Outcome ε α).Returns := id

instance (x : Outcome ε α) : Decidable x.Returns :=
  match x with
  | ok _ => .isTrue trivial
  | err _ => .isTrue trivial
  | panic _ => .isFalse id

/-- `xs[i]`, which panics past the end. -/
def index (xs : List α) (i : ℕ) : Outcome ε α :=
  match xs[i]? with
  | some x => ok x
  | none => panic .outOfBounds

@[simp] theorem index_cons_zero (x : α) (xs : List α) :
    (index (x :: xs) 0 : Outcome ε α) = ok x := rfl

@[simp] theorem index_cons_succ (x : α) (xs : List α) (i : ℕ) :
    (index (x :: xs) (i + 1) : Outcome ε α) = index xs i := rfl

theorem index_of_lt {xs : List α} {i : ℕ} (h : i < xs.length) :
    (index xs i : Outcome ε α) = ok xs[i] := by
  simp [index, List.getElem?_eq_getElem h]

end Outcome

/-- What a build decides about machine integers: whether overflow panics or
wraps, and how wide a `usize` is. -/
structure Build where
  overflowChecks : Bool
  usizeBits : ℕ
  bits_ge : 32 ≤ usizeBits

namespace Build

/-- A 64-bit build without overflow checks. -/
def release64 : Build := ⟨false, 64, by decide⟩

/-- A 64-bit build with overflow checks. -/
def debug64 : Build := ⟨true, 64, by decide⟩

variable (b : Build) {ε : Type}

/-- The same build with overflow checks. -/
def checked : Build := { b with overflowChecks := true }

/-- No object in memory is larger than this many bytes. -/
def isizeMax : ℕ := 2 ^ (b.usizeBits - 1) - 1

/-- The values of a `usize`. -/
abbrev Usize := {n : ℕ // n < 2 ^ b.usizeBits}

/-- The byte slices that fit in memory. -/
abbrev Slice := {xs : List UInt8 // xs.length ≤ b.isizeMax}

def subUsize (x y : ℕ) : Outcome ε ℕ :=
  if y ≤ x then .ok (x - y)
  else if b.overflowChecks then .panic .overflow
  else .ok ((2 ^ b.usizeBits + x - y) % 2 ^ b.usizeBits)

def addUsize (x y : ℕ) : Outcome ε ℕ :=
  if x + y < 2 ^ b.usizeBits then .ok (x + y)
  else if b.overflowChecks then .panic .overflow
  else .ok ((x + y) % 2 ^ b.usizeBits)

/-- Division panics on zero in every build. -/
def divUsize (x y : ℕ) : Outcome ε ℕ :=
  if y = 0 then .panic .divideByZero else .ok (x / y)

def addU8 (x y : UInt8) : Outcome ε UInt8 :=
  if x.toNat + y.toNat < 256 then .ok (x + y)
  else if b.overflowChecks then .panic .overflow
  else .ok (x + y)

def mulU32 (x y : UInt32) : Outcome ε UInt32 :=
  if x.toNat * y.toNat < 2 ^ 32 then .ok (x * y)
  else if b.overflowChecks then .panic .overflow
  else .ok (x * y)

theorem subUsize_of_le {x y : ℕ} (h : y ≤ x) : (b.subUsize x y : Outcome ε ℕ) = .ok (x - y) := by
  simp [subUsize, h]

/-- What a subtraction of `usize` values yields when it does not panic. -/
def wrappingSub (x y : ℕ) : ℕ :=
  if y ≤ x then x - y else (2 ^ b.usizeBits + x - y) % 2 ^ b.usizeBits

theorem wrappingSub_of_le {x y : ℕ} (h : y ≤ x) : b.wrappingSub x y = x - y := if_pos h

theorem wrappingSub_lt {x : ℕ} (h : x < 2 ^ b.usizeBits) (y : ℕ) :
    b.wrappingSub x y < 2 ^ b.usizeBits := by
  unfold wrappingSub
  split_ifs
  · exact Nat.lt_of_le_of_lt (Nat.sub_le x y) h
  · exact Nat.mod_lt _ (Nat.two_pow_pos _)

theorem subUsize_unchecked (hc : b.overflowChecks = false) (x y : ℕ) :
    (b.subUsize x y : Outcome ε ℕ) = .ok (b.wrappingSub x y) := by
  unfold subUsize wrappingSub
  split_ifs <;> simp_all

theorem eq_of_subUsize {x y z : ℕ} (h : (b.subUsize x y : Outcome ε ℕ) = .ok z) :
    z = b.wrappingSub x y := by
  unfold subUsize at h
  unfold wrappingSub
  split_ifs at h ⊢ with h1 h2
  · exact (Outcome.ok.inj h).symm
  · exact (Outcome.ok.inj h).symm

theorem eq_of_addUsize {x y z : ℕ} (h : (b.addUsize x y : Outcome ε ℕ) = .ok z) :
    z = (x + y) % 2 ^ b.usizeBits := by
  unfold addUsize at h
  split_ifs at h with h1 h2
  · rw [Nat.mod_eq_of_lt h1]
    exact (Outcome.ok.inj h).symm
  · exact (Outcome.ok.inj h).symm

theorem eq_of_divUsize {x y z : ℕ} (h : (divUsize x y : Outcome ε ℕ) = .ok z) :
    0 < y ∧ z = x / y := by
  unfold divUsize at h
  split_ifs at h with h1
  exact ⟨Nat.pos_of_ne_zero h1, (Outcome.ok.inj h).symm⟩

theorem addUsize_of_lt {x y : ℕ} (h : x + y < 2 ^ b.usizeBits) :
    (b.addUsize x y : Outcome ε ℕ) = .ok (x + y) := by
  simp [addUsize, h]

theorem addU8_of_lt {x y : UInt8} (h : x.toNat + y.toNat < 256) :
    (b.addU8 x y : Outcome ε UInt8) = .ok (x + y) := by
  simp [addU8, h]

theorem mulU32_of_lt {x y : UInt32} (h : x.toNat * y.toNat < 2 ^ 32) :
    (b.mulU32 x y : Outcome ε UInt32) = .ok (x * y) := by
  simp only [mulU32, if_pos h]

end Build

end Lib
