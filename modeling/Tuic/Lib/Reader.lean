import Mathlib.Tactic.SplitIfs
import Tuic.Lib.Outcome

/-! Readers of a byte string. A reader returns a value and the bytes it has not
read, and the laws below say what a reader consumes, which of its verdicts
survive more input, and which check decides them. -/

namespace Lib

/-- The error that says the input ended too early. -/
class EndOfInput (ε : Type) where
  eof : ε

export EndOfInput (eof)

def Reader (ε α : Type) := List UInt8 → Outcome ε (α × List UInt8)

namespace Reader

variable {ε α β : Type}

instance : Monad (Reader ε) where
  pure a := fun bs => .ok (a, bs)
  bind p f := fun bs => p bs >>= fun x => f x.1 x.2

def fail (e : ε) : Reader ε α := fun _ => .err e

/-- A step that reads nothing. -/
def lift (x : Outcome ε α) : Reader ε α := fun bs => x >>= fun a => .ok (a, bs)

@[simp] theorem pure_apply (a : α) (bs : List UInt8) : (pure a : Reader ε α) bs = .ok (a, bs) := rfl
@[simp] theorem bind_apply (p : Reader ε α) (f : α → Reader ε β) (bs : List UInt8) :
    (p >>= f) bs = (p bs >>= fun x => f x.1 x.2) := rfl
theorem map_apply (f : α → β) (p : Reader ε α) (bs : List UInt8) :
    (f <$> p) bs = (p bs >>= fun x => .ok (f x.1, x.2)) := rfl
@[simp] theorem fail_apply (e : ε) (bs : List UInt8) : (fail e : Reader ε α) bs = .err e := rfl
@[simp] theorem lift_ok (a : α) : (lift (.ok a) : Reader ε α) = pure a := rfl
@[simp] protected theorem pure_bind (a : α) (f : α → Reader ε β) : (pure a >>= f) = f a := rfl

/-! ### What a reader accepts -/

/-- On `used` followed by anything, `p` returns `a` and reads exactly `used`. -/
def Accepts (p : Reader ε α) (used : List UInt8) (a : α) : Prop :=
  ∀ rest, p (used ++ rest) = .ok (a, rest)

/-- Whatever `p` returns, the bytes it has read are related to it by `P`. -/
def Consumes (p : Reader ε α) (P : List UInt8 → α → Prop) : Prop :=
  ∀ bs a rest, p bs = .ok (a, rest) → ∃ used, bs = used ++ rest ∧ P used a

/-- What a reader accepts is free of prefixes: it never ends inside another string
that the reader accepts. -/
theorem Accepts.of_begins {p : Reader ε α} {us vs : List UInt8} {a b : α} (hu : Accepts p us a)
    (hv : Accepts p vs b) (h : us <+: vs) : a = b ∧ us = vs := by
  obtain ⟨ts, rfl⟩ := h
  have hread := hv []
  rw [List.append_assoc, hu] at hread
  simp only [Outcome.ok.injEq, Prod.mk.injEq, List.append_nil] at hread
  exact ⟨hread.1, by simp [hread.2]⟩

theorem consumes_pure {a : α} {P : List UInt8 → α → Prop} (h : P [] a) :
    Consumes (pure a : Reader ε α) P := by
  rintro bs a rest ⟨⟩
  exact ⟨[], rfl, h⟩

theorem consumes_fail (e : ε) {P : List UInt8 → α → Prop} :
    Consumes (fail e : Reader ε α) P := by
  rintro bs a rest ⟨⟩

theorem Consumes.bind {p : Reader ε α} {f : α → Reader ε β} {P : List UInt8 → α → Prop}
    {Q : List UInt8 → β → Prop} (hp : Consumes p P)
    (hf : ∀ u a, P u a → Consumes (f a) (fun v c => Q (u ++ v) c)) : Consumes (p >>= f) Q := by
  intro bs c rest h
  obtain ⟨⟨a, mid⟩, h1, h2⟩ := Outcome.bind_eq_ok.1 h
  obtain ⟨u, rfl, hu⟩ := hp _ _ _ h1
  obtain ⟨v, rfl, hv⟩ := hf u a hu _ _ _ h2
  exact ⟨u ++ v, by simp, hv⟩

theorem Consumes.map {p : Reader ε α} {f : α → β} {P : List UInt8 → α → Prop}
    {Q : List UInt8 → β → Prop} (hp : Consumes p P) (h : ∀ u a, P u a → Q u (f a)) :
    Consumes (f <$> p) Q := by
  refine hp.bind (f := fun a => pure (f a)) fun u a hu => consumes_pure ?_
  rw [List.append_nil]
  exact h u a hu

/-! ### Buffered reads -/

variable [EndOfInput ε]

/-- Fills a buffer of `n` bytes, or fails if the input is shorter. -/
def readExact (n : ℕ) : Reader ε (List UInt8) := fun bs =>
  if n ≤ bs.length then .ok (bs.take n, bs.drop n) else .err eof

theorem readExact_of_le {n : ℕ} {bs : List UInt8} (h : n ≤ bs.length) :
    (readExact n : Reader ε _) bs = .ok (bs.take n, bs.drop n) := by
  simp [readExact, h]

@[simp] theorem readExact_one (x : UInt8) (bs : List UInt8) :
    (readExact 1 : Reader ε _) (x :: bs) = .ok ([x], bs) := rfl

theorem readExact_append {n : ℕ} {buf : List UInt8} (h : buf.length = n) (rest : List UInt8) :
    (readExact n : Reader ε _) (buf ++ rest) = .ok (buf, rest) := by
  subst h
  simp [readExact]

theorem readExact_eq_ok {n : ℕ} {bs buf rest : List UInt8}
    (h : (readExact n : Reader ε _) bs = .ok (buf, rest)) : bs = buf ++ rest ∧ buf.length = n := by
  unfold readExact at h
  split at h
  · rename_i hle
    simp only [Outcome.ok.injEq, Prod.mk.injEq] at h
    obtain ⟨rfl, rfl⟩ := h
    exact ⟨(List.take_append_drop n bs).symm, by simp [hle]⟩
  · cases h

/-- Reading in two goes: the bytes of the first are put in front of the second. -/
theorem readExact_add (us : List UInt8) (n : ℕ) (f : List UInt8 → Reader ε α) (bs : List UInt8) :
    (readExact (us.length + n) >>= f) (us ++ bs) = (readExact n >>= fun buf => f (us ++ buf)) bs := by
  simp only [bind_apply, readExact, List.length_append, Nat.add_le_add_iff_left]
  split_ifs with h
  · rw [List.take_length_add_append, List.drop_length_add_append]
    rfl
  · rfl

theorem readExact_of_lt {n : ℕ} {bs : List UInt8} (h : bs.length < n) :
    (readExact n : Reader ε _) bs = .err eof := by
  simp [readExact, Nat.not_le.2 h]

theorem consumes_readExact (n : ℕ) :
    Consumes (readExact n : Reader ε _) (fun used buf => used = buf ∧ buf.length = n) :=
  fun _ buf _ h => ⟨buf, (readExact_eq_ok h).1, rfl, (readExact_eq_ok h).2⟩

theorem Consumes.byte {f : UInt8 → Reader ε α} {P : List UInt8 → α → Prop}
    (hf : ∀ x, Consumes (f x) fun used a => P (x :: used) a) :
    Consumes (readExact 1 >>= fun buf => lift (Outcome.index buf 0) >>= f) P := by
  refine (consumes_readExact 1).bind ?_
  rintro buf _ ⟨rfl, hlen⟩
  obtain ⟨x, rfl⟩ := List.length_eq_one_iff.1 hlen
  exact hf x

/-! ### Verdicts and more input -/

/-- Every verdict of `p` but the end of input stands whatever follows, the end
of input can always be cured by more bytes, and `p` never panics. -/
structure Steady (p : Reader ε α) : Prop where
  ok : ∀ bs a rest ext, p bs = .ok (a, rest) → p (bs ++ ext) = .ok (a, rest ++ ext)
  err : ∀ bs e ext, p bs = .err e → e ≠ eof → p (bs ++ ext) = .err e
  more : ∀ bs, p bs = .err eof → ∃ ext, p (bs ++ ext) ≠ .err eof
  returns : ∀ bs, (p bs).Returns

theorem steady_pure (a : α) : Steady (pure a : Reader ε α) where
  ok := by rintro bs a rest ext ⟨⟩; rfl
  err := by rintro bs e ext ⟨⟩
  more := by rintro bs ⟨⟩
  returns := fun _ => trivial

theorem steady_fail {e : ε} (he : e ≠ eof) : Steady (fail e : Reader ε α) where
  ok := by rintro bs a rest ext ⟨⟩
  err := by rintro bs e ext ⟨⟩ _; rfl
  more := by rintro bs h; exact absurd (Outcome.err.inj h) he
  returns := fun _ => trivial

theorem steady_readExact (n : ℕ) : Steady (readExact n : Reader ε _) where
  ok := by
    intro bs a rest ext h
    obtain ⟨rfl, rfl⟩ := readExact_eq_ok h
    rw [List.append_assoc, readExact_append rfl]
  err := by
    intro bs e ext h he
    unfold readExact at h
    split at h
    · cases h
    · exact absurd (Outcome.err.inj h).symm he
  more := by
    intro bs _
    refine ⟨List.replicate n 0, ?_⟩
    rw [readExact_of_le (by simp)]
    exact fun h => by cases h
  returns := by
    intro bs
    unfold readExact
    split <;> trivial

/-- The continuation only has to be steady on the values `p` can return. -/
theorem Steady.bind {p : Reader ε α} {f : α → Reader ε β} (hp : Steady p)
    (hf : ∀ bs a rest, p bs = .ok (a, rest) → Steady (f a)) : Steady (p >>= f) where
  ok := by
    intro bs c rest ext h
    obtain ⟨⟨a, mid⟩, h1, h2⟩ := Outcome.bind_eq_ok.1 h
    rw [bind_apply, hp.ok bs a mid ext h1]
    exact (hf _ _ _ h1).ok _ _ _ ext h2
  err := by
    intro bs e ext h he
    cases h1 : p bs with
    | ok x =>
      rw [bind_apply, h1] at h
      rw [bind_apply, hp.ok bs x.1 x.2 ext h1]
      exact (hf _ _ _ h1).err _ _ ext h he
    | err e' =>
      rw [bind_apply, h1] at h
      cases h
      rw [bind_apply, hp.err bs e ext h1 he]
      rfl
    | panic q => rw [bind_apply, h1] at h; cases h
  more := by
    intro bs h
    -- first let `p` decide, then its continuation
    have key : ∀ bs' a rest, p bs' = .ok (a, rest) → ∃ ext, (p >>= f) (bs' ++ ext) ≠ .err eof := by
      intro bs' a rest h1
      by_cases h2 : f a rest = .err eof
      · obtain ⟨ext, hext⟩ := (hf _ _ _ h1).more rest h2
        exact ⟨ext, by rw [bind_apply, hp.ok bs' a rest ext h1]; exact hext⟩
      · exact ⟨[], by rw [List.append_nil, bind_apply, h1]; exact h2⟩
    cases h1 : p bs with
    | ok x => exact key bs x.1 x.2 h1
    | panic q => rw [bind_apply, h1] at h; cases h
    | err e =>
      rw [bind_apply, h1] at h
      cases h
      obtain ⟨ext, hext⟩ := hp.more bs h1
      cases h2 : p (bs ++ ext) with
      | ok x =>
        obtain ⟨ext', h'⟩ := key (bs ++ ext) x.1 x.2 h2
        exact ⟨ext ++ ext', by rwa [← List.append_assoc]⟩
      | err e' =>
        refine ⟨ext, ?_⟩
        rw [bind_apply, h2]
        exact fun h => hext (by rw [h2, Outcome.err.inj h])
      | panic q => exact ⟨ext, by rw [bind_apply, h2]; exact fun h => by cases h⟩
  returns := by
    intro bs
    rw [bind_apply]
    cases h1 : p bs with
    | ok x => exact (hf _ _ _ h1).returns _
    | err e => trivial
    | panic q => exact absurd (hp.returns bs) (by simp [h1])

/-- After an exact read only buffers of that length have to be considered. -/
theorem Steady.read {n : ℕ} {f : List UInt8 → Reader ε α}
    (hf : ∀ buf, buf.length = n → Steady (f buf)) : Steady (readExact n >>= f) :=
  (steady_readExact n).bind fun _ _ _ h => hf _ (readExact_eq_ok h).2

theorem Steady.byte {f : UInt8 → Reader ε α} (hf : ∀ x, Steady (f x)) :
    Steady (readExact 1 >>= fun buf => lift (Outcome.index buf 0) >>= f) := by
  refine Steady.read fun buf hlen => ?_
  obtain ⟨x, rfl⟩ := List.length_eq_one_iff.1 hlen
  exact hf x

theorem Steady.map {p : Reader ε α} (hp : Steady p) (f : α → β) : Steady (f <$> p) :=
  hp.bind (f := fun a => pure (f a)) fun _ _ _ _ => steady_pure _

/-! ### Ordered checks -/

/-- A check on the input and the error that reports its failure. -/
structure Rule (ε : Type) where
  holds : List UInt8 → Bool
  error : List UInt8 → ε

/-- The same check, made `k` bytes further into the input. -/
def Rule.after {ε : Type} (k : ℕ) (r : Rule ε) : Rule ε :=
  ⟨fun bs => r.holds (bs.drop k), fun bs => r.error (bs.drop k)⟩

/-- The input reaches at least `n` bytes. -/
def Rule.length (n : ℕ) : Rule ε := ⟨fun bs => decide (n ≤ bs.length), fun _ => eof⟩

/-- The error of the first rule that fails, if one does. -/
def firstViolated {ε : Type} : List (Rule ε) → List UInt8 → Option ε
  | [], _ => none
  | r :: rs, bs => if r.holds bs then firstViolated rs bs else some (r.error bs)

theorem firstViolated_after {ε : Type} (k : ℕ) (rs : List (Rule ε)) (bs : List UInt8) :
    firstViolated (rs.map (Rule.after k)) bs = firstViolated rs (bs.drop k) := by
  induction rs with
  | nil => rfl
  | cons r rs ih => simp only [List.map_cons, firstViolated, ih]; rfl

/-- The error a call reports. -/
def errorOf {ε α : Type} : Outcome ε α → Option ε
  | .err e => some e
  | _ => none

theorem errorOf_eq_some {ε α : Type} {x : Outcome ε α} {e : ε} : errorOf x = some e ↔ x = .err e := by
  cases x <;> simp [errorOf]

theorem errorOf_map {ε : Type} (f : α → β) (p : Reader ε α) (bs : List UInt8) :
    errorOf ((f <$> p) bs) = errorOf (p bs) := by
  rw [map_apply]
  cases p bs <;> rfl

theorem errorOf_read (n : ℕ) (f : List UInt8 → Reader ε α) (bs : List UInt8) :
    errorOf ((readExact n >>= f) bs) =
      if n ≤ bs.length then errorOf (f (bs.take n) (bs.drop n)) else some eof := by
  rw [bind_apply]
  unfold readExact
  split <;> rfl

/-! ### Fixed blocks -/

/-- `p` reads `n` bytes at once and takes them apart into a value that is
related to them by `P`. -/
def Block (p : Reader ε α) (n : ℕ) (P : List UInt8 → α → Prop) : Prop :=
  ∃ k, p = readExact n >>= k ∧ ∀ buf, buf.length = n → ∃ a, k buf = pure a ∧ P buf a

variable {p : Reader ε α} {n : ℕ} {P : List UInt8 → α → Prop}

theorem Block.consumes (h : Block p n P) : Consumes p P := by
  obtain ⟨k, rfl, hk⟩ := h
  refine (consumes_readExact n).bind ?_
  rintro buf _ ⟨rfl, hlen⟩
  obtain ⟨a, ha, hP⟩ := hk _ hlen
  rw [ha]
  exact consumes_pure (by rwa [List.append_nil])

theorem Block.steady (h : Block p n P) : Steady p := by
  obtain ⟨k, rfl, hk⟩ := h
  refine Steady.read fun buf hlen => ?_
  obtain ⟨a, ha, -⟩ := hk buf hlen
  rw [ha]
  exact steady_pure a

theorem Block.errorOf (h : Block p n P) (bs : List UInt8) :
    errorOf (p bs) = if n ≤ bs.length then none else some eof := by
  obtain ⟨k, rfl, hk⟩ := h
  rw [errorOf_read]
  split_ifs with hle
  · obtain ⟨a, ha, -⟩ := hk (bs.take n) (by simp [hle])
    rw [ha]
    rfl
  · rfl

end Reader

end Lib
