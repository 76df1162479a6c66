import Tuic.Lib.Reader

/-! Asynchronous readers of a byte stream. A reader is suspended whenever the
stream has nothing for it, and polled again later. However the bytes arrive, it
ends as the synchronous reader that it denotes does on all of them. -/

namespace Lib

/-- What the next read of a stream meets. -/
inductive Arrival
  | pending
  | chunk (bytes : List UInt8) (nonempty : bytes ≠ [])

/-- A stream up to its end. -/
abbrev ByteStream := List Arrival

namespace ByteStream

def bytes : ByteStream → List UInt8
  | [] => []
  | .pending :: s => bytes s
  | .chunk c _ :: s => c ++ bytes s

/-- How many reads find nothing. -/
def pendings : ByteStream → ℕ
  | [] => 0
  | .pending :: s => pendings s + 1
  | .chunk _ _ :: s => pendings s

/-- How one poll of a `read_exact` ends. -/
inductive Polled
  | done (buf : List UInt8) (rest : ByteStream)
  | ended (rest : ByteStream)
  | pending (room : ℕ) (got : List UInt8) (rest : ByteStream)

/-- One poll of a `read_exact` that has room for `room` more bytes: it reads until
the buffer is full, the stream has nothing or the stream is at its end. -/
def pollExact : ℕ → List UInt8 → ByteStream → Polled
  | 0, got, s => .done got s
  | _ + 1, _, [] => .ended []
  | room + 1, got, .pending :: s => .pending (room + 1) got s
  | room + 1, got, .chunk c _ :: s =>
    if h : room + 1 < c.length then
      .done (got ++ c.take (room + 1)) (.chunk (c.drop (room + 1)) (by simpa using h) :: s)
    else pollExact (room + 1 - c.length) (got ++ c) s

/-- What a poll has read, and what is left. -/
inductive PollsTo (room : ℕ) (got : List UInt8) (s : ByteStream) : Polled → Prop
  | done (new : List UInt8) (rest : ByteStream) (hlen : new.length = room)
      (hbytes : s.bytes = new ++ rest.bytes) (hle : rest.pendings ≤ s.pendings) :
      PollsTo room got s (.done (got ++ new) rest)
  | ended (rest : ByteStream) (hshort : s.bytes.length < room) : PollsTo room got s (.ended rest)
  | pending (new : List UInt8) (room' : ℕ) (rest : ByteStream) (hroom : room = new.length + room')
      (hbytes : s.bytes = new ++ rest.bytes) (hfewer : rest.pendings < s.pendings) :
      PollsTo room got s (.pending room' (got ++ new) rest)

theorem pollsTo (s : ByteStream) : ∀ room got, PollsTo room got s (pollExact room got s) := by
  induction s with
  | nil =>
    intro room got
    cases room with
    | zero =>
      have hdone : PollsTo 0 got [] (.done (got ++ []) []) := .done [] [] rfl rfl (Nat.le_refl _)
      simpa [pollExact] using hdone
    | succ room => exact .ended [] (Nat.succ_pos room)
  | cons a s ih =>
    intro room got
    cases room with
    | zero =>
      have hdone : PollsTo 0 got (a :: s) (.done (got ++ []) (a :: s)) :=
        .done [] (a :: s) rfl rfl (Nat.le_refl _)
      simpa [pollExact] using hdone
    | succ room =>
      cases a with
      | pending =>
        have hpending : PollsTo (room + 1) got (.pending :: s) (.pending (room + 1) (got ++ []) s) :=
          .pending [] (room + 1) s (by simp) rfl (Nat.lt_succ_self _)
        simpa [pollExact] using hpending
      | chunk c hc =>
        simp only [pollExact]
        split_ifs with h
        · refine .done _ _ (by simp; omega) ?_ (Nat.le_refl _)
          simp only [bytes, ← List.append_assoc, List.take_append_drop]
        · -- the chunk fits, and the loop goes on behind it
          generalize hres : pollExact (room + 1 - c.length) (got ++ c) s = res
          have hih := hres ▸ ih (room + 1 - c.length) (got ++ c)
          cases hih with
          | done new rest hlen hbytes hle =>
            rw [List.append_assoc]
            refine .done (c ++ new) rest ?_ ?_ hle
            · rw [List.length_append]
              omega
            · rw [bytes, hbytes, List.append_assoc]
          | ended rest hshort =>
            refine .ended rest ?_
            rw [bytes, List.length_append]
            omega
          | pending new room' rest hroom hbytes hfewer =>
            rw [List.append_assoc]
            refine .pending (c ++ new) room' rest ?_ ?_ hfewer
            · rw [List.length_append]
              omega
            · rw [bytes, hbytes, List.append_assoc]

/-- A stream that has all of the bytes at once. -/
def ofBytes : List UInt8 → ByteStream
  | [] => []
  | x :: xs => [.chunk (x :: xs) (List.cons_ne_nil x xs)]

@[simp] theorem bytes_ofBytes (xs : List UInt8) : (ofBytes xs).bytes = xs := by
  cases xs <;> simp [ofBytes, bytes]

@[simp] theorem pendings_ofBytes (xs : List UInt8) : (ofBytes xs).pendings = 0 := by
  cases xs <;> rfl

/-- A read that is pending has room left. -/
theorem room_pos_of_pollExact (s : ByteStream) : ∀ {room room' : ℕ} {got got' : List UInt8} {rest : ByteStream},
    pollExact room got s = .pending room' got' rest → 0 < room' := by
  induction s with
  | nil =>
    intro room room' got got' rest h
    cases room <;> cases h
  | cons a s ih =>
    intro room room' got got' rest h
    cases room with
    | zero => cases h
    | succ room =>
      cases a with
      | pending =>
        cases h
        exact Nat.succ_pos room
      | chunk c hc =>
        simp only [pollExact] at h
        split_ifs at h with hlt
        exact ih h

end ByteStream

/-- An asynchronous reader, where it stands: at its end, or in a `read_exact`. -/
inductive Async (ε α : Type)
  | ready (res : Outcome ε α)
  | reading (room : ℕ) (got : List UInt8) (next : List UInt8 → Async ε α)

namespace Async

variable {ε α β : Type}

protected def bind : Async ε α → (α → Async ε β) → Async ε β
  | ready (.ok a), f => f a
  | ready (.err e), _ => ready (.err e)
  | ready (.panic p), _ => ready (.panic p)
  | reading room got next, f => reading room got fun buf => (next buf).bind f

instance : Monad (Async ε) where
  pure a := ready (.ok a)
  bind := Async.bind

def fail (e : ε) : Async ε α := ready (.err e)

/-- A step that does not wait. -/
def lift (x : Outcome ε α) : Async ε α := ready x

/-- `read_exact` into a new buffer of `n` bytes. -/
def readExact (n : ℕ) : Async ε (List UInt8) := reading n [] fun buf => ready (.ok buf)

variable [EndOfInput ε]

/-- The synchronous reader that it denotes. -/
def toReader : Async ε α → Reader ε α
  | ready res => Reader.lift res
  | reading room got next => Reader.readExact room >>= fun buf => toReader (next (got ++ buf))

@[simp] theorem toReader_pure (a : α) : (pure a : Async ε α).toReader = pure a := rfl

@[simp] theorem toReader_fail (e : ε) : (fail e : Async ε α).toReader = Reader.fail e := rfl

@[simp] theorem toReader_lift (x : Outcome ε α) : (lift x).toReader = Reader.lift x := rfl

@[simp] theorem toReader_readExact (n : ℕ) :
    (readExact n : Async ε _).toReader = Reader.readExact n := by
  funext bs
  simp only [readExact, toReader, List.nil_append, Reader.bind_apply, Reader.readExact]
  split_ifs <;> rfl

@[simp] theorem toReader_bind (p : Async ε α) (f : α → Async ε β) :
    (p >>= f).toReader = p.toReader >>= fun a => (f a).toReader := by
  change (p.bind f).toReader = _
  induction p with
  | ready res => cases res <;> rfl
  | reading room got next ih =>
    funext bs
    simp only [Async.bind, toReader, ih, Reader.bind_apply, Reader.readExact]
    split_ifs <;> rfl

@[simp] theorem toReader_map (f : α → β) (p : Async ε α) : (f <$> p).toReader = f <$> p.toReader :=
  toReader_bind p fun a => pure (f a)

@[simp] theorem toReader_ite (c : Prop) [Decidable c] (p q : Async ε α) :
    (if c then p else q).toReader = if c then p.toReader else q.toReader := by
  split_ifs <;> rfl

/-- One poll: the reader runs until it ends or the stream has nothing for it. -/
def poll : Async ε α → ByteStream → Async ε α × ByteStream
  | ready res, s => (ready res, s)
  | reading room got next, s =>
    match s.pollExact room got with
    | .done buf rest => poll (next buf) rest
    | .ended rest => (ready (.err eof), rest)
    | .pending room got rest => (reading room got next, rest)

/-- Polls up to `polls` times, until the reader has ended. -/
def blockOn : ℕ → Async ε α → ByteStream → Option (Outcome ε (α × ByteStream))
  | 0, _, _ => none
  | polls + 1, p, s =>
    match p.poll s with
    | (ready res, rest) => some (res >>= fun a => .ok (a, rest))
    | (p, rest) => blockOn polls p rest

/-- A poll does not change what the reader denotes on the bytes still to come, and
it ends the reader or takes a pending read off the stream. -/
theorem poll_denotes (p : Async ε α) :
    ∀ s : ByteStream, (p.poll s).1.toReader (p.poll s).2.bytes = p.toReader s.bytes ∧
      ((∃ res, (p.poll s).1 = ready res) ∨ (p.poll s).2.pendings < s.pendings) := by
  induction p with
  | ready res => exact fun s => ⟨rfl, .inl ⟨res, rfl⟩⟩
  | reading room got next ih =>
    intro s
    have hpolled := s.pollsTo room got
    simp only [poll, toReader]
    generalize s.pollExact room got = res at hpolled
    cases hpolled with
    | done new rest hlen hbytes hle =>
      obtain ⟨hsame, hend⟩ := ih (got ++ new) rest
      refine ⟨?_, hend.imp_right fun hlt => Nat.lt_of_lt_of_le hlt hle⟩
      rw [hsame, Reader.bind_apply, hbytes, Reader.readExact_append hlen]
      rfl
    | ended rest hshort =>
      refine ⟨?_, .inl ⟨_, rfl⟩⟩
      rw [Reader.bind_apply, Reader.readExact_of_lt hshort]
      rfl
    | pending new room' rest hroom hbytes hfewer =>
      refine ⟨?_, .inr hfewer⟩
      rw [hbytes, hroom, Reader.readExact_add]
      simp only [toReader, List.append_assoc]

/-- Polled often enough, the reader ends, and as the synchronous one does. -/
theorem blockOn_denotes : ∀ (polls : ℕ) (p : Async ε α) (s : ByteStream), s.pendings < polls →
    ∃ res, blockOn polls p s = some res ∧
      (res >>= fun x => .ok (x.1, x.2.bytes)) = p.toReader s.bytes := by
  intro polls
  induction polls with
  | zero => exact fun p s h => absurd h (Nat.not_lt_zero _)
  | succ polls ih =>
    intro p s h
    obtain ⟨hsame, hend⟩ := p.poll_denotes s
    rw [blockOn]
    generalize p.poll s = r at hsame hend
    obtain ⟨q, rest⟩ := r
    cases q with
    | ready res =>
      refine ⟨_, rfl, ?_⟩
      rw [← hsame]
      cases res <;> rfl
    | reading room got next =>
      have hlt : rest.pendings < s.pendings := by
        rcases hend with ⟨res, hres⟩ | hlt
        · cases hres
        · exact hlt
      obtain ⟨res, hres, hbytes⟩ := ih (.reading room got next) rest (by omega)
      exact ⟨res, hres, hbytes.trans hsame⟩

/-- A reader that ends with a value leaves what comes after its bytes unread. -/
theorem toReader_append (p : Async ε α) (more : List UInt8) : ∀ {bs rest : List UInt8} {a : α},
    p.toReader bs = .ok (a, rest) → p.toReader (bs ++ more) = .ok (a, rest ++ more) := by
  induction p with
  | ready res =>
    intro bs rest a h
    obtain ⟨a', rfl, ha⟩ := Outcome.bind_eq_ok.1 h
    cases ha
    rfl
  | reading room got next ih =>
    intro bs rest a h
    obtain ⟨⟨buf, mid⟩, hbuf, hnext⟩ := Outcome.bind_eq_ok.1 h
    obtain ⟨rfl, hlen⟩ := Reader.readExact_eq_ok hbuf
    rw [toReader, Reader.bind_apply, List.append_assoc, Reader.readExact_append hlen]
    exact ih (got ++ buf) hnext

/-- A poll that does not run into the end of the stream leaves a reader that reads
on where it stopped, whatever is still to come. -/
theorem poll_append (p : Async ε α) : ∀ (s : ByteStream) (more : List UInt8),
    (p.poll s).1 = ready (.err eof) ∨
      (p.poll s).1.toReader ((p.poll s).2.bytes ++ more) = p.toReader (s.bytes ++ more) := by
  induction p with
  | ready res => exact fun s more => .inr rfl
  | reading room got next ih =>
    intro s more
    have hpolled := s.pollsTo room got
    simp only [poll, toReader]
    generalize s.pollExact room got = res at hpolled
    cases hpolled with
    | done new rest hlen hbytes hle =>
      refine (ih (got ++ new) rest more).imp_right fun hsame => ?_
      rw [hsame, Reader.bind_apply, hbytes, List.append_assoc, Reader.readExact_append hlen]
      rfl
    | ended rest hshort => exact .inl rfl
    | pending new room' rest hroom hbytes hfewer =>
      right
      rw [hbytes, hroom, List.append_assoc, Reader.readExact_add]
      simp only [toReader, List.append_assoc]

/-- A reader leaves the end of what it reads. -/
theorem suffix_of_toReader (p : Async ε α) : ∀ {bs rest : List UInt8} {a : α},
    p.toReader bs = .ok (a, rest) → rest <:+ bs := by
  induction p with
  | ready res =>
    intro bs rest a h
    obtain ⟨a', rfl, ha⟩ := Outcome.bind_eq_ok.1 h
    cases ha
    exact List.suffix_refl _
  | reading room got next ih =>
    intro bs rest a h
    obtain ⟨⟨buf, mid⟩, hbuf, hnext⟩ := Outcome.bind_eq_ok.1 h
    obtain ⟨rfl, -⟩ := Reader.readExact_eq_ok hbuf
    exact (ih (got ++ buf) hnext).trans (List.suffix_append _ _)

/-- A poll that runs into the end of the stream has not come behind what the reader would
have read. -/
theorem suffix_of_poll_eof (p : Async ε α) : ∀ (s : ByteStream) {more rest : List UInt8} {a : α},
    (p.poll s).1 = ready (.err eof) → p.toReader (s.bytes ++ more) = .ok (a, rest) → rest <:+ more := by
  induction p with
  | ready res =>
    intro s more rest a hpoll h
    cases hpoll
    cases h
  | reading room got next ih =>
    intro s more rest a hpoll h
    have hpolled := s.pollsTo room got
    rw [poll] at hpoll
    rw [toReader, Reader.bind_apply] at h
    generalize s.pollExact room got = res at hpolled hpoll
    cases hpolled with
    | done new left hlen hbytes hle =>
      rw [hbytes, List.append_assoc, Reader.readExact_append hlen] at h
      exact ih (got ++ new) left hpoll h
    | ended left hshort =>
      obtain ⟨⟨buf, mid⟩, hbuf, hnext⟩ := Outcome.bind_eq_ok.1 h
      obtain ⟨hsplit, hlen⟩ := Reader.readExact_eq_ok hbuf
      have hmid : mid <:+ s.bytes ++ more := ⟨buf, hsplit.symm⟩
      have hrest : rest <:+ mid := suffix_of_toReader _ hnext
      refine hrest.trans (List.suffix_of_suffix_length_le hmid (List.suffix_append _ _) ?_)
      have hlength := congrArg List.length hsplit
      rw [List.length_append, List.length_append] at hlength
      omega
    | pending new room' left hroom hbytes hfewer => cases hpoll

/-- The reader waits for bytes. -/
def Waits : Async ε α → Prop
  | ready _ => False
  | reading room _ _ => 0 < room

/-- After a poll it waits, or it has ended. -/
theorem waits_of_poll (p : Async ε α) : ∀ (s : ByteStream) {q : Async ε α} {rest : ByteStream},
    p.poll s = (q, rest) → q.Waits ∨ ∃ res, q = ready res := by
  induction p with
  | ready res =>
    intro s q rest h
    cases h
    exact .inr ⟨res, rfl⟩
  | reading room got next ih =>
    intro s q rest h
    rw [poll] at h
    split at h
    · exact ih _ _ h
    · cases h
      exact .inr ⟨_, rfl⟩
    · rename_i hpoll
      cases h
      exact .inl (s.room_pos_of_pollExact hpoll)

/-- A poll takes nothing back. -/
theorem length_poll (p : Async ε α) : ∀ s : ByteStream,
    (p.poll s).1 = ready (.err eof) ∨ (p.poll s).2.bytes.length ≤ s.bytes.length := by
  induction p with
  | ready res => exact fun s => .inr (Nat.le_refl _)
  | reading room got next ih =>
    intro s
    have hpolled := s.pollsTo room got
    simp only [poll]
    generalize s.pollExact room got = res at hpolled
    cases hpolled with
    | done new rest hlen hbytes hle =>
      refine (ih (got ++ new) rest).imp_right fun hrest => ?_
      dsimp only
      rw [hbytes, List.length_append]
      omega
    | ended rest hshort => exact .inl rfl
    | pending new room' rest hroom hbytes hfewer =>
      refine .inr ?_
      dsimp only
      rw [hbytes, List.length_append]
      omega

/-- A reader that waits takes something off the stream, or stays as it is, unless it runs into
the end. -/
theorem Waits.poll {p : Async ε α} (h : p.Waits) (s : ByteStream) : (p.poll s).1 = ready (.err eof) ∨
    (p.poll s).2.bytes.length < s.bytes.length ∨ (p.poll s).1 = p ∧ (p.poll s).2.bytes = s.bytes := by
  cases p with
  | ready res => exact h.elim
  | reading room got next =>
    have hpos : 0 < room := h
    have hpolled := s.pollsTo room got
    simp only [Async.poll]
    generalize s.pollExact room got = res at hpolled
    cases hpolled with
    | done new rest hlen hbytes hle =>
      refine ((next (got ++ new)).length_poll rest).imp_right fun hrest => .inl ?_
      dsimp only
      rw [hbytes, List.length_append]
      omega
    | ended rest hshort => exact .inl rfl
    | pending new room' rest hroom hbytes hfewer =>
      cases new with
      | nil =>
        obtain rfl : room' = room := by simpa using hroom.symm
        exact .inr (.inr ⟨by simp, hbytes.symm⟩)
      | cons x new =>
        refine .inr (.inl ?_)
        dsimp only
        rw [hbytes, List.length_append, List.length_cons]
        omega

theorem Waits.ne_nil {p : Async ε α} (h : p.Waits) {bs rest : List UInt8} {a : α}
    (hok : p.toReader bs = .ok (a, rest)) : bs ≠ [] := by
  rintro rfl
  cases p with
  | ready res => exact h
  | reading room got next =>
    obtain ⟨⟨buf, mid⟩, hbuf, -⟩ := Outcome.bind_eq_ok.1 hok
    obtain ⟨hsplit, hlen⟩ := Reader.readExact_eq_ok hbuf
    obtain ⟨rfl, -⟩ := List.append_eq_nil_iff.1 hsplit.symm
    exact absurd hlen (Nat.ne_of_lt h)

/-- A reader that would end with a value does not run into an end while the stream has nothing. -/
theorem poll_pending (p : Async ε α) : ∀ {bs rest : List UInt8} {a : α}, p.toReader bs = .ok (a, rest) →
    (p.poll [.pending]).1 ≠ ready (.err eof) ∧ (p.poll [.pending]).2.bytes = [] := by
  induction p with
  | ready res =>
    intro bs rest a hok
    obtain ⟨a', rfl, -⟩ := Outcome.bind_eq_ok.1 hok
    exact ⟨by simp [poll], rfl⟩
  | reading room got next ih =>
    intro bs rest a hok
    cases room with
    | succ room => exact ⟨by simp [poll, ByteStream.pollExact], rfl⟩
    | zero =>
      obtain ⟨⟨buf, mid⟩, hbuf, hnext⟩ := Outcome.bind_eq_ok.1 hok
      obtain ⟨-, hlen⟩ := Reader.readExact_eq_ok hbuf
      obtain rfl : buf = [] := List.length_eq_zero_iff.1 hlen
      have hgot : (next (got ++ [])).toReader mid = .ok (a, rest) := hnext
      rw [List.append_nil] at hgot
      exact ih got hgot

/-- It takes the one byte that the stream has. -/
theorem Waits.poll_byte {p : Async ε α} (h : p.Waits) {x : UInt8} {bs rest : List UInt8} {a : α}
    (hok : p.toReader (x :: bs) = .ok (a, rest)) :
    (p.poll [.chunk [x] (List.cons_ne_nil x []), .pending]).1 ≠ ready (.err eof) ∧
      (p.poll [.chunk [x] (List.cons_ne_nil x []), .pending]).2.bytes = [] := by
  cases p with
  | ready res => exact h.elim
  | reading room got next =>
    cases room with
    | zero => exact absurd h (Nat.lt_irrefl 0)
    | succ room =>
      cases room with
      | succ room =>
        exact ⟨by simp [Async.poll, ByteStream.pollExact],
          by simp [Async.poll, ByteStream.pollExact, ByteStream.bytes]⟩
      | zero =>
        obtain ⟨⟨buf, mid⟩, hbuf, hnext⟩ := Outcome.bind_eq_ok.1 hok
        obtain ⟨hsplit, hlen⟩ := Reader.readExact_eq_ok hbuf
        obtain ⟨y, rfl⟩ := List.length_eq_one_iff.1 hlen
        obtain ⟨rfl, rfl⟩ := List.cons.inj hsplit
        have hpoll : (reading 1 got next).poll [.chunk [x] (List.cons_ne_nil x []), .pending] =
            (next (got ++ [x])).poll [.pending] := by simp [Async.poll, ByteStream.pollExact]
        rw [hpoll]
        exact poll_pending _ hnext

end Async

end Lib
