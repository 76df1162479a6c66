import Tuic.Lib.Segments
import Tuic.Sanity.Message
import Tuic.Spec.Fragments

/-! What the fragment iterator yields, in every build: the segments of the
payload between its cuts, under headers that differ in the fragment id, in the
size and in the address, which only the first one carries. -/

namespace Tuic.Model

open Lib

namespace PacketTx

variable (b : Build) (tx : PacketTx) (payload : List UInt8)

/-- The room behind the header with the address. -/
def firstSize : ℕ := b.wrappingSub tx.maxPktSize (headerLen tx.addr)

/-- The room behind the header of each later fragment. -/
def restSize : ℕ := b.wrappingSub tx.maxPktSize (headerLen .none)

/-- Where fragment `i` of a payload of `len` bytes starts. -/
def cut (len : ℕ) : ℕ → ℕ
  | 0 => 0
  | i + 1 => min (tx.firstSize b + i * tx.restSize b) len

def piece (i : ℕ) : List UInt8 :=
  payload.extract (tx.cut b payload.length i) (tx.cut b payload.length (i + 1))

/-- Fragment `i` of `total`. -/
def frag (total : UInt8) (i : ℕ) : Fragment :=
  (⟨tx.assocId, tx.pktId, total, UInt8.ofNat i, UInt16.ofNat (tx.piece b payload i).length,
    if i = 0 then tx.addr else .none⟩, tx.piece b payload i)

/-- The iterator before fragment `i`. -/
def fragmentsAt (total : UInt8) (i : ℕ) : Fragments where
  assocId := tx.assocId
  pktId := tx.pktId
  addr := if i = 0 then tx.addr else .none
  maxPktSize := tx.maxPktSize
  fragTotal := total
  nextFragId := UInt8.ofNat i
  nextFragStart := tx.cut b payload.length i
  payload := payload

variable {b tx payload}

theorem cut_le (len i : ℕ) : tx.cut b len i ≤ len := by
  cases i with
  | zero => exact Nat.zero_le len
  | succ i => exact Nat.min_le_right _ _

theorem cut_mono (len i : ℕ) : tx.cut b len i ≤ tx.cut b len (i + 1) := by
  cases i with
  | zero => exact Nat.zero_le _
  | succ i =>
    have h : tx.firstSize b + i * tx.restSize b ≤ tx.firstSize b + (i + 1) * tx.restSize b := by
      rw [Nat.succ_mul]
      omega
    simp only [cut]
    omega

/-- Cuts before the end are not clipped. -/
theorem cut_succ_of_lt {len i : ℕ} (h : tx.cut b len i < len) :
    tx.cut b len (i + 1) =
      min (tx.cut b len i + if i = 0 then tx.firstSize b else tx.restSize b) len := by
  cases i with
  | zero => simp [cut]
  | succ i =>
    simp only [cut] at h ⊢
    rw [Nat.succ_mul]
    simp only [Nat.succ_ne_zero, if_false]
    omega

theorem piece_length (i : ℕ) : (tx.piece b payload i).length =
    tx.cut b payload.length (i + 1) - tx.cut b payload.length i :=
  extract_length _ (cut_le _ _)

/-- The pieces before a cut join up to the payload up to there. -/
theorem flatMap_piece (b : Build) (tx : PacketTx) (payload : List UInt8) (k : ℕ) :
    (List.range k).flatMap (tx.piece b payload) = payload.take (tx.cut b payload.length k) :=
  flatMap_extract payload rfl (fun i => cut_mono payload.length i) k

/-! ### One step of the iterator -/

/-- The values a payload and a size can have in memory. -/
structure InMemory (b : Build) (tx : PacketTx) (payload : List UInt8) : Prop where
  payload : payload.length ≤ b.isizeMax
  maxPktSize : tx.maxPktSize < 2 ^ b.usizeBits

theorem isizeMax_lt (b : Build) : 2 * b.isizeMax + 2 = 2 ^ b.usizeBits := by
  have hb := b.bits_ge
  obtain ⟨w, hw⟩ : ∃ w, b.usizeBits = w + 1 := ⟨b.usizeBits - 1, by omega⟩
  have hpos := Nat.two_pow_pos w
  simp only [Build.isizeMax, hw, Nat.add_sub_cancel, Nat.pow_succ]
  omega

/-- An end position that wrapped would end the fragment before its start. -/
theorem fragment_end {start room len sum size : ℕ} (hlen : len ≤ b.isizeMax)
    (hroom : room < 2 ^ b.usizeBits) (hstart : start < len)
    (hsum : sum = (start + room) % 2 ^ b.usizeBits) (hsize : size = b.wrappingSub (min sum len) start)
    (hfit : start + size ≤ len) :
    min sum len = min (start + room) len ∧ size = min (start + room) len - start := by
  have hmax := isizeMax_lt b
  have hle : start ≤ min sum len := by
    by_contra hlt
    have hmod : (2 ^ b.usizeBits + min sum len - start) % 2 ^ b.usizeBits =
        2 ^ b.usizeBits + min sum len - start := Nat.mod_eq_of_lt (by omega)
    rw [Build.wrappingSub, if_neg hlt, hmod] at hsize
    omega
  have hnowrap : start + room < 2 ^ b.usizeBits := by
    by_contra hge
    have hmod : (start + room) % 2 ^ b.usizeBits = start + room - 2 ^ b.usizeBits := by
      rw [Nat.mod_eq_sub_mod (Nat.not_lt.1 hge), Nat.mod_eq_of_lt (by omega)]
    omega
  rw [Nat.mod_eq_of_lt hnowrap] at hsum
  rw [Build.wrappingSub_of_le b hle] at hsize
  subst hsum
  exact ⟨rfl, hsize⟩

theorem room_eq (i : ℕ) : b.wrappingSub tx.maxPktSize (headerLen (if i = 0 then tx.addr else .none)) =
    if i = 0 then tx.firstSize b else tx.restSize b := by
  split_ifs <;> rfl

/-- What a call of `next` that returns has computed. -/
inductive NextEffect (b : Build) (f : Fragments) : Option (Fragment × Fragments) → Prop
  | yields (room sum size : ℕ) (bytes : List UInt8) (nextId : UInt8)
      (more : f.nextFragId < f.fragTotal)
      (room_eq : room = b.wrappingSub f.maxPktSize (headerLen f.addr))
      (sum_eq : sum = (f.nextFragStart + room) % 2 ^ b.usizeBits)
      (size_eq : size = b.wrappingSub (min sum f.payload.length) f.nextFragStart)
      (inside : f.nextFragStart < f.payload.length)
      (bytes_eq : fromRawParts f.payload f.nextFragStart size = .ok bytes)
      (nextId_eq : b.addU8 f.nextFragId 1 = (.ok nextId : Outcome Empty UInt8)) :
      NextEffect b f (some ((⟨f.assocId, f.pktId, f.fragTotal, f.nextFragId, UInt16.ofNat size, f.addr⟩, bytes),
        { f with addr := .none, nextFragId := nextId, nextFragStart := min sum f.payload.length }))
  | done (last : ¬ f.nextFragId < f.fragTotal) : NextEffect b f none

theorem next_nextEffect {f : Fragments} {o : Option (Fragment × Fragments)} (h : f.next b = .ok o) :
    NextEffect b f o := by
  unfold Fragments.next at h
  by_cases hlt : f.nextFragId < f.fragTotal
  · rw [if_pos hlt] at h
    obtain ⟨room, hroom, h⟩ := Outcome.bind_eq_ok.1 h
    obtain ⟨sum, hsum, h⟩ := Outcome.bind_eq_ok.1 h
    obtain ⟨size, hsize, h⟩ := Outcome.bind_eq_ok.1 h
    split_ifs at h with hstart
    obtain ⟨bytes, hbytes, h⟩ := Outcome.bind_eq_ok.1 h
    obtain ⟨nextId, hnext, h⟩ := Outcome.bind_eq_ok.1 h
    rw [← Outcome.ok.inj h]
    exact .yields room sum size bytes nextId hlt (Build.eq_of_subUsize b hroom) (Build.eq_of_addUsize b hsum)
      (Build.eq_of_subUsize b hsize) hstart hbytes hnext
  · rw [if_neg hlt] at h
    rw [← Outcome.ok.inj h]
    exact .done hlt

theorem nextFragId_lt_iff {total : UInt8} {i : ℕ} (hi : i ≤ total.toNat) :
    (tx.fragmentsAt b payload total i).nextFragId < (tx.fragmentsAt b payload total i).fragTotal ↔
      i < total.toNat := by
  have ht := total.toNat_lt
  have hid : (UInt8.ofNat i).toNat = i := by rw [UInt8.toNat_ofNat']; omega
  rw [UInt8.lt_iff_toNat_lt, fragmentsAt, hid]

/-- When the iterator yields, it yields the next fragment and moves on to the one
after it. -/
theorem next_eq_some (hmem : InMemory b tx payload) {total : UInt8} {i : ℕ} (hi : i ≤ total.toNat)
    {x : Fragment} {f : Fragments}
    (h : (tx.fragmentsAt b payload total i).next b = .ok (some (x, f))) :
    i < total.toNat ∧ tx.cut b payload.length i < payload.length ∧ x = tx.frag b payload total i ∧
      f = tx.fragmentsAt b payload total (i + 1) := by
  cases next_nextEffect h with
  | yields room sum size bytes nextId more hroom hsum hsize hstart hbytes hnext =>
    replace more := (nextFragId_lt_iff hi).1 more
    simp only [fragmentsAt] at hroom hsum hsize hstart hbytes hnext ⊢
    -- the arithmetic of the sizes
    have hroomlt : room < 2 ^ b.usizeBits := hroom ▸ b.wrappingSub_lt hmem.maxPktSize _
    unfold fromRawParts at hbytes
    split_ifs at hbytes with hfit
    obtain ⟨hend, hsz⟩ := fragment_end hmem.payload hroomlt hstart hsum hsize hfit
    have hcut := cut_succ_of_lt hstart
    rw [← room_eq i, ← hroom] at hcut
    have hpiece : tx.piece b payload i = bytes := by
      rw [piece, hcut, List.extract_eq_take_drop, ← hsz]
      exact Outcome.ok.inj hbytes
    have hlen : (tx.piece b payload i).length = size := by rw [piece_length, hcut, hsz]
    have hone : (UInt8.ofNat i).toNat + (1 : UInt8).toNat < 256 := by
      have ht := total.toNat_lt
      rw [UInt8.toNat_ofNat']
      change i % 256 + 1 < 256
      omega
    rw [b.addU8_of_lt hone] at hnext
    refine ⟨more, hstart, ?_, ?_⟩
    · rw [frag, hlen, hpiece]
    · rw [hcut, ← hend, ← Outcome.ok.inj hnext]
      simp

theorem next_eq_none {total : UInt8} {i : ℕ} (hi : i ≤ total.toNat)
    (h : (tx.fragmentsAt b payload total i).next b = .ok none) : i = total.toNat := by
  cases next_nextEffect h with
  | done last =>
    rw [nextFragId_lt_iff hi] at last
    omega

/-! ### The whole iteration -/

/-- From fragment `i` on, the loop yields consecutive fragments, and all of them
if it runs to its end. -/
theorem take_fragments (hmem : InMemory b tx payload) {total : UInt8} :
    ∀ fuel i, i + fuel = total.toNat →
      ∃ k ≤ fuel, ((tx.fragmentsAt b payload total i).take b fuel).1 =
          (List.range' i k).map (tx.frag b payload total) ∧
        (∀ j, i ≤ j → j < i + k → tx.cut b payload.length j < payload.length) ∧
        (((tx.fragmentsAt b payload total i).take b fuel).2 = .ok () → k = fuel) := by
  intro fuel
  induction fuel with
  | zero => exact fun i hi => ⟨0, Nat.le_refl 0, rfl, fun j h1 h2 => absurd h2 (Nat.not_lt.2 h1), fun _ => rfl⟩
  | succ fuel ih =>
    intro i hi
    simp only [Fragments.take]
    cases hn : (tx.fragmentsAt b payload total i).next b with
    | err e => cases e
    | panic p =>
      exact ⟨0, Nat.zero_le _, rfl, fun j h1 h2 => absurd h2 (Nat.not_lt.2 h1), nofun⟩
    | ok o =>
      cases o with
      | none =>
        have := next_eq_none (by omega) hn
        omega
      | some y =>
        obtain ⟨x, f⟩ := y
        obtain ⟨-, hcut, rfl, rfl⟩ := next_eq_some hmem (by omega) hn
        obtain ⟨k, hk, hfrags, hcuts, hend⟩ := ih (i + 1) (by omega)
        refine ⟨k + 1, Nat.succ_le_succ hk, ?_, fun j h1 h2 => ?_, fun h => congrArg (· + 1) (hend h)⟩
        · rw [List.range'_succ, List.map_cons, ← hfrags]
        · rcases Nat.eq_or_lt_of_le h1 with rfl | hlt
          · exact hcut
          · exact hcuts j hlt (by omega)

theorem intoFragments_eq_ok {f : Fragments} (h : tx.intoFragments b payload = .ok f) :
    ∃ n, tx.fragCount b payload.length = .ok n ∧ f = tx.fragmentsAt b payload (UInt8.ofNat n) 0 := by
  obtain ⟨n, hn, hf⟩ := Outcome.bind_eq_ok.1 h
  exact ⟨n, hn, (Outcome.ok.inj hf).symm⟩

/-- What a packet yields: nothing, or the first fragments of the announced total,
which is the number of fragments modulo 256. -/
theorem fragments_eq (hmem : InMemory b tx payload) :
    tx.fragments b payload = ([], (tx.fragments b payload).2) ∧ (tx.fragments b payload).2 ≠ .ok () ∨
    ∃ n k, tx.fragCount b payload.length = .ok n ∧ k ≤ n % 256 ∧
      (tx.fragments b payload).1 = (List.range k).map (tx.frag b payload (UInt8.ofNat n)) ∧
      (∀ j < k, tx.cut b payload.length j < payload.length) ∧
      ((tx.fragments b payload).2 = .ok () → k = n % 256) := by
  cases hf : tx.intoFragments b payload with
  | err e => cases e
  | panic p => exact .inl (by simp [fragments, hf])
  | ok f =>
    obtain ⟨n, hn, rfl⟩ := intoFragments_eq_ok hf
    have htotal : (UInt8.ofNat n).toNat = n % 256 := UInt8.toNat_ofNat'
    obtain ⟨k, hk, hfrags, hcuts, hend⟩ := take_fragments hmem (UInt8.ofNat n).toNat 0 (Nat.zero_add _)
    have hdrain : tx.fragments b payload =
        (tx.fragmentsAt b payload (UInt8.ofNat n) 0).take b (UInt8.ofNat n).toNat := by
      simp only [fragments, hf]
      rfl
    refine .inr ⟨n, k, hn, htotal ▸ hk, ?_, fun j hj => hcuts j (Nat.zero_le j) (by omega), ?_⟩
    · rw [hdrain, hfrags, List.range_eq_range']
    · intro h
      rw [← htotal]
      exact hend (hdrain ▸ h)

theorem fragments_done (hmem : InMemory b tx payload) {frags : List Fragment}
    (h : tx.fragments b payload = (frags, .ok ())) :
    ∃ n, tx.fragCount b payload.length = .ok n ∧
      frags = (List.range (n % 256)).map (tx.frag b payload (UInt8.ofNat n)) := by
  rcases fragments_eq hmem with ⟨-, hne⟩ | ⟨n, k, hn, -, hfrags, -, hend⟩
  · exact absurd (congrArg Prod.snd h) hne
  · obtain rfl := hend (congrArg Prod.snd h)
    refine ⟨n, hn, ?_⟩
    rw [← hfrags, h]

/-! ### The number of fragments -/

theorem fragCount_eq {len n : ℕ} (hlen : len ≤ b.isizeMax) (h : tx.fragCount b len = .ok n) :
    if tx.firstSize b < len then
      0 < tx.restSize b ∧ n = (len - tx.firstSize b) / tx.restSize b + 2
    else n = 1 := by
  have hmax := isizeMax_lt b
  obtain ⟨first, hfirst, h⟩ := Outcome.bind_eq_ok.1 h
  obtain ⟨rest, hrest, h⟩ := Outcome.bind_eq_ok.1 h
  obtain rfl : first = tx.firstSize b := Build.eq_of_subUsize b hfirst
  obtain rfl : rest = tx.restSize b := Build.eq_of_subUsize b hrest
  split_ifs at h ⊢ with hlt
  · rw [b.subUsize_of_le (Nat.le_of_lt hlt), Outcome.ok_bind] at h
    obtain ⟨full, hfull, h⟩ := Outcome.bind_eq_ok.1 h
    obtain ⟨hpos, rfl⟩ := Build.eq_of_divUsize hfull
    have hle := Nat.div_le_self (len - tx.firstSize b) (tx.restSize b)
    rw [b.addUsize_of_lt (by omega), Outcome.ok_bind, b.addUsize_of_lt (by omega)] at h
    have := Outcome.ok.inj h
    exact ⟨hpos, by omega⟩
  · exact (Outcome.ok.inj h).symm

/-- The last of all fragments ends at the end of the payload. -/
theorem cut_fragCount {len n : ℕ} (hlen : len ≤ b.isizeMax) (h : tx.fragCount b len = .ok n) :
    0 < n ∧ tx.cut b len n = len := by
  have hn := fragCount_eq hlen h
  split_ifs at hn with hlt
  · obtain ⟨hpos, rfl⟩ := hn
    have hdiv := Nat.lt_mul_div_succ (len - tx.firstSize b) hpos
    rw [Nat.mul_comm] at hdiv
    generalize (len - tx.firstSize b) / tx.restSize b = full at hdiv ⊢
    simp only [cut]
    omega
  · subst hn
    simp only [cut]
    omega

/-- No earlier fragment but the last two reaches it. -/
theorem cut_lt_of_lt_fragCount {len n k : ℕ} (hlen : len ≤ b.isizeMax)
    (h : tx.fragCount b len = .ok n) (hk : k + 1 < n) : tx.cut b len k < len := by
  have hn := fragCount_eq hlen h
  split_ifs at hn with hlt
  · obtain ⟨hpos, rfl⟩ := hn
    have hdiv := Nat.div_mul_le_self (len - tx.firstSize b) (tx.restSize b)
    cases k with
    | zero => simp only [cut]; omega
    | succ k =>
      have hmul : (k + 1) * tx.restSize b ≤ (len - tx.firstSize b) / tx.restSize b * tx.restSize b :=
        Nat.mul_le_mul_right _ (by omega)
      rw [Nat.succ_mul] at hmul
      simp only [cut]
      omega
  · omega

/-! ### The message that the fragments make up -/

theorem headerLen_eq (addr : Address) : headerLen addr = 10 + addr.len := by
  simp only [headerLen, Header.len, Packet.len]
  omega

theorem headerLen_none : headerLen .none = 11 := rfl

theorem headerLen_none_lt {addr : Address} (h : addr ≠ .none) : headerLen .none < headerLen addr := by
  rw [headerLen_none, headerLen_eq]
  rcases addr with _ | ⟨d, p⟩ | ⟨⟨ip, p⟩ | ⟨ip, p, fl, sc⟩⟩
  · exact absurd rfl h
  · simp only [Address.len]
    omega
  · simp [Address.len]
  · simp [Address.len]

theorem piece_length_le (b : Build) (tx : PacketTx) (payload : List UInt8) (i : ℕ) :
    (tx.piece b payload i).length ≤ payload.length ∧
      (tx.piece b payload i).length ≤ if i = 0 then tx.firstSize b else tx.restSize b := by
  have hle : tx.cut b payload.length (i + 1) ≤ payload.length := cut_le _ _
  rw [piece_length]
  refine ⟨by omega, ?_⟩
  by_cases hcut : tx.cut b payload.length i < payload.length
  · rw [cut_succ_of_lt hcut]
    omega
  · omega

/-- Pieces are smaller than what is above the room of every fragment. -/
theorem piece_length_lt {k : ℕ} (hfirst : tx.firstSize b < k) (hrest : tx.restSize b < k) (i : ℕ) :
    (tx.piece b payload i).length < k := by
  have hle := (piece_length_le b tx payload i).2
  split_ifs at hle
  · exact Nat.lt_of_le_of_lt hle hfirst
  · exact Nat.lt_of_le_of_lt hle hrest

/-- The message of the first `k` pieces. -/
def message (b : Build) (tx : PacketTx) (payload : List UInt8) (k : ℕ) (haddr : tx.addr ≠ .none)
    (hpos : 0 < k) (hle : k ≤ 255)
    (hsmall : ∀ i, (tx.piece b payload i).length < 2 ^ 16) : Message where
  assocId := tx.assocId
  pktId := tx.pktId
  addr := tx.addr
  pieces := (List.range k).map (tx.piece b payload)
  addressed := haddr
  pieces_pos := by simpa using hpos
  pieces_le := by simpa using hle
  small := by
    intro x hx
    obtain ⟨i, -, rfl⟩ := List.mem_map.1 hx
    exact hsmall i

section

variable {k n : ℕ} (haddr : tx.addr ≠ .none) (hpos : 0 < k) (hle : k ≤ 255)
  (hsmall : ∀ i, (tx.piece b payload i).length < 2 ^ 16)

@[simp] theorem message_length :
    (tx.message b payload k haddr hpos hle hsmall).pieces.length = k := by
  simp [message]

theorem message_piece {i : ℕ} (hi : i < k) :
    (tx.message b payload k haddr hpos hle hsmall).pieces[i]? = some (tx.piece b payload i) := by
  simp [message, hi]

theorem message_flatten : (tx.message b payload k haddr hpos hle hsmall).pieces.flatten =
    payload.take (tx.cut b payload.length k) := by
  rw [← flatMap_piece b tx payload k]
  rfl

/-- The yielded fragments are the pieces of the message under its headers. -/
theorem frag_eq (hn : n % 256 = k) (i : ℕ) :
    tx.frag b payload (UInt8.ofNat n) i =
      ((tx.message b payload k haddr hpos hle hsmall).header i (tx.piece b payload i),
        tx.piece b payload i) := by
  have htotal : UInt8.ofNat n = (tx.message b payload k haddr hpos hle hsmall).total := by
    rw [← UInt8.toNat_inj, Message.total_toNat, message_length, UInt8.toNat_ofNat', ← hn]
  simp only [frag, Message.header, htotal]
  rfl

end

end PacketTx

end Tuic.Model
