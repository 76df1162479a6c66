import Tuic.Sanity.Fragments

/-! How the loop over the fragments of a packet ends, when the header with the
address fits: it reaches its end, or it indexes the payload behind its last byte. -/

namespace Tuic.Model

open Lib

theorem headerLen_none_le (addr : Address) : headerLen .none ≤ headerLen addr := by
  by_cases h : addr = .none
  · exact Nat.le_of_eq (congrArg headerLen h.symm)
  · exact Nat.le_of_lt (PacketTx.headerLen_none_lt h)

namespace PacketTx

variable {b : Build} {tx : PacketTx} {payload : List UInt8}

/-- The room for the payload of fragment `i`. -/
def room (b : Build) (tx : PacketTx) (i : ℕ) : ℕ := if i = 0 then tx.firstSize b else tx.restSize b

/-- The iterator is at fragment `i`, and the end of that fragment is a `usize`. -/
def EndFits (b : Build) (tx : PacketTx) (len i : ℕ) : Prop :=
  tx.cut b len i + tx.room b i < 2 ^ b.usizeBits

section

variable (hfit : headerLen tx.addr ≤ tx.maxPktSize)

include hfit

theorem firstSize_of_fit : tx.firstSize b = tx.maxPktSize - headerLen tx.addr :=
  b.wrappingSub_of_le hfit

theorem restSize_of_fit : tx.restSize b = tx.maxPktSize - headerLen .none :=
  b.wrappingSub_of_le (Nat.le_trans (headerLen_none_le tx.addr) hfit)

theorem fragCount_of_fit {len : ℕ} (hlen : len ≤ b.isizeMax)
    (hpos : tx.firstSize b < len → 0 < tx.restSize b) :
    tx.fragCount b len =
      .ok (if tx.firstSize b < len then (len - tx.firstSize b) / tx.restSize b + 2 else 1) := by
  have hmax := isizeMax_lt b
  have hfirst := firstSize_of_fit (b := b) hfit
  have hrest := restSize_of_fit (b := b) hfit
  unfold fragCount
  rw [b.subUsize_of_le hfit, Outcome.ok_bind,
    b.subUsize_of_le (Nat.le_trans (headerLen_none_le tx.addr) hfit), Outcome.ok_bind, ← hfirst, ← hrest]
  split_ifs with hlt
  · have hdiv : (Build.divUsize (len - tx.firstSize b) (tx.restSize b) : Outcome Empty ℕ) =
        .ok ((len - tx.firstSize b) / tx.restSize b) := if_neg (Nat.ne_of_gt (hpos hlt))
    have hle := Nat.div_le_self (len - tx.firstSize b) (tx.restSize b)
    rw [b.subUsize_of_le (Nat.le_of_lt hlt), Outcome.ok_bind, hdiv, Outcome.ok_bind,
      b.addUsize_of_lt (by omega), Outcome.ok_bind, b.addUsize_of_lt (by omega)]
    congr 1
    omega
  · rfl

/-- One step of the loop. -/
theorem next_of_fit {total : UInt8} {i : ℕ} (hi : i < total.toNat)
    (hend : tx.EndFits b payload.length i) :
    (tx.fragmentsAt b payload total i).next b =
      if tx.cut b payload.length i < payload.length then
        .ok (some (tx.frag b payload total i, tx.fragmentsAt b payload total (i + 1)))
      else .panic .outOfBounds := by
  have ht := total.toNat_lt
  have hid : (UInt8.ofNat i).toNat = i := by rw [UInt8.toNat_ofNat']; omega
  have hlt : (tx.fragmentsAt b payload total i).nextFragId < (tx.fragmentsAt b payload total i).fragTotal :=
    (nextFragId_lt_iff (Nat.le_of_lt hi)).2 hi
  have hsub : headerLen (if i = 0 then tx.addr else .none) ≤ tx.maxPktSize := by
    split_ifs
    · exact hfit
    · exact Nat.le_trans (headerLen_none_le tx.addr) hfit
  have hroom : tx.maxPktSize - headerLen (if i = 0 then tx.addr else .none) = tx.room b i := by
    rw [← b.wrappingSub_of_le hsub, room_eq, room]
  have hle : tx.cut b payload.length i ≤
      min (tx.cut b payload.length i + tx.room b i) payload.length :=
    Nat.le_min.2 ⟨Nat.le_add_right _ _, cut_le _ _⟩
  unfold Fragments.next
  rw [if_pos hlt]
  by_cases hstart : (tx.fragmentsAt b payload total i).nextFragStart <
      (tx.fragmentsAt b payload total i).payload.length
  · have hcut := cut_succ_of_lt hstart
    rw [← room] at hcut
    have hraw : fromRawParts payload (tx.cut b payload.length i)
        (min (tx.cut b payload.length i + tx.room b i) payload.length - tx.cut b payload.length i) =
        .ok (tx.piece b payload i) := by
      rw [← hcut] at hle ⊢
      have hbound : tx.cut b payload.length (i + 1) ≤ payload.length := cut_le _ _
      rw [fromRawParts, if_pos (by omega), piece, List.extract_eq_take_drop]
    have hone : (UInt8.ofNat i).toNat + (1 : UInt8).toNat < 256 := by
      change (UInt8.ofNat i).toNat + 1 < 256
      omega
    simp only [if_pos hstart]
    rw [if_pos (show tx.cut b payload.length i < payload.length from hstart)]
    simp only [fragmentsAt, b.subUsize_of_le hsub, Outcome.ok_bind, hroom, b.addUsize_of_lt hend,
      b.subUsize_of_le hle, hraw, b.addU8_of_lt hone]
    rw [← hcut, ← piece_length]
    simp [frag]
  · simp only [if_neg hstart]
    rw [if_neg (show ¬ tx.cut b payload.length i < payload.length from hstart)]
    simp only [fragmentsAt, b.subUsize_of_le hsub, Outcome.ok_bind, hroom, b.addUsize_of_lt hend,
      b.subUsize_of_le hle]

/-- The loop reaches its end if every fragment starts before the end of the payload. -/
theorem take_of_fit {total : UInt8} : ∀ fuel i, i + fuel = total.toNat →
    (∀ j, i ≤ j → j < total.toNat → tx.EndFits b payload.length j) →
    (∀ j, i ≤ j → j < total.toNat → tx.cut b payload.length j < payload.length) →
    ((tx.fragmentsAt b payload total i).take b fuel).2 = .ok () := by
  intro fuel
  induction fuel with
  | zero => exact fun i _ _ _ => rfl
  | succ fuel ih =>
    intro i hi hend hcut
    have hnext := next_of_fit hfit (by omega : i < total.toNat) (hend i (Nat.le_refl i) (by omega))
    rw [if_pos (hcut i (Nat.le_refl i) (by omega))] at hnext
    simp only [Fragments.take, hnext]
    exact ih (i + 1) (by omega) (fun j hj => hend j (by omega)) fun j hj => hcut j (by omega)

/-- It ends in an index out of bounds if one does not. -/
theorem take_outOfBounds {total : UInt8} : ∀ fuel i, i + fuel = total.toNat →
    (∀ j, i ≤ j → j < total.toNat → tx.EndFits b payload.length j) →
    (∃ j, i ≤ j ∧ j < total.toNat ∧ tx.cut b payload.length j = payload.length) →
    ((tx.fragmentsAt b payload total i).take b fuel).2 = .panic .outOfBounds := by
  intro fuel
  induction fuel with
  | zero =>
    rintro i hi - ⟨j, hij, hj, -⟩
    omega
  | succ fuel ih =>
    rintro i hi hend ⟨j, hij, hj, hcut⟩
    have hnext := next_of_fit hfit (by omega : i < total.toNat) (hend i (Nat.le_refl i) (by omega))
    by_cases hstart : tx.cut b payload.length i < payload.length
    · rw [if_pos hstart] at hnext
      simp only [Fragments.take, hnext]
      refine ih (i + 1) (by omega) (fun j hj => hend j (by omega)) ⟨j, ?_, hj, hcut⟩
      refine Nat.lt_of_le_of_ne hij ?_
      rintro rfl
      omega
    · rw [if_neg hstart] at hnext
      simp only [Fragments.take, hnext]

/-- The second fragment cannot be cut off if its end wraps around: an overflow
check stops there, and without one the fragment ends before its start. -/
theorem next_of_wrap {total : UInt8} (ht : 1 < total.toNat)
    (hlen : payload.length ≤ b.isizeMax) (hmax : tx.maxPktSize < 2 ^ b.usizeBits)
    (hstart : tx.firstSize b < payload.length)
    (hwrap : 2 ^ b.usizeBits ≤ tx.firstSize b + tx.restSize b) :
    (tx.fragmentsAt b payload total 1).next b =
      .panic (if b.overflowChecks then .overflow else .undefined) := by
  have hsize := isizeMax_lt b
  have hcut : (tx.fragmentsAt b payload total 1).nextFragStart = tx.firstSize b := by
    simp only [fragmentsAt, cut]
    omega
  have hsub : headerLen .none ≤ tx.maxPktSize := Nat.le_trans (headerLen_none_le tx.addr) hfit
  have hrest := restSize_of_fit (b := b) hfit
  have hrestlt : tx.restSize b < 2 ^ b.usizeBits := b.wrappingSub_lt hmax _
  have hnot : ¬ tx.firstSize b + tx.restSize b < 2 ^ b.usizeBits := Nat.not_lt.2 hwrap
  unfold Fragments.next
  rw [if_pos (show (tx.fragmentsAt b payload total 1).nextFragId <
    (tx.fragmentsAt b payload total 1).fragTotal from (nextFragId_lt_iff (Nat.le_of_lt ht)).2 ht), hcut]
  simp only [fragmentsAt, if_neg Nat.one_ne_zero, b.subUsize_of_le hsub, Outcome.ok_bind, ← hrest]
  rw [Build.addUsize, if_neg hnot]
  by_cases hc : b.overflowChecks
  · simp [hc]
  · -- the sum is the start less what the room lacks to the whole range
    have hmod : (tx.firstSize b + tx.restSize b) % 2 ^ b.usizeBits =
        tx.firstSize b + tx.restSize b - 2 ^ b.usizeBits := by
      rw [Nat.mod_eq_sub_mod hwrap, Nat.mod_eq_of_lt (by omega)]
    have hmin : min (tx.firstSize b + tx.restSize b - 2 ^ b.usizeBits) payload.length =
        tx.firstSize b + tx.restSize b - 2 ^ b.usizeBits := Nat.min_eq_left (by omega)
    have hpast : ¬ tx.firstSize b + b.wrappingSub (tx.firstSize b + tx.restSize b - 2 ^ b.usizeBits)
        (tx.firstSize b) ≤ payload.length := by
      rw [Build.wrappingSub, if_neg (by omega), Nat.mod_eq_of_lt (by omega)]
      omega
    rw [Bool.not_eq_true] at hc
    simp only [hc, Bool.false_eq_true, if_false, Outcome.ok_bind, hmod, hmin,
      b.subUsize_unchecked hc, if_pos hstart, fromRawParts, if_neg hpast, Outcome.panic_bind]

end

/-- Nothing else wraps around. -/
theorem endFits {n j : ℕ} (hlen : payload.length ≤ b.isizeMax) (hmax : tx.maxPktSize < 2 ^ b.usizeBits)
    (hnowrap : tx.firstSize b < payload.length → tx.firstSize b + tx.restSize b < 2 ^ b.usizeBits)
    (hn : tx.fragCount b payload.length = .ok n) (hj : j < n) : tx.EndFits b payload.length j := by
  have hsize := isizeMax_lt b
  have hcount := fragCount_eq hlen hn
  rcases j with _ | _ | j
  · simp only [EndFits, cut, room, if_true, Nat.zero_add]
    exact b.wrappingSub_lt hmax (headerLen tx.addr)
  · split_ifs at hcount with hlt
    · have := hnowrap hlt
      simp only [EndFits, cut, room, if_neg Nat.one_ne_zero]
      omega
    · omega
  · split_ifs at hcount with hlt
    · obtain ⟨hpos, rfl⟩ := hcount
      have hrest : tx.restSize b ≤ payload.length - tx.firstSize b := by
        by_contra hgt
        rw [Nat.div_eq_of_lt (Nat.not_le.1 hgt)] at hj
        omega
      have hle : tx.cut b payload.length (j + 1 + 1) ≤ payload.length := cut_le _ _
      simp only [EndFits, room, if_neg (Nat.succ_ne_zero _)]
      omega
    · omega

/-- The whole loop is the loop from the first fragment on. -/
theorem fragments_eq_take {n : ℕ} (hn : tx.fragCount b payload.length = .ok n) :
    tx.fragments b payload =
      (tx.fragmentsAt b payload (UInt8.ofNat n) 0).take b (UInt8.ofNat n).toNat := by
  have hf : tx.intoFragments b payload = .ok (tx.fragmentsAt b payload (UInt8.ofNat n) 0) := by
    rw [intoFragments, Fragments.new, hn]
    rfl
  simp only [fragments, hf]
  rfl

theorem rooms (haddr : tx.addr ≠ .none) (hhdr : headerLen tx.addr < tx.maxPktSize) :
    tx.firstSize b = tx.maxPktSize - headerLen tx.addr ∧
      tx.restSize b = tx.maxPktSize - headerLen .none ∧ 0 < tx.restSize b := by
  have hlt := headerLen_none_lt haddr
  have hrest := restSize_of_fit (b := b) (Nat.le_of_lt hhdr)
  exact ⟨firstSize_of_fit (Nat.le_of_lt hhdr), hrest, by omega⟩

end PacketTx

end Tuic.Model
