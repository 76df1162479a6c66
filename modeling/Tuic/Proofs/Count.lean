import Mathlib.Algebra.Order.Floor.Div
import Tuic.Sanity.Iteration

/-! When the announced number of fragments is the least that carries the payload,
and the loop over them stays inside it: unless the payload exactly fills them. -/

namespace Tuic.Model

open Lib

/-- The number of fragments that `len` bytes need, with room for `first` bytes in
the first and for `rest` in each later one. -/
def minFrags (first rest len : ℕ) : ℕ := if len ≤ first then 1 else 1 + (len - first) ⌈/⌉ rest

/-- No fewer fragments have room for that many bytes. -/
theorem minFrags_isLeast {first rest : ℕ} (hrest : 0 < rest) (len : ℕ) :
    IsLeast {k | 0 < k ∧ len ≤ first + (k - 1) * rest} (minFrags first rest len) := by
  unfold minFrags
  split_ifs with hle
  · exact ⟨⟨Nat.one_pos, by omega⟩, fun k hk => hk.1⟩
  · have hcover : len - first ≤ rest * ((len - first) ⌈/⌉ rest) := le_smul_ceilDiv hrest
    refine ⟨⟨by omega, ?_⟩, ?_⟩
    · rw [Nat.add_sub_cancel_left, Nat.mul_comm]
      omega
    · rintro k ⟨hpos, hk⟩
      have hceil : (len - first) ⌈/⌉ rest ≤ k - 1 := by
        rw [ceilDiv_le_iff_le_smul hrest, smul_eq_mul, Nat.mul_comm]
        omega
      omega

/-- What is left behind the first fragment needs one more fragment than fit in
it, unless that many exactly hold it. -/
theorem minFrags_of_lt {first rest len : ℕ} (hrest : 0 < rest) (hlt : first < len) :
    minFrags first rest len =
      (len - first) / rest + if rest ∣ len - first then 1 else 2 := by
  rw [minFrags, if_neg (Nat.not_le.2 hlt)]
  have hdiv := Nat.div_add_mod (len - first) rest
  have hmod := Nat.mod_lt (len - first) hrest
  have hceil : ∀ c, (len - first) ⌈/⌉ rest ≤ c ↔ len - first ≤ rest * c := fun c =>
    ceilDiv_le_iff_le_smul hrest
  generalize (len - first) / rest = q at hdiv ⊢
  split_ifs with hdvd
  · rw [Nat.mod_eq_zero_of_dvd hdvd] at hdiv
    have hle := (hceil q).2 (by omega)
    have hge := (hceil ((len - first) ⌈/⌉ rest)).1 (Nat.le_refl _)
    have := Nat.le_of_mul_le_mul_left
      (by omega : rest * q ≤ rest * ((len - first) ⌈/⌉ rest)) hrest
    omega
  · have hne : (len - first) % rest ≠ 0 := fun h => hdvd (Nat.dvd_of_mod_eq_zero h)
    have hle := (hceil (q + 1)).2 (by rw [Nat.mul_succ]; omega)
    have hgt : ¬ (len - first) ⌈/⌉ rest ≤ q := fun h => by have := (hceil q).1 h; omega
    omega

/-- The loop over the fragments never leaves the payload, and the count behind
`frag_total` is the least possible if the cast keeps it. -/
structure Counted (b : Build) (tx : PacketTx) (payload : List UInt8) : Prop where
  inBounds : (tx.fragments b payload).2 ≠ .panic .outOfBounds
  inObject : (tx.fragments b payload).2 ≠ .panic .undefined
  least : ∀ n, tx.fragCount b payload.length = .ok n → n ≤ 255 →
    n = minFrags (tx.maxPktSize - headerLen tx.addr) (tx.maxPktSize - headerLen .none) payload.length

/-- The payload fills the first fragment and then some full ones, and no more than
the `frag_total` of one byte can count. -/
def PacketTx.FillsExactly (tx : PacketTx) (len : ℕ) : Prop :=
  ∃ k, 0 < k ∧ k ≤ 253 ∧
    len = tx.maxPktSize - headerLen tx.addr + k * (tx.maxPktSize - headerLen .none)

/-- The end of the second fragment wraps around. -/
def PacketTx.SecondWraps (b : Build) (tx : PacketTx) (len : ℕ) : Prop :=
  b.overflowChecks = false ∧ tx.maxPktSize - headerLen tx.addr < len ∧
    2 ^ b.usizeBits ≤ tx.maxPktSize - headerLen tx.addr + (tx.maxPktSize - headerLen .none)

section

variable {b : Build} {tx : PacketTx} {payload : List UInt8}

theorem fillsExactly_iff (haddr : tx.addr ≠ .none) (hmax : headerLen tx.addr < tx.maxPktSize)
    (hlt : tx.firstSize b < payload.length) :
    tx.FillsExactly payload.length ↔ tx.restSize b ∣ payload.length - tx.firstSize b ∧
      (payload.length - tx.firstSize b) / tx.restSize b + 2 ≤ 255 := by
  obtain ⟨hfirst, hrest, hpos⟩ := PacketTx.rooms (b := b) haddr hmax
  rw [PacketTx.FillsExactly, ← hfirst, ← hrest]
  constructor
  · rintro ⟨k, -, hk, hlen⟩
    rw [hlen, Nat.add_sub_cancel_left, Nat.mul_div_cancel _ hpos]
    exact ⟨Nat.dvd_mul_left _ _, by omega⟩
  · rintro ⟨⟨k, hk⟩, hle⟩
    rw [hk, Nat.mul_div_cancel_left _ hpos] at hle
    rw [Nat.mul_comm] at hk
    refine ⟨k, Nat.pos_of_ne_zero ?_, by omega, by omega⟩
    rintro rfl
    omega

/-- The loop ends well if the payload leaves a part of its last fragment free. -/
theorem fragments_of_part (haddr : tx.addr ≠ .none) (hmax : headerLen tx.addr < tx.maxPktSize)
    (hmem : PacketTx.InMemory b tx payload) (hlt : tx.firstSize b < payload.length)
    (hwrap : tx.firstSize b + tx.restSize b < 2 ^ b.usizeBits)
    (hfill : ¬ tx.FillsExactly payload.length) : (tx.fragments b payload).2 = .ok () := by
  have hfit := Nat.le_of_lt hmax
  obtain ⟨-, -, hpos⟩ := PacketTx.rooms (b := b) haddr hmax
  have hn := PacketTx.fragCount_of_fit hfit hmem.payload fun _ => hpos
  rw [if_pos hlt] at hn
  rw [fillsExactly_iff haddr hmax hlt, not_and] at hfill
  rw [PacketTx.fragments_eq_take hn]
  have hdiv := Nat.div_add_mod (payload.length - tx.firstSize b) (tx.restSize b)
  rw [Nat.dvd_iff_mod_eq_zero] at hfill
  generalize (payload.length - tx.firstSize b) / tx.restSize b = full at hn hfill hdiv ⊢
  have htotal : (UInt8.ofNat (full + 2)).toNat = (full + 2) % 256 := UInt8.toNat_ofNat'
  rw [htotal]
  apply PacketTx.take_of_fit hfit _ 0 ((Nat.zero_add _).trans htotal.symm)
  · intro j _ hj
    exact PacketTx.endFits hmem.payload hmem.maxPktSize (fun _ => hwrap) hn (by omega)
  · intro j _ hj
    by_cases hlast : j + 1 < full + 2
    · exact PacketTx.cut_lt_of_lt_fragCount hmem.payload hn hlast
    · -- the last fragment of all, which the cast keeps
      obtain rfl : j = full + 1 := by omega
      have hpart := mt hfill (by omega)
      rw [Nat.mul_comm] at hdiv
      simp only [PacketTx.cut]
      omega

theorem fragments_of_le (hpay : payload ≠ []) (hfit : headerLen tx.addr ≤ tx.maxPktSize)
    (hmem : PacketTx.InMemory b tx payload) (hle : payload.length ≤ tx.firstSize b) :
    tx.fragCount b payload.length = .ok 1 ∧ (tx.fragments b payload).2 = .ok () := by
  have hn := PacketTx.fragCount_of_fit hfit hmem.payload fun h => absurd h (Nat.not_lt.2 hle)
  rw [if_neg (Nat.not_lt.2 hle)] at hn
  refine ⟨hn, ?_⟩
  rw [PacketTx.fragments_eq_take hn]
  apply PacketTx.take_of_fit hfit _ 0 (Nat.zero_add _)
  · intro j _ hj
    exact PacketTx.endFits hmem.payload hmem.maxPktSize (fun h => absurd h (Nat.not_lt.2 hle)) hn hj
  · intro j _ hj
    obtain rfl : j = 0 := Nat.lt_one_iff.1 hj
    exact List.length_pos_iff.2 hpay

theorem fragments_of_secondWraps (hpay : payload ≠ []) (hfit : headerLen tx.addr ≤ tx.maxPktSize)
    (hmem : PacketTx.InMemory b tx payload) (hlt : tx.firstSize b < payload.length)
    (hwrap : 2 ^ b.usizeBits ≤ tx.firstSize b + tx.restSize b) :
    tx.fragCount b payload.length = .ok 2 ∧
      (tx.fragments b payload).2 = .panic (if b.overflowChecks then .overflow else .undefined) := by
  have hsize := PacketTx.isizeMax_lt b
  have hlen := hmem.payload
  have hn := PacketTx.fragCount_of_fit hfit hlen fun _ => by omega
  rw [if_pos hlt, Nat.div_eq_of_lt (by omega)] at hn
  refine ⟨hn, ?_⟩
  rw [PacketTx.fragments_eq_take hn]
  have hend : tx.EndFits b payload.length 0 := by
    simp only [PacketTx.EndFits, PacketTx.cut, PacketTx.room, if_true, Nat.zero_add]
    exact b.wrappingSub_lt hmem.maxPktSize (headerLen tx.addr)
  have hfirst : (tx.fragmentsAt b payload (UInt8.ofNat 2) 0).next b = _ :=
    PacketTx.next_of_fit hfit (by decide) hend
  rw [if_pos (show tx.cut b payload.length 0 < payload.length from List.length_pos_iff.2 hpay)] at hfirst
  have hsecond : (tx.fragmentsAt b payload (UInt8.ofNat 2) 1).next b = _ :=
    PacketTx.next_of_wrap hfit (by decide) hlen hmem.maxPktSize hlt hwrap
  change ((tx.fragmentsAt b payload (UInt8.ofNat 2) 0).take b 2).2 = _
  simp only [Fragments.take, hfirst, hsecond]

theorem Counted.of_end {n : ℕ} (hn : tx.fragCount b payload.length = .ok n)
    (hend : ∀ p, (tx.fragments b payload).2 = .panic p → p = .overflow)
    (hmin : n ≤ 255 → n = minFrags (tx.maxPktSize - headerLen tx.addr)
      (tx.maxPktSize - headerLen .none) payload.length) : Counted b tx payload where
  inBounds h := by cases hend _ h
  inObject h := by cases hend _ h
  least m hm hle := by
    rw [hn] at hm
    obtain rfl := Outcome.ok.inj hm
    exact hmin hle

/-- A payload that fits in one fragment is announced as one. -/
theorem counted_of_le (hpay : payload ≠ []) (haddr : tx.addr ≠ .none)
    (hmax : headerLen tx.addr < tx.maxPktSize) (hmem : PacketTx.InMemory b tx payload)
    (hle : payload.length ≤ tx.firstSize b) :
    Counted b tx payload ∧ ¬ tx.FillsExactly payload.length ∧ ¬ tx.SecondWraps b payload.length := by
  obtain ⟨hfirst, hrest, hpos⟩ := PacketTx.rooms (b := b) haddr hmax
  obtain ⟨hn, hend⟩ := fragments_of_le hpay (Nat.le_of_lt hmax) hmem hle
  refine ⟨.of_end hn (by simp [hend]) fun _ => ?_, ?_, ?_⟩
  · rw [minFrags, ← hfirst, if_pos hle]
  · rintro ⟨k, hk, -, hlen⟩
    rw [← hfirst, ← hrest] at hlen
    have := Nat.mul_pos hk hpos
    omega
  · rintro ⟨-, hlt, -⟩
    rw [← hfirst] at hlt
    omega

/-- A larger payload is announced right unless the fragments exactly hold it. -/
theorem counted_iff_of_lt (haddr : tx.addr ≠ .none) (hmax : headerLen tx.addr < tx.maxPktSize)
    (hmem : PacketTx.InMemory b tx payload) (hlt : tx.firstSize b < payload.length)
    (hwrap : tx.firstSize b + tx.restSize b < 2 ^ b.usizeBits) :
    Counted b tx payload ↔ ¬ tx.FillsExactly payload.length := by
  obtain ⟨hfirst, hrest, hpos⟩ := PacketTx.rooms (b := b) haddr hmax
  have hmin := minFrags_of_lt hpos hlt
  have hn := PacketTx.fragCount_of_fit (Nat.le_of_lt hmax) hmem.payload fun _ => hpos
  rw [if_pos hlt] at hn
  constructor
  · intro h hfill
    -- the count is one too high
    obtain ⟨hdvd, hle⟩ := (fillsExactly_iff haddr hmax hlt).1 hfill
    have hleast := h.least _ hn hle
    rw [← hfirst, ← hrest, hmin, if_pos hdvd] at hleast
    omega
  · intro hfill
    have hend := fragments_of_part haddr hmax hmem hlt hwrap hfill
    refine .of_end hn (by simp [hend]) fun hle => ?_
    rw [fillsExactly_iff haddr hmax hlt] at hfill
    rw [← hfirst, ← hrest, hmin, if_neg fun hdvd => hfill ⟨hdvd, hle⟩]

/-- Where the end of the second fragment wraps around, the loop panics in a build
that checks, and reads outside the payload in one that does not. -/
theorem counted_iff_of_secondWraps (hpay : payload ≠ []) (haddr : tx.addr ≠ .none)
    (hmax : headerLen tx.addr < tx.maxPktSize) (hmem : PacketTx.InMemory b tx payload)
    (hlt : tx.firstSize b < payload.length) (hwrap : 2 ^ b.usizeBits ≤ tx.firstSize b + tx.restSize b) :
    ¬ tx.FillsExactly payload.length ∧ (Counted b tx payload ↔ b.overflowChecks = true) := by
  have hsize := PacketTx.isizeMax_lt b
  have hlen := hmem.payload
  obtain ⟨hfirst, hrest, hpos⟩ := PacketTx.rooms (b := b) haddr hmax
  obtain ⟨hn, hend⟩ := fragments_of_secondWraps hpay (Nat.le_of_lt hmax) hmem hlt hwrap
  have hmin := minFrags_of_lt hpos hlt
  have hndvd : ¬ tx.restSize b ∣ payload.length - tx.firstSize b := fun h => by
    have := Nat.le_of_dvd (by omega) h
    omega
  rw [if_neg hndvd, Nat.div_eq_of_lt (by omega)] at hmin
  refine ⟨fun h => hndvd ((fillsExactly_iff haddr hmax hlt).1 h).1, fun h => ?_, fun hc => ?_⟩
  · by_contra hc
    rw [if_neg hc] at hend
    exact h.inObject hend
  · rw [if_pos hc] at hend
    refine .of_end hn (by simp [hend]) fun _ => ?_
    rw [← hfirst, ← hrest, hmin]

end

/-- For a non-empty payload and a size that the header with the address leaves
room in, the fragments are counted right if and only if the payload does not
exactly fill them, and the end of the second one does not wrap around. -/
theorem counted_iff (b : Build) (tx : PacketTx) (payload : List UInt8) (hpay : payload ≠ [])
    (haddr : tx.addr ≠ .none) (hmax : headerLen tx.addr < tx.maxPktSize)
    (hmem : PacketTx.InMemory b tx payload) :
    Counted b tx payload ↔
      ¬ tx.FillsExactly payload.length ∧ ¬ tx.SecondWraps b payload.length := by
  obtain ⟨hfirst, hrest, -⟩ := PacketTx.rooms (b := b) haddr hmax
  by_cases hlt : tx.firstSize b < payload.length
  · by_cases hwrap : 2 ^ b.usizeBits ≤ tx.firstSize b + tx.restSize b
    · obtain ⟨hfill, hiff⟩ := counted_iff_of_secondWraps hpay haddr hmax hmem hlt hwrap
      have hsec : tx.SecondWraps b payload.length ↔ b.overflowChecks = false := by
        simp only [PacketTx.SecondWraps, ← hfirst, ← hrest, hlt, hwrap, and_true]
      rw [hiff, hsec, Bool.not_eq_false, and_iff_right hfill]
    · have hsec : ¬ tx.SecondWraps b payload.length := by
        rw [PacketTx.SecondWraps, ← hfirst, ← hrest]
        exact fun h => hwrap h.2.2
      rw [counted_iff_of_lt haddr hmax hmem hlt (Nat.not_le.1 hwrap), and_iff_left hsec]
  · obtain ⟨hcounted, hno⟩ := counted_of_le hpay haddr hmax hmem (Nat.not_lt.1 hlt)
    exact ⟨fun _ => hno, fun _ => hcounted⟩

theorem counted_four_bytes :
    Counted .release64 ⟨1, 0, .socketAddress (.v4 ⟨127, 0, 0, 1⟩ 53), 20⟩ [1, 2, 3, 4] :=
  (counted_iff .release64 ⟨1, 0, .socketAddress (.v4 ⟨127, 0, 0, 1⟩ 53), 20⟩ [1, 2, 3, 4] (by decide)
    (by decide) (by decide) ⟨by decide, by decide⟩).2
    ⟨fun ⟨k, h⟩ => by
      simp only [show headerLen (.socketAddress (.v4 ⟨127, 0, 0, 1⟩ 53)) = 17 from rfl,
        show headerLen .none = 11 from rfl, List.length_cons, List.length_nil] at h
      omega,
    fun h => absurd h.2.2 (by decide)⟩

/-- Twelve bytes, of which the first fragment carries three and the second nine,
are announced as three fragments, and the third one starts behind the last byte. -/
theorem counted_not :
    let tx : PacketTx := ⟨1, 0, .socketAddress (.v4 ⟨127, 0, 0, 1⟩ 53), 20⟩
    let payload := List.replicate 12 0
    headerLen tx.addr < tx.maxPktSize ∧ tx.fragCount .release64 payload.length = .ok 3 ∧
      minFrags (tx.maxPktSize - headerLen tx.addr) (tx.maxPktSize - headerLen .none) payload.length = 2 ∧
      (tx.fragments .release64 payload).2 = .panic .outOfBounds ∧ ¬ Counted .release64 tx payload :=
  ⟨by decide, rfl, by simp [minFrags, headerLen, Header.len, Packet.len, Address.len,
    Nat.ceilDiv_eq_add_pred_div], rfl, fun h => h.inBounds rfl⟩

end Tuic.Model
