import Tuic.Proofs.Native

/-! How the fragments lie in the payload and in their datagrams, and what the
iterator says of its own length on the way. -/

namespace Tuic.Model

open Lib

/-- The fragments are consecutive parts of the payload under matching headers, and
every datagram but the last is as long as a datagram may be. -/
structure TightPartition (tx : PacketTx) (payload : List UInt8) (frags : List Fragment) : Prop where
  slices : ∃ cut : ℕ → ℕ, cut 0 = 0 ∧ cut frags.length = payload.length ∧
    ∀ (i : ℕ) frag, frags[i]? = some frag →
      cut i < cut (i + 1) ∧ frag.2 = payload.extract (cut i) (cut (i + 1))
  covers : frags.flatMap Prod.snd = payload
  headers : ∀ (i : ℕ) frag, frags[i]? = some frag →
    frag.1.fragId.toNat = i ∧ frag.1.assocId = tx.assocId ∧ frag.1.pktId = tx.pktId ∧
      frag.1.fragTotal.toNat = frags.length ∧ frag.1.size.toNat = frag.2.length ∧
      frag.1.addr = if i = 0 then tx.addr else .none
  fits : ∀ frag ∈ frags, (Quinn.datagram frag).length ≤ tx.maxPktSize
  full : ∀ (i : ℕ) frag, i + 1 < frags.length → frags[i]? = some frag →
    (Quinn.datagram frag).length = tx.maxPktSize

namespace PacketTx

variable {b : Build} {tx : PacketTx} {payload : List UInt8}

/-- A completed loop has yielded every fragment, and each of them begins before the
end of the payload. -/
theorem fragments_all (hmem : InMemory b tx payload) {frags : List Fragment} {n : ℕ}
    (hn : tx.fragCount b payload.length = .ok n) (hle : n ≤ 255)
    (h : tx.fragments b payload = (frags, .ok ())) :
    frags = (List.range n).map (tx.frag b payload (UInt8.ofNat n)) ∧
      ∀ j < n, tx.cut b payload.length j < payload.length := by
  have hmod : n % 256 = n := Nat.mod_eq_of_lt (by omega)
  rcases fragments_eq hmem with ⟨-, hne⟩ | ⟨n', k, hn', -, hfrags, hcuts, hend⟩
  · exact absurd (congrArg Prod.snd h) hne
  · obtain rfl : n = n' := Outcome.ok.inj (hn.symm.trans hn')
    obtain rfl : k = n := (hend (congrArg Prod.snd h)).trans hmod
    rw [h] at hfrags
    exact ⟨hfrags, hcuts⟩

section

variable (haddr : tx.addr ≠ .none) (hhdr : headerLen tx.addr < tx.maxPktSize)

include haddr hhdr

/-- Every fragment that begins before the end of the payload carries a part of it. -/
theorem cut_lt_cut_succ {i : ℕ} (hcut : tx.cut b payload.length i < payload.length) :
    tx.cut b payload.length i < tx.cut b payload.length (i + 1) := by
  obtain ⟨hfirst, -, hpos⟩ := rooms (b := b) haddr hhdr
  rw [cut_succ_of_lt hcut]
  split_ifs <;> omega

/-- The header and the room behind it make up the size of a datagram. -/
theorem headerLen_add_room (i : ℕ) :
    headerLen (if i = 0 then tx.addr else .none) + tx.room b i = tx.maxPktSize := by
  obtain ⟨hfirst, hrest, -⟩ := rooms (b := b) haddr hhdr
  have hlt := headerLen_none_lt haddr
  unfold room
  split_ifs <;> omega

theorem datagram_frag (total : UInt8) {i : ℕ} (hcut : tx.cut b payload.length i < payload.length) :
    (Quinn.datagram (tx.frag b payload total i)).length ≤ tx.maxPktSize ∧
      (tx.cut b payload.length (i + 1) < payload.length →
        (Quinn.datagram (tx.frag b payload total i)).length = tx.maxPktSize) := by
  have hroom := headerLen_add_room (b := b) haddr hhdr i
  have hsucc := cut_succ_of_lt hcut
  rw [← room] at hsucc
  have hlen : (Quinn.datagram (tx.frag b payload total i)).length =
      headerLen (if i = 0 then tx.addr else .none) +
        (tx.cut b payload.length (i + 1) - tx.cut b payload.length i) := by
    rw [Quinn.datagram_length, ← piece_length]
    rfl
  omega

/-- None of the casts in the header of a fragment loses anything. -/
theorem frag_header (b : Build) (payload : List UInt8) (hmax : tx.maxPktSize ≤ 65535) {n i : ℕ}
    (hn : n ≤ 255) (hi : i < n) :
    (tx.frag b payload (UInt8.ofNat n) i).1.fragId.toNat = i ∧
      (tx.frag b payload (UInt8.ofNat n) i).1.fragTotal.toNat = n ∧
      (tx.frag b payload (UInt8.ofNat n) i).1.size.toNat = (tx.piece b payload i).length := by
  obtain ⟨hfirst, hrest, -⟩ := rooms (b := b) haddr hhdr
  have hsmall : (tx.piece b payload i).length < 2 ^ 16 := piece_length_lt (by omega) (by omega) i
  simp only [frag, UInt8.toNat_ofNat', UInt16.toNat_ofNat']
  exact ⟨Nat.mod_eq_of_lt (by omega), Nat.mod_eq_of_lt (by omega), Nat.mod_eq_of_lt hsmall⟩

end

end PacketTx

/-- The fragments of a completed loop are a tight partition, for every payload and
every address but `None`, if the header with the address leaves room for a byte
and one byte counts the fragments. -/
theorem tightPartition (b : Build) (tx : PacketTx) (payload : List UInt8) (frags : List Fragment) (n : ℕ)
    (hpay : payload.length ≤ b.isizeMax) (haddr : tx.addr ≠ .none) (hmax : tx.maxPktSize ≤ 65535)
    (hhdr : (Header.packet ⟨0, 0, 0, 0, 0, tx.addr⟩).write.length < tx.maxPktSize)
    (hn : tx.fragCount b payload.length = .ok n) (hle : n ≤ 255)
    (hdone : tx.fragments b payload = (frags, .ok ())) : TightPartition tx payload frags := by
  rw [Header.write_length] at hhdr
  have hbits : (2 : ℕ) ^ 32 ≤ 2 ^ b.usizeBits := Nat.pow_le_pow_right (by decide) b.bits_ge
  have hmem : PacketTx.InMemory b tx payload := ⟨hpay, by omega⟩
  obtain ⟨hfrags, hcuts⟩ := PacketTx.fragments_all hmem hn hle hdone
  obtain ⟨-, hlast⟩ := PacketTx.cut_fragCount hpay hn
  have hlen : frags.length = n := by simp [hfrags]
  have hget : ∀ (i : ℕ) frag, frags[i]? = some frag →
      i < n ∧ frag = tx.frag b payload (UInt8.ofNat n) i := by
    intro i frag hi
    have hlt : i < n := hlen ▸ (List.getElem?_eq_some_iff.1 hi).1
    exact ⟨hlt, by simpa [hfrags, hlt] using hi.symm⟩
  refine ⟨⟨tx.cut b payload.length, rfl, hlen ▸ hlast, ?_⟩, ?_, ?_, ?_, ?_⟩
  · intro i frag hi
    obtain ⟨hlt, rfl⟩ := hget i frag hi
    exact ⟨PacketTx.cut_lt_cut_succ haddr hhdr (hcuts i hlt), rfl⟩
  · rw [hfrags, List.flatMap_map]
    change (List.range n).flatMap (tx.piece b payload) = payload
    rw [PacketTx.flatMap_piece, hlast, List.take_length]
  · intro i frag hi
    obtain ⟨hlt, rfl⟩ := hget i frag hi
    obtain ⟨hid, htotal, hsize⟩ := PacketTx.frag_header haddr hhdr b payload hmax hle hlt
    exact ⟨hid, rfl, rfl, htotal.trans hlen.symm, hsize, rfl⟩
  · intro frag hfrag
    obtain ⟨i, hi⟩ := List.mem_iff_getElem?.1 hfrag
    obtain ⟨hlt, rfl⟩ := hget i frag hi
    exact (PacketTx.datagram_frag haddr hhdr _ (hcuts i hlt)).1
  · intro i frag hsucc hi
    obtain ⟨hlt, rfl⟩ := hget i frag hi
    exact (PacketTx.datagram_frag haddr hhdr _ (hcuts i hlt)).2 (hcuts (i + 1) (hlen ▸ hsucc))

/-- Four bytes of which the first fragment carries three. -/
theorem tightPartition_four_bytes :
    TightPartition ⟨1, 0, .socketAddress (.v4 ⟨127, 0, 0, 1⟩ 53), 20⟩ [1, 2, 3, 4]
      (PacketTx.fragments .release64 ⟨1, 0, .socketAddress (.v4 ⟨127, 0, 0, 1⟩ 53), 20⟩ [1, 2, 3, 4]).1 :=
  tightPartition .release64 ⟨1, 0, .socketAddress (.v4 ⟨127, 0, 0, 1⟩ 53), 20⟩ [1, 2, 3, 4] _ 2
    (by decide) (by decide) (by decide) (by decide) rfl (by decide) rfl

/-! ### The length on the way -/

namespace PacketTx

variable {b : Build} {tx : PacketTx} {payload : List UInt8}

/-- As long as the iterator yields, it stands before the next fragment. -/
theorem after_eq_some (hmem : InMemory b tx payload) {total : UInt8} {frags : Fragments} :
    ∀ k i, i ≤ total.toNat → (tx.fragmentsAt b payload total i).after b k = some frags →
      i + k ≤ total.toNat ∧ frags = tx.fragmentsAt b payload total (i + k) := by
  intro k
  induction k with
  | zero => exact fun i hi h => ⟨hi, (Option.some.inj h).symm⟩
  | succ k ih =>
    intro i hi h
    simp only [Fragments.after] at h
    split at h
    · rename_i hnext
      obtain ⟨hlt, -, -, rfl⟩ := next_eq_some hmem hi hnext
      have := ih (i + 1) hlt h
      rwa [Nat.add_assoc, Nat.add_comm 1] at this
    · cases h

/-- It stops behind the last. -/
theorem eq_of_remaining (hmem : InMemory b tx payload) {total : UInt8} {i k : ℕ} (hi : i ≤ total.toNat)
    (h : (tx.fragmentsAt b payload total i).Remaining b k) : i + k = total.toNat := by
  obtain ⟨frags, hafter, hnone⟩ := h
  obtain ⟨hle, rfl⟩ := after_eq_some hmem k i hi hafter
  exact next_eq_none hle hnone

end PacketTx

/-- `len` is the number of fragments still to come exactly until the first of them
has been taken. -/
theorem len_exact_iff (b : Build) (tx : PacketTx) (payload : List UInt8) (start frags : Fragments)
    (n k : ℕ) (hmem : PacketTx.InMemory b tx payload) (hstart : tx.intoFragments b payload = .ok start)
    (hend : start.Remaining b n) (hk : start.after b k = some frags) :
    frags.Remaining b frags.len ↔ k = 0 := by
  obtain ⟨count, -, rfl⟩ := PacketTx.intoFragments_eq_ok hstart
  obtain ⟨hle, rfl⟩ := PacketTx.after_eq_some hmem k 0 (Nat.zero_le _) hk
  have htotal := PacketTx.eq_of_remaining hmem (Nat.zero_le _) hend
  constructor
  · intro h
    have hlen := PacketTx.eq_of_remaining hmem hle h
    change 0 + k + (UInt8.ofNat count).toNat = _ at hlen
    omega
  · rintro rfl
    rw [Nat.zero_add] at htotal
    change Fragments.Remaining b _ (UInt8.ofNat count).toNat
    rwa [← htotal]

/-- The iterator over two fragments of four bytes. -/
def fourBytes : Fragments :=
  PacketTx.fragmentsAt .release64 ⟨1, 0, .socketAddress (.v4 ⟨127, 0, 0, 1⟩ 53), 20⟩ [1, 2, 3, 4] 2 0

theorem fourBytes_len : fourBytes.Remaining .release64 fourBytes.len :=
  (len_exact_iff .release64 ⟨1, 0, .socketAddress (.v4 ⟨127, 0, 0, 1⟩ 53), 20⟩ [1, 2, 3, 4] fourBytes fourBytes
    2 0 ⟨by decide, by decide⟩ rfl ⟨_, rfl, rfl⟩ rfl).2 rfl

/-- After the first of them one is left, and `len` is still two. -/
theorem fourBytes_len_stale :
    PacketTx.intoFragments .release64 ⟨1, 0, .socketAddress (.v4 ⟨127, 0, 0, 1⟩ 53), 20⟩ [1, 2, 3, 4] =
      .ok fourBytes ∧ fourBytes.Remaining .release64 2 ∧
    ∃ frags, fourBytes.after .release64 1 = some frags ∧ frags.Remaining .release64 1 ∧
      frags.len = 2 ∧ ¬ frags.Remaining .release64 frags.len := by
  refine ⟨rfl, ⟨_, rfl, rfl⟩, _, rfl, ⟨_, rfl, rfl⟩, rfl, ?_⟩
  rintro ⟨frags, hafter, -⟩
  cases hafter

end Tuic.Model
