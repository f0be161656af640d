import Mathlib.Algebra.Group.Nat.Defs
import ChipReplay.Proofs.Bytes.Checked
/-!
# Words and their four bytes

A word is the sum of its bytes, each with its weight (`toNat_word32`). So it is written as the bytes
that it was read from (`le32_wordAt`), and writing it back where it was read changes nothing
(`overwrite_wordAt`).
-/

namespace ChipReplay

/-- What is put above `k` bits is added. -/
theorem Nat.or_shiftLeft {a k : Nat} (h : a < 2 ^ k) (b : Nat) :
    a ||| b <<< k = a + b * 2 ^ k := by
  rw [Nat.or_comm, ← Nat.shiftLeft_add_eq_or_of_lt h, Nat.shiftLeft_eq, Nat.add_comm]

namespace Bytes

variable {bytes : ByteArray} {i : Nat}

theorem toNat_word32 (b0 b1 b2 b3 : UInt8) : (word32 b0 b1 b2 b3).toNat =
    b0.toNat + b1.toNat * 2 ^ 8 + b2.toNat * 2 ^ 16 + b3.toNat * 2 ^ 24 := by
  have h0 := b0.toNat_lt
  have h1 := b1.toNat_lt
  have h2 := b2.toNat_lt
  have h3 := b3.toNat_lt
  have hshift (x k : Nat) (hx : x * 2 ^ k < 2 ^ 32) : x <<< k % 2 ^ 32 = x <<< k :=
    Nat.mod_eq_of_lt (by rwa [Nat.shiftLeft_eq])
  rw [word32]
  simp only [UInt32.toNat_or, UInt32.toNat_shiftLeft, UInt8.toNat_toUInt32]
  show b0.toNat ||| b1.toNat <<< 8 % 2 ^ 32 ||| b2.toNat <<< 16 % 2 ^ 32 |||
    b3.toNat <<< 24 % 2 ^ 32 = _
  rw [hshift b1.toNat 8 (by omega), hshift b2.toNat 16 (by omega), hshift b3.toNat 24 (by omega),
    Nat.or_shiftLeft h0,
    Nat.or_shiftLeft (show b0.toNat + b1.toNat * 2 ^ 8 < 2 ^ 16 by omega),
    Nat.or_shiftLeft
      (show b0.toNat + b1.toNat * 2 ^ 8 + b2.toNat * 2 ^ 16 < 2 ^ 24 by omega)]

/-- A word is written as the bytes that it was made from. -/
theorem peek_le32_word32 (b0 b1 b2 b3 : UInt8) {j : Nat} (hj : j < 4) :
    peek (le32 (word32 b0 b1 b2 b3)) j = [b0, b1, b2, b3][j] := by
  have hsum := toNat_word32 b0 b1 b2 b3
  have h0 := b0.toNat_lt
  have h1 := b1.toNat_lt
  have h2 := b2.toNat_lt
  have hshift (k : Nat) (hk : k < 32) : (word32 b0 b1 b2 b3 >>> UInt32.ofNat k).toUInt8.toNat =
      (word32 b0 b1 b2 b3).toNat / 2 ^ k % 256 := by
    rw [UInt32.toNat_toUInt8, UInt32.toNat_shiftRight, Nat.shiftRight_eq_div_pow,
      UInt32.toNat_ofNat_of_lt' (show k < 2 ^ 32 by omega), Nat.mod_eq_of_lt hk]
  apply UInt8.toNat_inj.mp
  match j, hj with
  | 0, _ =>
    show (word32 b0 b1 b2 b3).toUInt8.toNat = b0.toNat
    rw [UInt32.toNat_toUInt8]
    omega
  | 1, _ =>
    show (word32 b0 b1 b2 b3 >>> UInt32.ofNat 8).toUInt8.toNat = b1.toNat
    rw [hshift 8 (by omega)]
    omega
  | 2, _ =>
    show (word32 b0 b1 b2 b3 >>> UInt32.ofNat 16).toUInt8.toNat = b2.toNat
    rw [hshift 16 (by omega)]
    omega
  | 3, _ =>
    show (word32 b0 b1 b2 b3 >>> UInt32.ofNat 24).toUInt8.toNat = b3.toNat
    rw [hshift 24 (by omega)]
    have h3 := b3.toNat_lt
    omega

/-- A word is written as the bytes that it was read from. -/
theorem peek_le32_wordAt (bytes : ByteArray) (i : Nat) {j : Nat} (hj : j < 4) :
    peek (le32 (wordAt bytes i)) j = peek bytes (i + j) := by
  rw [wordAt, peek_le32_word32 _ _ _ _ hj]
  obtain rfl | rfl | rfl | rfl : j = 0 ∨ j = 1 ∨ j = 2 ∨ j = 3 := by omega
  all_goals rfl

theorem le32_wordAt (h : i + 4 ≤ bytes.size) :
    le32 (wordAt bytes i) = bytes.extract i (i + 4) := by
  have hsize : (bytes.extract i (i + 4)).size = 4 := by
    rw [ByteArray.size_extract]
    omega
  refine ext_peek hsize.symm fun j hj => ?_
  rw [peek_le32_wordAt bytes i hj, peek_extract, if_pos (by rwa [← ByteArray.size_extract, hsize])]

/-- Writing the word that is there changes nothing. -/
theorem overwrite_wordAt (h : i + 4 ≤ bytes.size) :
    overwrite bytes i (le32 (wordAt bytes i)) = bytes := by
  have hfits : i + (le32 (wordAt bytes i)).size ≤ bytes.size := h
  have hsize := size_le32 (wordAt bytes i)
  apply ext_peek
  · exact size_overwrite hfits
  · intro j _
    rw [peek_overwrite hfits]
    split
    · next hin =>
      rw [peek_le32_wordAt bytes i (by omega), Nat.add_sub_cancel' hin.1]
    · rfl

end Bytes
end ChipReplay
