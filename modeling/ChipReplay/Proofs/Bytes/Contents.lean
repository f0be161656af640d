import ChipReplay.Player.Playback
/-!
# What byte arrays and the window hold

`peek` is the view of a byte array: each operation that memories are built from has one lemma
that says which byte it leaves where. The window's lemmas follow from them. A word that is
written as four bytes is read back from them (`word32_le32`).
-/

namespace ChipReplay
namespace Bytes

theorem peek_of_lt {bytes : ByteArray} {i : Nat} (h : i < bytes.size) :
    peek bytes i = bytes[i] := by
  rw [peek, dif_pos h]
  rfl

theorem peek_of_le {bytes : ByteArray} {i : Nat} (h : bytes.size ≤ i) : peek bytes i = 0 :=
  dif_neg (Nat.not_lt.mpr h)

/-- Two arrays of one size with the same bytes are equal. -/
theorem ext_peek {a b : ByteArray} (hsize : a.size = b.size)
    (h : ∀ i < a.size, peek a i = peek b i) : a = b := by
  refine ByteArray.ext_getElem hsize fun i ha hb => ?_
  have hi := h i ha
  rwa [peek_of_lt ha, peek_of_lt hb] at hi

theorem ofFn_succ (n : Nat) (f : Nat → UInt8) : ofFn (n + 1) f = (ofFn n f).push (f n) := by
  rw [ofFn, Nat.fold_succ]
  rfl

theorem peek_push (bytes : ByteArray) (x : UInt8) (i : Nat) :
    peek (bytes.push x) i = if i = bytes.size then x else peek bytes i := by
  have hsize : (bytes.push x).size = bytes.size + 1 := ByteArray.size_push
  rcases Nat.lt_trichotomy i bytes.size with hlt | heq | hgt
  · rw [if_neg (by omega), peek_of_lt (by omega), peek_of_lt hlt]
    exact Array.getElem_push_lt hlt
  · subst heq
    rw [if_pos rfl, peek_of_lt (by omega)]
    exact Array.getElem_push_eq
  · rw [if_neg (by omega), peek_of_le (by omega), peek_of_le (by omega)]

theorem peek_ofFn (n : Nat) (f : Nat → UInt8) (i : Nat) :
    peek (ofFn n f) i = if i < n then f i else 0 := by
  induction n with
  | zero => exact peek_of_le (Nat.zero_le i)
  | succ n ih =>
    rw [ofFn_succ, peek_push, size_ofFn, ih]
    split
    · next heq => rw [heq, if_pos (Nat.lt_succ_self n)]
    · next hne =>
      by_cases hlt : i < n
      · rw [if_pos hlt, if_pos (by omega)]
      · rw [if_neg hlt, if_neg (by omega)]

theorem peek_extract (bytes : ByteArray) (i j k : Nat) :
    peek (bytes.extract i j) k = if k < min j bytes.size - i then peek bytes (i + k) else 0 := by
  have hsize : (bytes.extract i j).size = min j bytes.size - i := ByteArray.size_extract
  split
  · next hk =>
    rw [peek_of_lt (hsize ▸ hk), peek_of_lt (by omega), ByteArray.getElem_extract]
  · next hk => exact peek_of_le (by omega)

theorem peek_append (a b : ByteArray) (i : Nat) :
    peek (a ++ b) i = if i < a.size then peek a i else peek b (i - a.size) := by
  have hsize : (a ++ b).size = a.size + b.size := ByteArray.size_append
  split
  · next hi => rw [peek_of_lt (by omega), peek_of_lt hi, ByteArray.getElem_append_left hi]
  · next hi =>
    by_cases hb : i - a.size < b.size
    · rw [peek_of_lt (by omega), peek_of_lt hb, ByteArray.getElem_append_right (by omega)]
    · rw [peek_of_le (by omega), peek_of_le (by omega)]

theorem overwrite_eq_append (dest source : ByteArray) (offset : Nat) :
    overwrite dest offset source =
      dest.extract 0 offset ++ source ++ dest.extract (offset + source.size) dest.size := by
  rw [overwrite, ByteArray.copySlice_eq_append]
  simp

/-- Overwriting changes the bytes it covers and no others. -/
theorem peek_overwrite {dest source : ByteArray} {offset : Nat}
    (h : offset + source.size ≤ dest.size) (i : Nat) :
    peek (overwrite dest offset source) i =
      if offset ≤ i ∧ i < offset + source.size then peek source (i - offset) else peek dest i := by
  rw [overwrite_eq_append, peek_append, peek_append]
  have hleft : (dest.extract 0 offset).size = offset := by
    rw [ByteArray.size_extract]; omega
  simp only [ByteArray.size_append, hleft, peek_extract]
  -- in front of what is written, in it, and behind it
  by_cases hbefore : i < offset
  · rw [if_pos (by omega), if_pos hbefore, if_pos (by omega), if_neg (by omega), Nat.zero_add]
  · by_cases hin : i < offset + source.size
    · simp [hbefore, hin, show offset ≤ i by omega]
    · rw [if_neg hin, if_neg (show ¬ (offset ≤ i ∧ i < offset + source.size) by omega)]
      by_cases hend : i < dest.size
      · have hi : offset + source.size + (i - (offset + source.size)) = i := by omega
        rw [if_pos (by omega), hi]
      · rw [if_neg (by omega), peek_of_le (by omega)]

/-! ## Words -/

theorem getLsbD_toUInt8 (value : UInt32) (i : Nat) :
    value.toUInt8.toUInt32.toBitVec.getLsbD i = (decide (i < 8) && value.toBitVec.getLsbD i) := by
  rw [UInt8.toBitVec_toUInt32, UInt32.toBitVec_toUInt8, BitVec.getLsbD_setWidth,
    BitVec.getLsbD_setWidth]
  by_cases hi : i < 8
  · simp [hi, show i < 32 by omega]
  · simp [hi]

/-- A word is read back from its four bytes. -/
theorem word32_le32 (value : UInt32) :
    word32 value.toUInt8 (value >>> 8).toUInt8 (value >>> 16).toUInt8 (value >>> 24).toUInt8 =
      value := by
  apply UInt32.eq_of_toBitVec_eq
  apply BitVec.eq_of_getLsbD_eq
  intro i hi
  -- bit `i` comes from one of the bytes only, the one with number `i / 8`
  simp only [word32, UInt32.toBitVec_or, BitVec.getLsbD_or, UInt32.toBitVec_shiftLeft,
    UInt32.toBitVec_shiftRight, BitVec.getLsbD_shiftLeft', getLsbD_toUInt8]
  simp [BitVec.getLsbD_ushiftRight]
  grind

end Bytes

namespace Window

theorem byte_put (w : Window) (offset : Nat) (data : ByteArray)
    (h : offset + data.size ≤ windowSize) (i : Nat) :
    (w.put offset data h).byte i =
      if offset ≤ i ∧ i < offset + data.size then Bytes.peek data (i - offset) else w.byte i :=
  Bytes.peek_overwrite (w.size_eq.symm ▸ h) i

/-- A window of zeros holds zeros. -/
theorem byte_zero (i : Nat) : zero.byte i = 0 := by
  unfold byte zero Bytes.zeros
  rw [Bytes.peek_ofFn]
  exact ite_self _

end Window
end ChipReplay
