import ChipReplay.Bytes.Words
import ChipReplay.Proofs.Bytes.Contents
/-!
# Reversing sample words

`swapWords` is applied to a block of samples when it is cut out of a file and to each packet when it
arrives. Two facts make that come out right: it is its own inverse, and it goes piece by piece as
long as every piece but the last has whole words (`swapWords_append`).
-/

namespace ChipReplay.Bytes

theorem reversedIndex_lt {size i : Nat} (h : i < size) : reversedIndex size i < size := by
  unfold reversedIndex
  split
  · omega
  · exact h

theorem peek_swapWords (bytes : ByteArray) (i : Nat) :
    peek (swapWords bytes) i = peek bytes (reversedIndex bytes.size i) := by
  rw [swapWords, peek_ofFn]
  split
  · rfl
  · next hi =>
    rw [reversedIndex, if_neg (by omega), peek_of_le (by omega)]

/-- Reversing the words twice gives the bytes back. -/
theorem swapWords_swapWords (bytes : ByteArray) : swapWords (swapWords bytes) = bytes := by
  apply ext_peek
  · rw [size_swapWords, size_swapWords]
  · intro i _
    rw [peek_swapWords, peek_swapWords, size_swapWords, reversedIndex_reversedIndex]

/-- In front of whole words, words are reversed without regard to what follows. -/
theorem reversedIndex_of_lt {size rest i : Nat} (h : 4 ∣ size) (hi : i < size) :
    reversedIndex (size + rest) i = reversedIndex size i := by
  unfold reversedIndex
  rw [if_pos (by omega), if_pos (by omega)]

/-- Behind whole words, words are reversed as if they stood alone. -/
theorem reversedIndex_of_le {size rest i : Nat} (h : 4 ∣ size) (hi : size ≤ i) :
    reversedIndex (size + rest) i = size + reversedIndex rest (i - size) := by
  unfold reversedIndex
  obtain ⟨words, rfl⟩ := h
  by_cases hword : i - 4 * words < 4 * (rest / 4)
  · rw [if_pos (by omega), if_pos hword]
    omega
  · rw [if_neg (by omega), if_neg hword]
    omega

/-- Words are reversed piece by piece, if the first piece has whole words. -/
theorem swapWords_append {a : ByteArray} (h : 4 ∣ a.size) (b : ByteArray) :
    swapWords (a ++ b) = swapWords a ++ swapWords b := by
  have hsize : (a ++ b).size = a.size + b.size := ByteArray.size_append
  apply ext_peek
  · rw [size_swapWords, ByteArray.size_append, ByteArray.size_append, size_swapWords,
      size_swapWords]
  · intro i _
    rw [peek_swapWords, hsize, peek_append, peek_append, size_swapWords]
    by_cases hi : i < a.size
    · rw [if_pos hi, peek_swapWords, reversedIndex_of_lt h hi, if_pos (reversedIndex_lt hi)]
    · rw [if_neg hi, peek_swapWords, reversedIndex_of_le h (by omega), if_neg (by omega),
        Nat.add_sub_cancel_left]

end ChipReplay.Bytes
