import ChipReplay.Bytes.Basic
/-!
# Byte order of sample words

Sample ROM travels as 32-bit words with the bytes of each word reversed. Reversing a word is
flipping the low two bits of the index, so `swapWords` is its own inverse; a partial word at the
end stays as it is.
-/

namespace ChipReplay.Bytes

/-- Where byte `i` of an array of `size` bytes comes from when every whole word is reversed. -/
def reversedIndex (size i : Nat) : Nat :=
  if i < 4 * (size / 4) then 4 * (i / 4) + (3 - i % 4) else i

/-- The bytes of every whole 32-bit word reversed; a partial last word is left alone. -/
def swapWords (bytes : ByteArray) : ByteArray :=
  ofFn bytes.size fun i => peek bytes (reversedIndex bytes.size i)

@[simp] theorem size_swapWords (bytes : ByteArray) : (swapWords bytes).size = bytes.size :=
  size_ofFn _ _

theorem reversedIndex_reversedIndex (size i : Nat) :
    reversedIndex size (reversedIndex size i) = i := by
  unfold reversedIndex
  grind

end ChipReplay.Bytes
