import ChipReplay.Proofs.Bytes.Contents
/-!
# What a header depends on

A header is read from the first `0x50` bytes of a file. Two files that agree on these have the same
header, so the window has the header of the stream whose first bytes it holds.
-/

namespace ChipReplay

/-- The bytes that a header is read from. -/
def headerSize : Nat := 0x50

theorem HeaderField.offset_le (f : HeaderField) : f.offset + 4 ≤ headerSize := by
  cases f <;> decide

namespace Header

variable {a b : ByteArray}

theorem field_congr (ha : headerSize ≤ a.size) (hb : headerSize ≤ b.size)
    (h : ∀ i < headerSize, Bytes.peek a i = Bytes.peek b i) (f : HeaderField) :
    f.read a = f.read b := by
  have hfits := f.offset_le
  unfold HeaderField.read Bytes.word32At
  rw [if_pos (by omega), if_pos (by omega), h f.offset (by omega), h (f.offset + 1) (by omega),
    h (f.offset + 2) (by omega), h (f.offset + 3) (by omega)]

/-- A header depends on the first bytes only. -/
theorem read_congr (ha : headerSize ≤ a.size) (hb : headerSize ≤ b.size)
    (h : ∀ i < headerSize, Bytes.peek a i = Bytes.peek b i) : read a = read b := by
  have hsize : 4 ≤ headerSize := by decide
  have hident : Bytes.slice a 0 4 = Bytes.slice b 0 4 := by
    unfold Bytes.slice
    rw [if_pos (by omega), if_pos (by omega)]
    refine congrArg Except.ok (Bytes.ext_peek ?_ fun i _ => ?_)
    · rw [ByteArray.size_extract, ByteArray.size_extract]
      omega
    · rw [Bytes.peek_extract, Bytes.peek_extract, Nat.zero_add, Nat.min_eq_left (by omega),
        Nat.min_eq_left (by omega)]
      split
      · exact h (0 + i) (by omega)
      · rfl
  have hfield := field_congr ha hb h
  unfold read HeaderField.resolve
  rw [show HeaderField.ident.offset = 0 from rfl, hident]
  simp only [hfield]

end Header
end ChipReplay
