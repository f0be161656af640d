/-!
# Byte arrays with checked reads

Three things live here. The checked readers (`byteAt`, `word16At`, `word32At`, `slice`) answer
`OutOfRange` when the array is too short, and say how many bytes there were. The unchecked ones
(`peek`, `ofFn`, `overwrite`, `zeros`) are total: they are what memories are built from. The
lemmas say what each does to the size.
-/

namespace ChipReplay

/-- A read past the end of a byte array. -/
structure OutOfRange where
  /-- Where the read began. -/
  offset : Nat
  /-- How many bytes it asked for. -/
  needed : Nat
  /-- How many bytes were there. -/
  available : Nat
deriving DecidableEq

namespace Bytes

/-- The byte at index `i`, and zero past the end. -/
def peek (bytes : ByteArray) (i : Nat) : UInt8 :=
  if h : i < bytes.size then bytes.get i h else 0

/-- The array of the `n` bytes `f 0, …, f (n - 1)`. -/
def ofFn (n : Nat) (f : Nat → UInt8) : ByteArray :=
  n.fold (fun i _ out => out.push (f i)) (ByteArray.emptyWithCapacity n)

/-- `n` zero bytes. -/
def zeros (n : Nat) : ByteArray := ofFn n fun _ => 0

/-- `dest` with the bytes of `source` written over it from `offset` on. -/
def overwrite (dest : ByteArray) (offset : Nat) (source : ByteArray) : ByteArray :=
  source.copySlice 0 dest offset source.size false

/-! ## Checked readers -/

/-- The `length` bytes from `offset`. -/
def slice (bytes : ByteArray) (offset length : Nat) : Except OutOfRange ByteArray :=
  if offset + length ≤ bytes.size then .ok (bytes.extract offset (offset + length))
  else .error ⟨offset, length, bytes.size - offset⟩

/-- The byte at `offset`. A failed read counts the whole array as available. -/
def byteAt (bytes : ByteArray) (offset : Nat) : Except OutOfRange UInt8 :=
  if h : offset < bytes.size then .ok (bytes.get offset h)
  else .error ⟨offset, 1, bytes.size⟩

/-- The 16-bit word with the given bytes, least significant first. -/
def word16 (b0 b1 : UInt8) : UInt16 :=
  b0.toUInt16 ||| b1.toUInt16 <<< 8

/-- The 32-bit word with the given bytes, least significant first. -/
def word32 (b0 b1 b2 b3 : UInt8) : UInt32 :=
  b0.toUInt32 ||| b1.toUInt32 <<< 8 ||| b2.toUInt32 <<< 16 ||| b3.toUInt32 <<< 24

/-- The little-endian 16-bit word at `offset`. -/
def word16At (bytes : ByteArray) (offset : Nat) : Except OutOfRange UInt16 :=
  if offset + 2 ≤ bytes.size then
    .ok (word16 (peek bytes offset) (peek bytes (offset + 1)))
  else .error ⟨offset, 2, bytes.size - offset⟩

/-- The little-endian 32-bit word at `offset`. -/
def word32At (bytes : ByteArray) (offset : Nat) : Except OutOfRange UInt32 :=
  if offset + 4 ≤ bytes.size then
    .ok (word32 (peek bytes offset) (peek bytes (offset + 1)) (peek bytes (offset + 2))
      (peek bytes (offset + 3)))
  else .error ⟨offset, 4, bytes.size - offset⟩

/-! ## Writers -/

/-- The four bytes of `value`, least significant first. -/
def le32 (value : UInt32) : ByteArray :=
  ⟨#[value.toUInt8, (value >>> 8).toUInt8, (value >>> 16).toUInt8, (value >>> 24).toUInt8]⟩

/-- `bytes` with the little-endian word `value` at `offset`, if the word fits there. -/
def put32? (bytes : ByteArray) (offset : Nat) (value : UInt32) : Option ByteArray :=
  if offset + 4 ≤ bytes.size then some (overwrite bytes offset (le32 value)) else none

/-- `out` with the bytes of `source` in `[start, stop)` appended. -/
def appendRange (out source : ByteArray) (start stop : Nat) : ByteArray :=
  source.copySlice start out out.size (stop - start) false

/-! ## Sizes -/

@[simp] theorem size_ofFn (n : Nat) (f : Nat → UInt8) : (ofFn n f).size = n := by
  unfold ofFn
  generalize hout : ByteArray.emptyWithCapacity n = out
  have hsize : out.size = 0 := by subst hout; rfl
  clear hout
  suffices h : ∀ m (hm : m ≤ n),
      (m.fold (fun i _ (out : ByteArray) => out.push (f i)) out).size = m from h n (Nat.le_refl n)
  intro m hm
  induction m with
  | zero => simpa using hsize
  | succ m ih => simp [Nat.fold_succ, ByteArray.size_push, ih (Nat.le_of_succ_le hm)]

@[simp] theorem size_zeros (n : Nat) : (zeros n).size = n := size_ofFn n _

theorem size_overwrite {dest source : ByteArray} {offset : Nat}
    (h : offset + source.size ≤ dest.size) : (overwrite dest offset source).size = dest.size := by
  simp only [overwrite, ByteArray.copySlice, ByteArray.size] at *
  simp only [Array.size_append, Array.size_extract]
  omega

@[simp] theorem size_le32 (value : UInt32) : (le32 value).size = 4 := rfl

end Bytes
end ChipReplay
