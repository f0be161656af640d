import ChipReplay.Proofs.Bytes.Contents
/-!
# Checked readers that succeed

A reader refuses with an error. If it succeeds, so did each of its steps, and the bytes that it
asked for were there.
-/

namespace ChipReplay

open Bytes

variable {file : ByteArray} {i : Nat}

theorem ok_of_bind {ε α β : Type} {x : Except ε α} {f : α → Except ε β} {y : β}
    (h : x >>= f = .ok y) : ∃ a, x = .ok a ∧ f a = .ok y := by
  cases x with
  | error e => cases h
  | ok a => exact ⟨a, rfl, h⟩

theorem ok_of_mapError {ε δ α : Type} {f : ε → δ} {x : Except ε α} {a : α}
    (h : x.mapError f = .ok a) : x = .ok a := by
  cases x with
  | error e => cases h
  | ok b => exact congrArg Except.ok (Except.ok.inj h)

theorem ok_of_ite {ε α : Type} {c : Prop} [Decidable c] {e : ε} {x : Except ε α} {a : α}
    (h : (if c then .error e else x) = .ok a) : ¬ c ∧ x = .ok a := by
  by_cases hc : c
  · rw [if_pos hc] at h
    cases h
  · rw [if_neg hc] at h
    exact ⟨hc, h⟩

/-! ## Bytes of a file -/

theorem byteAt_ok {x : UInt8} (h : byteAt file i = .ok x) : i < file.size ∧ x = peek file i := by
  unfold byteAt at h
  by_cases hi : i < file.size
  · rw [dif_pos hi] at h
    rw [peek_of_lt hi]
    exact ⟨hi, (Except.ok.inj h).symm⟩
  · rw [dif_neg hi] at h
    cases h

theorem slice_ok {part : ByteArray} {length : Nat} (h : slice file i length = .ok part) :
    i + length ≤ file.size ∧ part = file.extract i (i + length) := by
  unfold slice at h
  by_cases hfits : i + length ≤ file.size
  · rw [if_pos hfits] at h
    exact ⟨hfits, (Except.ok.inj h).symm⟩
  · rw [if_neg hfits] at h
    cases h

theorem word16At_ok {x : UInt16} (h : word16At file i = .ok x) :
    i + 2 ≤ file.size ∧ x = word16 (peek file i) (peek file (i + 1)) := by
  unfold word16At at h
  by_cases hfits : i + 2 ≤ file.size
  · rw [if_pos hfits] at h
    exact ⟨hfits, (Except.ok.inj h).symm⟩
  · rw [if_neg hfits] at h
    cases h

/-- The little-endian 32-bit word at `i`. -/
def Bytes.wordAt (file : ByteArray) (i : Nat) : UInt32 :=
  word32 (peek file i) (peek file (i + 1)) (peek file (i + 2)) (peek file (i + 3))

theorem Bytes.wordAt_congr {a b : ByteArray} {i : Nat}
    (h : ∀ j < 4, peek a (i + j) = peek b (i + j)) : wordAt a i = wordAt b i := by
  have hfirst := h 0 (by decide)
  rw [Nat.add_zero] at hfirst
  rw [wordAt, wordAt, hfirst, h 1 (by decide), h 2 (by decide), h 3 (by decide)]

theorem word32At_ok {x : UInt32} (h : word32At file i = .ok x) :
    i + 4 ≤ file.size ∧ x = wordAt file i := by
  unfold word32At at h
  by_cases hfits : i + 4 ≤ file.size
  · rw [if_pos hfits] at h
    exact ⟨hfits, (Except.ok.inj h).symm⟩
  · rw [if_neg hfits] at h
    cases h

end ChipReplay
