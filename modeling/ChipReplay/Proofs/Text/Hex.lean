import Mathlib.Algebra.Group.Nat.Defs
import ChipReplay.Text.Hex
/-!
# Reading hexadecimal numbers back

A number is read back from its digits (`value_upper`), and zeros in front of them change nothing
(`value_padTo`). So numbers that are written alike are the same, whatever the width.
-/

namespace ChipReplay.Hex

/-- The number that an upper-case digit stands for. -/
def digitValue (c : Char) : Nat := if c.toNat < 65 then c.toNat - 48 else c.toNat - 55

/-- The number that upper-case digits stand for, most significant digit first. -/
def value (digits : List Char) : Nat := digits.foldl (fun n c => 16 * n + digitValue c) 0

/-- The upper-case digits. -/
def upperDigits : List Char :=
  ['0', '1', '2', '3', '4', '5', '6', '7', '8', '9', 'A', 'B', 'C', 'D', 'E', 'F']

theorem digitValue_digitChar {d : Nat} (h : d < 16) :
    digitValue (Nat.digitChar d).toUpper = d := by
  have hall : ∀ d < 16, digitValue (Nat.digitChar d).toUpper = d := by decide
  exact hall d h

theorem digitChar_mem {d : Nat} (h : d < 16) : (Nat.digitChar d).toUpper ∈ upperDigits := by
  have hall : ∀ d < 16, (Nat.digitChar d).toUpper ∈ upperDigits := by decide
  exact hall d h

theorem value_concat (digits : List Char) (c : Char) :
    value (digits ++ [c]) = 16 * value digits + digitValue c := by
  rw [value, List.foldl_append]
  rfl

theorem toList_upper (n : Nat) :
    (upper n).toList = (Nat.toDigits 16 n).map Char.toUpper := String.toList_ofList

/-- The last digit is the rest of the division by sixteen, and in front of it stands the quotient,
if there is one. -/
theorem toDigits_eq (n : Nat) : (Nat.toDigits 16 n).map Char.toUpper =
    if n < 16 then [(Nat.digitChar n).toUpper]
    else (Nat.toDigits 16 (n / 16)).map Char.toUpper ++ [(Nat.digitChar (n % 16)).toUpper] := by
  rw [Nat.toDigits_eq_if (by decide)]
  split
  · rfl
  · rw [List.map_append]
    rfl

theorem value_upper (n : Nat) : value (upper n).toList = n := by
  rw [toList_upper]
  induction n using Nat.strongRecOn with
  | ind n ih =>
    rw [toDigits_eq]
    split
    · next hn =>
      show 16 * 0 + digitValue _ = n
      rw [digitValue_digitChar hn, Nat.zero_add]
    · next hn =>
      rw [value_concat, ih (n / 16) (by omega), digitValue_digitChar (Nat.mod_lt n (by decide)),
        Nat.div_add_mod]

theorem mem_upper (n : Nat) : ∀ c ∈ (upper n).toList, c ∈ upperDigits := by
  rw [toList_upper]
  induction n using Nat.strongRecOn with
  | ind n ih =>
    rw [toDigits_eq]
    split
    · next hn => exact List.forall_mem_singleton.mpr (digitChar_mem hn)
    · next hn =>
      exact List.forall_mem_append.mpr ⟨ih (n / 16) (by omega),
        List.forall_mem_singleton.mpr (digitChar_mem (Nat.mod_lt n (by decide)))⟩

theorem length_upper_le {n width : Nat} (hwidth : 0 < width) (h : n < 16 ^ width) :
    (upper n).toList.length ≤ width := by
  rw [toList_upper, List.length_map]
  exact (Nat.length_toDigits_le_iff (by decide) hwidth).mpr h

/-! ## Zeros in front -/

theorem toList_padTo (width : Nat) (digits : String) : (padTo width digits).toList =
    List.replicate (width - digits.toList.length) '0' ++ digits.toList := by
  have hzeros (n : Nat) : ("".pushn '0' n).toList = List.replicate n '0' := by
    rw [String.pushn_eq_repeat_push]
    induction n with
    | zero => rfl
    | succ n ih =>
      rw [Nat.repeat, String.toList_push, ih, List.replicate_succ']
  rw [padTo, String.toList_append, hzeros, String.length_toList]

theorem value_padTo (width n : Nat) : value (padTo width (upper n)).toList = n := by
  have hzeros (k : Nat) (digits : List Char) :
      value (List.replicate k '0' ++ digits) = value digits := by
    induction k with
    | zero => rfl
    | succ k ih => exact ih
  rw [toList_padTo, hzeros, value_upper]

theorem padTo_upper_inj {width m n : Nat}
    (h : padTo width (upper m) = padTo width (upper n)) : m = n := by
  rw [← value_padTo width m, ← value_padTo width n, h]

theorem mem_padTo_upper (width n : Nat) :
    ∀ c ∈ (padTo width (upper n)).toList, c ∈ upperDigits := by
  rw [toList_padTo]
  refine List.forall_mem_append.mpr ⟨fun c hc => ?_, mem_upper n⟩
  rw [List.eq_of_mem_replicate hc]
  decide

/-- A number that fits is written in exactly the width asked for. -/
theorem length_padTo_upper {n width : Nat} (hwidth : 0 < width) (h : n < 16 ^ width) :
    (padTo width (upper n)).toList.length = width := by
  have hle := length_upper_le hwidth h
  rw [toList_padTo, List.length_append, List.length_replicate]
  omega

end ChipReplay.Hex
