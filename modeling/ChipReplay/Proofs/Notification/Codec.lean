import Mathlib.Algebra.Group.Nat.Defs
import ChipReplay.Notification
import ChipReplay.Proofs.Bytes.Contents
/-!
# Notifications on the wire

What is written is read back (`decode_encode`): of a refill request everything but the bits of its
number above the 24 that are sent, and of a status report the word. The numbers themselves count
modulo `2 ^ 24` (`nextSequence_ofNat`).
-/

namespace ChipReplay
namespace Notification

/-! ## Sequence numbers -/

theorem toNat_and_sequenceMask (s : UInt32) : (s &&& sequenceMask).toNat = s.toNat % 2 ^ 24 := by
  have hmask : sequenceMask.toNat = 2 ^ 24 - 1 := rfl
  rw [UInt32.toNat_and, hmask, Nat.and_two_pow_sub_one_eq_mod]

/-- Masking a number twice is masking it once. -/
theorem and_sequenceMask_idem (s : UInt32) :
    s &&& sequenceMask &&& sequenceMask = s &&& sequenceMask := by
  rw [UInt32.and_assoc, UInt32.and_self]

theorem nextSequence_and_sequenceMask (s : UInt32) :
    nextSequence s &&& sequenceMask = nextSequence s :=
  and_sequenceMask_idem (s + 1)

theorem ofNat_and_sequenceMask (k : Nat) :
    UInt32.ofNat (k % 2 ^ 24) &&& sequenceMask = UInt32.ofNat (k % 2 ^ 24) := by
  apply UInt32.toNat_inj.mp
  rw [toNat_and_sequenceMask, UInt32.toNat_ofNat']
  omega

/-- The numbers count modulo `2 ^ 24`. -/
theorem nextSequence_ofNat (k : Nat) :
    nextSequence (UInt32.ofNat (k % 2 ^ 24)) = UInt32.ofNat ((k + 1) % 2 ^ 24) := by
  apply UInt32.toNat_inj.mp
  have hone : (1 : UInt32).toNat = 1 := rfl
  rw [nextSequence, toNat_and_sequenceMask, UInt32.toNat_add, UInt32.toNat_ofNat',
    UInt32.toNat_ofNat', hone]
  omega

/-! ## The first word -/

theorem toNat_and_tagMask (s : UInt32) : (s &&& 0xFF).toNat = s.toNat % 2 ^ 8 := by
  have hmask : (0xFF : UInt32).toNat = 2 ^ 8 - 1 := rfl
  rw [UInt32.toNat_and, hmask, Nat.and_two_pow_sub_one_eq_mod]

/-- The first word of a refill request has the number above the tag. -/
theorem toNat_refillHead (s : UInt32) :
    ((s &&& sequenceMask) <<< 8 ||| refillTag).toNat = s.toNat % 2 ^ 24 * 2 ^ 8 + 1 := by
  -- the 24 bits fit above the tag, whose bits they leave free
  have hfits : s.toNat % 2 ^ 24 * 2 ^ 8 < 2 ^ 32 := by omega
  have hshift : ((s &&& sequenceMask) <<< 8).toNat = (s.toNat % 2 ^ 24) <<< 8 := by
    rw [UInt32.toNat_shiftLeft, toNat_and_sequenceMask, Nat.shiftLeft_eq, Nat.shiftLeft_eq]
    exact Nat.mod_eq_of_lt hfits
  rw [UInt32.toNat_or, hshift, ← Nat.shiftLeft_eq]
  exact (Nat.shiftLeft_add_eq_or_of_lt (by decide) _).symm

theorem tag_refillHead (s : UInt32) :
    ((s &&& sequenceMask) <<< 8 ||| refillTag) &&& 0xFF = refillTag := by
  apply UInt32.toNat_inj.mp
  rw [toNat_and_tagMask, toNat_refillHead]
  show _ = 1
  omega

theorem sequence_refillHead (s : UInt32) :
    ((s &&& sequenceMask) <<< 8 ||| refillTag) >>> 8 = s &&& sequenceMask := by
  apply UInt32.toNat_inj.mp
  rw [UInt32.toNat_shiftRight, toNat_refillHead, toNat_and_sequenceMask]
  show (_ : Nat) >>> 8 = _
  rw [Nat.shiftRight_eq_div_pow]
  omega

/-! ## Reading back -/

section

variable (a b c d : UInt32)

theorem word?_zero :
    word? (Bytes.le32 a ++ Bytes.le32 b ++ Bytes.le32 c ++ Bytes.le32 d) 0 = some a :=
  congrArg some (Bytes.word32_le32 a)

theorem word?_one :
    word? (Bytes.le32 a ++ Bytes.le32 b ++ Bytes.le32 c ++ Bytes.le32 d) 1 = some b :=
  congrArg some (Bytes.word32_le32 b)

theorem word?_two :
    word? (Bytes.le32 a ++ Bytes.le32 b ++ Bytes.le32 c ++ Bytes.le32 d) 2 = some c :=
  congrArg some (Bytes.word32_le32 c)

theorem word?_three :
    word? (Bytes.le32 a ++ Bytes.le32 b ++ Bytes.le32 c ++ Bytes.le32 d) 3 = some d :=
  congrArg some (Bytes.word32_le32 d)

end

/-- The message as it arrives: only 24 bits of its number are sent. -/
def masked : Notification → Notification
  | refill sequence r => .ofRefill sequence r
  | status word => .status word

theorem masked_ofRefill (sequence : UInt32) (r : Refill) :
    (ofRefill sequence r).masked = ofRefill sequence r :=
  congrArg (refill · r) (and_sequenceMask_idem sequence)

/-- What is written is read back. -/
theorem decode_encode (n : Notification) : decode n.encode = some n.masked := by
  cases n with
  | refill sequence r =>
    have htag := tag_refillHead sequence
    have hsequence := sequence_refillHead sequence
    simp only [encode, decode, word?_zero, word?_one, word?_two, word?_three, Option.bind_eq_bind,
      Option.bind_some, htag, if_true, hsequence]
    rfl
  | status word =>
    have htag : statusTag &&& 0xFF = statusTag := by decide
    have hother : statusTag ≠ refillTag := by decide
    simp only [encode, decode, word?_zero, word?_one, Option.bind_eq_bind, Option.bind_some, htag,
      if_neg hother, if_true]
    rfl

end Notification
end ChipReplay
