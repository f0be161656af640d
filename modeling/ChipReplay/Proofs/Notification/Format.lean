import Mathlib.Tactic.ByContra
import ChipReplay.Proofs.Bytes.LittleEndian
import ChipReplay.Proofs.Notification.Codec
/-!
# The format of notifications

The first byte and the size say what bytes are: with tag 1 and all four words a refill request, with
tag 2 and the first two a status report, else no notification (`decode_eq_none_iff`). A message is
read from any bytes that begin with it, but written in one way only. `Canonical` bytes are those
that writing gives: sixteen, with zeros where a status report has nothing to say. They are the ones
that are written back as they were read (`encode_decode_iff`).
-/

namespace ChipReplay
namespace Notification

open Bytes

variable {bytes : ByteArray} {n : Notification}

/-! ## Reading -/

/-- The bytes are those of a refill request: its tag, and four words. -/
def IsRefill (bytes : ByteArray) : Prop := 16 ≤ bytes.size ∧ peek bytes 0 = 1

/-- The bytes are those of a status report: its tag, and two words. -/
def IsStatus (bytes : ByteArray) : Prop := 8 ≤ bytes.size ∧ peek bytes 0 = 2

theorem word?_of_le {i : Nat} (h : 4 * i + 4 ≤ bytes.size) :
    word? bytes i = some (wordAt bytes (4 * i)) := by
  rw [word?, word32At, if_pos h]
  rfl

theorem word?_of_lt {i : Nat} (h : bytes.size < 4 * i + 4) : word? bytes i = none := by
  rw [word?, word32At, if_neg (Nat.not_le.mpr h)]
  rfl

/-- The tag is the first byte. -/
theorem toNat_tag (bytes : ByteArray) :
    (wordAt bytes 0 &&& 0xFF).toNat = (peek bytes 0).toNat := by
  have hsum := toNat_word32 (peek bytes 0) (peek bytes 1) (peek bytes 2) (peek bytes 3)
  have hlow := (peek bytes 0).toNat_lt
  rw [toNat_and_tagMask, wordAt, hsum]
  omega

theorem tag_eq_refillTag_iff : wordAt bytes 0 &&& 0xFF = refillTag ↔ peek bytes 0 = 1 := by
  rw [← UInt32.toNat_inj, toNat_tag, ← UInt8.toNat_inj]
  rfl

theorem tag_eq_statusTag_iff : wordAt bytes 0 &&& 0xFF = statusTag ↔ peek bytes 0 = 2 := by
  rw [← UInt32.toNat_inj, toNat_tag, ← UInt8.toNat_inj]
  rfl

theorem decode_of_isRefill (h : IsRefill bytes) : decode bytes = some (.refill
    (wordAt bytes 0 >>> 8) ⟨wordAt bytes 4, wordAt bytes 8, wordAt bytes 12⟩) := by
  obtain ⟨hsize, htag⟩ := h
  have h0 : word? bytes 0 = some (wordAt bytes 0) := word?_of_le (by omega)
  have h1 : word? bytes 1 = some (wordAt bytes 4) := word?_of_le (by omega)
  have h2 : word? bytes 2 = some (wordAt bytes 8) := word?_of_le (by omega)
  have h3 : word? bytes 3 = some (wordAt bytes 12) := word?_of_le (by omega)
  simp only [decode, h0, h1, h2, h3, Option.bind_eq_bind, Option.bind_some,
    if_pos (tag_eq_refillTag_iff.mpr htag)]
  rfl

theorem decode_of_isStatus (h : IsStatus bytes) :
    decode bytes = some (.status (wordAt bytes 4)) := by
  obtain ⟨hsize, htag⟩ := h
  have h0 : word? bytes 0 = some (wordAt bytes 0) := word?_of_le (by omega)
  have h1 : word? bytes 1 = some (wordAt bytes 4) := word?_of_le (by omega)
  have hother : ¬ wordAt bytes 0 &&& 0xFF = refillTag := by
    rw [tag_eq_refillTag_iff, htag]
    decide
  simp only [decode, h0, h1, Option.bind_eq_bind, Option.bind_some, if_neg hother,
    if_pos (tag_eq_statusTag_iff.mpr htag)]
  rfl

theorem decode_of_other (hrefill : ¬ IsRefill bytes) (hstatus : ¬ IsStatus bytes) :
    decode bytes = none := by
  by_cases hhead : bytes.size < 4
  · simp only [decode, word?_of_lt (i := 0) hhead, Option.bind_eq_bind, Option.bind_none]
  · have h0 : word? bytes 0 = some (wordAt bytes 0) := word?_of_le (by omega)
    simp only [decode, h0, Option.bind_eq_bind, Option.bind_some]
    by_cases hone : peek bytes 0 = 1
    · -- one of the words is missing, and the last one is
      have hsize : bytes.size < 16 := Nat.not_le.mp fun hle => hrefill ⟨hle, hone⟩
      simp only [if_pos (tag_eq_refillTag_iff.mpr hone), word?_of_lt (i := 3) hsize,
        Option.bind_none, Option.bind_fun_none]
    · rw [if_neg (mt tag_eq_refillTag_iff.mp hone)]
      by_cases htwo : peek bytes 0 = 2
      · have hsize : bytes.size < 8 := Nat.not_le.mp fun hle => hstatus ⟨hle, htwo⟩
        simp only [if_pos (tag_eq_statusTag_iff.mpr htwo), word?_of_lt (i := 1) hsize,
          Option.bind_none]
      · rw [if_neg (mt tag_eq_statusTag_iff.mp htwo)]

theorem decode_eq_refill_iff :
    (∃ sequence r, decode bytes = some (.refill sequence r)) ↔ IsRefill bytes := by
  refine ⟨fun ⟨sequence, r, hread⟩ => ?_, fun h => ⟨_, _, decode_of_isRefill h⟩⟩
  by_contra hother
  by_cases hstatus : IsStatus bytes
  · rw [decode_of_isStatus hstatus] at hread
    cases hread
  · rw [decode_of_other hother hstatus] at hread
    cases hread

theorem decode_eq_status_iff :
    (∃ word, decode bytes = some (.status word)) ↔ IsStatus bytes := by
  refine ⟨fun ⟨word, hread⟩ => ?_, fun h => ⟨_, decode_of_isStatus h⟩⟩
  by_contra hother
  by_cases hrefill : IsRefill bytes
  · rw [decode_of_isRefill hrefill] at hread
    cases hread
  · rw [decode_of_other hrefill hother] at hread
    cases hread

theorem decode_eq_none_iff : decode bytes = none ↔ ¬ IsRefill bytes ∧ ¬ IsStatus bytes := by
  refine ⟨fun hread => ⟨fun h => ?_, fun h => ?_⟩, fun h => decode_of_other h.1 h.2⟩
  · rw [decode_of_isRefill h] at hread
    cases hread
  · rw [decode_of_isStatus h] at hread
    cases hread

/-! ## Writing what was read -/

/-- The bytes are all of a message, with zeros where a status report says nothing. -/
def Canonical (bytes : ByteArray) : Prop :=
  bytes.size = 16 ∧ (peek bytes 0 = 1 ∨
    peek bytes 0 = 2 ∧ ∀ i, 1 ≤ i ∧ i ≤ 3 ∨ 8 ≤ i ∧ i ≤ 15 → peek bytes i = 0)

theorem size_encode (n : Notification) : n.encode.size = 16 := by
  cases n <;> rfl

/-- Every message is written in the one form. -/
theorem canonical_encode (n : Notification) : Canonical n.encode := by
  refine ⟨size_encode n, ?_⟩
  cases n with
  | refill sequence r =>
    left
    apply UInt8.toNat_inj.mp
    show ((sequence &&& sequenceMask) <<< 8 ||| refillTag).toUInt8.toNat = 1
    rw [UInt32.toNat_toUInt8, toNat_refillHead]
    omega
  | status word =>
    right
    refine ⟨rfl, fun i hi => ?_⟩
    have hcases : i = 1 ∨ i = 2 ∨ i = 3 ∨ i = 8 ∨ i = 9 ∨ i = 10 ∨ i = 11 ∨ i = 12 ∨ i = 13 ∨
        i = 14 ∨ i = 15 := by omega
    rcases hcases with rfl | rfl | rfl | rfl | rfl | rfl | rfl | rfl | rfl | rfl | rfl
    all_goals rfl

/-- Sixteen bytes are four words. -/
theorem eq_words (h : bytes.size = 16) : le32 (wordAt bytes 0) ++ le32 (wordAt bytes 4)
    ++ le32 (wordAt bytes 8) ++ le32 (wordAt bytes 12) = bytes := by
  have hjoin (i j : Nat) (hij : i ≤ j) :
      bytes.extract 0 i ++ bytes.extract i j = bytes.extract 0 j :=
    (ByteArray.extract_eq_extract_append_extract i (Nat.zero_le i) hij).symm
  rw [le32_wordAt (by omega), le32_wordAt (by omega), le32_wordAt (by omega),
    le32_wordAt (by omega), hjoin _ _ (by omega), hjoin _ _ (by omega), hjoin _ _ (by omega),
    show 12 + 4 = bytes.size from h.symm, ByteArray.extract_zero_size]

/-- The first word of a refill request is made of its number and its tag again. -/
theorem refillHead_shiftRight {head : UInt32} (h : head &&& 0xFF = refillTag) :
    (head >>> 8 &&& sequenceMask) <<< 8 ||| refillTag = head := by
  have hlow : head.toNat % 2 ^ 8 = 1 := by
    rw [← toNat_and_tagMask, h]
    rfl
  have hhigh : (head >>> 8).toNat = head.toNat / 2 ^ 8 := by
    rw [UInt32.toNat_shiftRight]
    show head.toNat >>> 8 = _
    rw [Nat.shiftRight_eq_div_pow]
  have hlt := head.toNat_lt
  apply UInt32.toNat_inj.mp
  rw [toNat_refillHead, hhigh]
  omega

theorem encode_of_isRefill (hsize : bytes.size = 16) (htag : peek bytes 0 = 1) :
    (decode bytes).map encode = some bytes := by
  rw [decode_of_isRefill ⟨Nat.le_of_eq hsize.symm, htag⟩, Option.map_some, encode,
    refillHead_shiftRight (tag_eq_refillTag_iff.mpr htag), eq_words hsize]

theorem encode_of_isStatus (hsize : bytes.size = 16) (htag : peek bytes 0 = 2)
    (hzero : ∀ i, 1 ≤ i ∧ i ≤ 3 ∨ 8 ≤ i ∧ i ≤ 15 → peek bytes i = 0) :
    (decode bytes).map encode = some bytes := by
  have hhead : wordAt bytes 0 = statusTag := by
    rw [wordAt, htag, hzero 1 (by omega), hzero 2 (by omega), hzero 3 (by omega)]
    rfl
  have hthird : wordAt bytes 8 = 0 := by
    rw [wordAt, hzero 8 (by omega), hzero 9 (by omega), hzero 10 (by omega), hzero 11 (by omega)]
    rfl
  have hfourth : wordAt bytes 12 = 0 := by
    rw [wordAt, hzero 12 (by omega), hzero 13 (by omega), hzero 14 (by omega),
      hzero 15 (by omega)]
    rfl
  have hbytes := eq_words hsize
  rw [hhead, hthird, hfourth] at hbytes
  rw [decode_of_isStatus ⟨by omega, htag⟩, Option.map_some, encode, hbytes]

/-- Bytes are written back as they were read exactly if they have the form that is written. -/
theorem encode_decode_iff : (decode bytes).map encode = some bytes ↔ Canonical bytes := by
  constructor
  · intro h
    obtain ⟨n, -, rfl⟩ := Option.map_eq_some_iff.mp h
    exact canonical_encode n
  · rintro ⟨hsize, htag | ⟨htag, hzero⟩⟩
    · exact encode_of_isRefill hsize htag
    · exact encode_of_isStatus hsize htag hzero

/-! ## The codec -/

theorem masked_refill (sequence : UInt32) (r : Refill) : (refill sequence r).masked =
    .refill (UInt32.ofNat (sequence.toNat % 2 ^ 24)) r := by
  have hmask : sequence &&& sequenceMask = UInt32.ofNat (sequence.toNat % 2 ^ 24) := by
    apply UInt32.toNat_inj.mp
    rw [toNat_and_sequenceMask, UInt32.toNat_ofNat']
    omega
  exact congrArg (refill · r) hmask

/-- Every message is read as it was written, but for its number, of which 24 bits are sent. Bytes
are a refill request, a status report or nothing by their size and first byte alone, and those that
are written back as they were read are the canonical ones. -/
theorem codec_exact :
    (∀ sequence r, decode (refill sequence r).encode =
      some (.refill (UInt32.ofNat (sequence.toNat % 2 ^ 24)) r)) ∧
    (∀ word, decode (status word).encode = some (.status word)) ∧
    (∀ bytes, (∃ sequence r, decode bytes = some (.refill sequence r)) ↔
      16 ≤ bytes.size ∧ peek bytes 0 = 1) ∧
    (∀ bytes, (∃ word, decode bytes = some (.status word)) ↔
      8 ≤ bytes.size ∧ peek bytes 0 = 2) ∧
    (∀ bytes, decode bytes = none ↔ ¬ (16 ≤ bytes.size ∧ peek bytes 0 = 1) ∧
      ¬ (8 ≤ bytes.size ∧ peek bytes 0 = 2)) ∧
    ∀ bytes, (decode bytes).map encode = some bytes ↔ Canonical bytes := by
  refine ⟨fun sequence r => ?_, fun word => decode_encode _, fun _ => decode_eq_refill_iff,
    fun _ => decode_eq_status_iff, fun _ => decode_eq_none_iff, fun _ => encode_decode_iff⟩
  rw [← masked_refill]
  exact decode_encode _

end Notification
end ChipReplay
