import ChipReplay.Proofs.Preparation.Reading
/-!
# What is written

Commands are appended one behind the other (`toList_appendAll`), and then three words of the header
are set. They lie in the header, so what stands behind it is left alone (`sealHeader_append`).
-/

namespace ChipReplay

open Bytes

namespace Bytes

variable {a b source bytes : ByteArray} {offset i : Nat}

theorem overwrite_append (h : offset + source.size ≤ a.size) :
    overwrite (a ++ b) offset source = overwrite a offset source ++ b := by
  have happend : (a ++ b).size = a.size + b.size := ByteArray.size_append
  have hleft : (overwrite a offset source).size = a.size := size_overwrite h
  have hwhole : (overwrite (a ++ b) offset source).size = (a ++ b).size :=
    size_overwrite (by omega)
  apply ext_peek
  · rw [hwhole, happend, ByteArray.size_append, hleft]
  · intro i _
    rw [peek_overwrite (by omega), peek_append, peek_append, hleft, peek_overwrite h]
    by_cases hi : i < a.size
    · rw [if_pos hi, if_pos hi]
    · rw [if_neg hi, if_neg hi, if_neg (by omega)]

/-- The word that was written is there. -/
theorem wordAt_overwrite (h : offset + 4 ≤ bytes.size) (value : UInt32) :
    wordAt (overwrite bytes offset (le32 value)) offset = value := by
  have hfits : offset + (le32 value).size ≤ bytes.size := h
  have hbyte (j : Nat) (hj : j < 4) :
      peek (overwrite bytes offset (le32 value)) (offset + j) = peek (le32 value) j := by
    have hsize := size_le32 value
    rw [peek_overwrite hfits, if_pos (by omega), Nat.add_sub_cancel_left]
  have hfirst := hbyte 0 (by decide)
  rw [Nat.add_zero] at hfirst
  rw [wordAt, hfirst, hbyte 1 (by decide), hbyte 2 (by decide), hbyte 3 (by decide)]
  exact word32_le32 value

/-- Other words stay. -/
theorem wordAt_overwrite_of_apart (h : offset + 4 ≤ bytes.size) (value : UInt32)
    (hapart : i + 4 ≤ offset ∨ offset + 4 ≤ i) :
    wordAt (overwrite bytes offset (le32 value)) i = wordAt bytes i := by
  have hfits : offset + (le32 value).size ≤ bytes.size := h
  apply wordAt_congr
  intro j hj
  have hsize := size_le32 value
  rw [peek_overwrite hfits, if_neg (by omega)]

theorem wordAt_append (h : i + 4 ≤ a.size) : wordAt (a ++ b) i = wordAt a i := by
  apply wordAt_congr
  intro j hj
  rw [peek_append, if_pos (by omega)]

end Bytes

namespace Preparation

theorem toList_append (out : ByteArray) (c : Command) :
    (c.append out).data.toList = out.data.toList ++ c.encode.data.toList := by
  have hpush (bytes : ByteArray) (x : UInt8) :
      (bytes.push x).data.toList = bytes.data.toList ++ [x] := Array.toList_push
  have hempty : ByteArray.empty.data.toList = [] := rfl
  cases c <;> simp only [Command.encode, Command.append, hpush, hempty, List.nil_append,
    List.append_assoc, List.append_nil]

/-- The commands stand behind each other. -/
theorem toList_appendAll (start : ByteArray) (commands : List Command) :
    (appendAll start commands).data.toList =
      start.data.toList ++ commands.flatMap fun c => c.encode.data.toList := by
  unfold appendAll
  induction commands generalizing start with
  | nil => exact (List.append_nil _).symm
  | cons c rest ih => rw [List.foldl_cons, ih, toList_append, List.flatMap_cons, List.append_assoc]

/-! ## The header -/

/-- Byte `i` lies in one of the three words that are set. -/
def InSealed (i : Nat) : Prop :=
  0x04 ≤ i ∧ i < 0x08 ∨ 0x14 ≤ i ∧ i < 0x18 ∨ 0x1C ≤ i ∧ i < 0x20

theorem putField_append {header : ByteArray} {f : HeaderField} (h : f.offset + 4 ≤ header.size)
    (body : ByteArray) (value : UInt32) : putField (header ++ body) f value =
      overwrite header f.offset (le32 value) ++ body := by
  have hsize : (header ++ body).size = header.size + body.size := ByteArray.size_append
  rw [putField, put32?, if_pos (by omega), Option.getD_some, overwrite_append h]

theorem size_setWord {bytes : ByteArray} {offset : Nat} (h : offset + 4 ≤ bytes.size)
    (value : UInt32) : (overwrite bytes offset (le32 value)).size = bytes.size :=
  size_overwrite h

theorem peek_setWord {bytes : ByteArray} {offset i : Nat} (h : offset + 4 ≤ bytes.size)
    (value : UInt32) (hi : ¬ (offset ≤ i ∧ i < offset + 4)) :
    peek (overwrite bytes offset (le32 value)) i = peek bytes i := by
  rw [peek_overwrite h]
  exact if_neg hi

/-- Setting the three words in a stream sets them in its header. -/
theorem sealHeader_append {header : ByteArray} (hheader : 0x20 ≤ header.size) (body : ByteArray)
    (loop : UInt32) : ∃ sealed, sealHeader (header ++ body) loop = sealed ++ body ∧
      sealed.size = header.size ∧ (∀ i, ¬ InSealed i → peek sealed i = peek header i) ∧
      wordAt sealed 0x04 = UInt32.ofNat ((header ++ body).size - 4) ∧ wordAt sealed 0x14 = 0 := by
  let looped := overwrite header 0x1C (le32 loop)
  let untagged := overwrite looped 0x14 (le32 0)
  let sealed := overwrite untagged 0x04 (le32 (UInt32.ofNat ((header ++ body).size - 4)))
  have hlooped : looped.size = header.size := size_setWord (by omega) loop
  have huntagged : untagged.size = header.size :=
    (size_setWord (by omega) 0).trans hlooped
  have hsealed : sealed.size = header.size := (size_setWord (by omega) _).trans huntagged
  refine ⟨sealed, ?_, hsealed, fun i hi => ?_, wordAt_overwrite (by omega) _, ?_⟩
  · have hsize : (untagged ++ body).size = (header ++ body).size := by
      rw [ByteArray.size_append, ByteArray.size_append, huntagged]
    have hloop : putField (header ++ body) .loopOffset loop = looped ++ body :=
      putField_append (f := .loopOffset) (show 0x1C + 4 ≤ header.size by omega) body loop
    have hgd3 : putField (looped ++ body) .gd3Offset 0 = untagged ++ body :=
      putField_append (f := .gd3Offset) (show 0x14 + 4 ≤ looped.size by omega) body 0
    have heof (value : UInt32) : putField (untagged ++ body) .eofOffset value =
        overwrite untagged 0x04 (le32 value) ++ body :=
      putField_append (f := .eofOffset) (show 0x04 + 4 ≤ untagged.size by omega) body value
    unfold sealHeader
    dsimp only
    rw [hloop, hgd3, heof, hsize]
    rfl
  · unfold InSealed at hi
    rw [peek_setWord (by omega) _ (by omega), peek_setWord (by omega) _ (by omega),
      peek_setWord (by omega) _ (by omega)]
  · rw [wordAt_overwrite_of_apart (by omega) _ (by omega)]
    exact wordAt_overwrite (by omega) 0

/-- The loop field holds what it was set to. -/
theorem wordAt_sealHeader {data : ByteArray} (h : 0x20 ≤ data.size) (loop : UInt32) :
    wordAt (sealHeader data loop) 0x1C = loop := by
  let looped := overwrite data 0x1C (le32 loop)
  let untagged := overwrite looped 0x14 (le32 0)
  have hlooped : looped.size = data.size := size_setWord (by omega) loop
  have huntagged : untagged.size = data.size := (size_setWord (by omega) 0).trans hlooped
  have hput {bytes : ByteArray} {f : HeaderField} (hfits : f.offset + 4 ≤ bytes.size)
      (value : UInt32) : putField bytes f value = overwrite bytes f.offset (le32 value) := by
    rw [putField, put32?, if_pos hfits, Option.getD_some]
  have hloop : putField data .loopOffset loop = looped :=
    hput (f := .loopOffset) (show 0x1C + 4 ≤ data.size by omega) loop
  have hgd3 : putField looped .gd3Offset 0 = untagged :=
    hput (f := .gd3Offset) (show 0x14 + 4 ≤ looped.size by omega) 0
  have heof (value : UInt32) :
      putField untagged .eofOffset value = overwrite untagged 0x04 (le32 value) :=
    hput (f := .eofOffset) (show 0x04 + 4 ≤ untagged.size by omega) value
  unfold sealHeader
  dsimp only
  rw [hloop, hgd3, heof, wordAt_overwrite_of_apart (by omega) _ (by omega),
    wordAt_overwrite_of_apart (by omega) _ (by omega)]
  exact wordAt_overwrite (by omega) loop

/-- Appending to a stream leaves what is there. -/
theorem appendAll_eq (start : ByteArray) (commands : List Command) :
    appendAll start commands = start ++ appendAll .empty commands := by
  apply ByteArray.ext
  apply Array.toList_inj.mp
  rw [ByteArray.toList_data_append, toList_appendAll start, toList_appendAll .empty]
  rfl

end Preparation
end ChipReplay
