import ChipReplay.Preparation.Prepared
import ChipReplay.Proofs.Bytes.Checked
import Mathlib.Data.Nat.Basic
/-!
# The commands of a file as its bytes

`Command.At` says which bytes at an offset are which command, one constructor for each form a
command has. A command that was read stands `At` its offset (`at_of_read`), so the rest of the
theory never opens the reader. `Walk` is a run of such commands, each behind the one before, up to
the end of the stream or of the file.
-/

namespace ChipReplay

open Bytes

variable {file : ByteArray} {i : Nat}

/-! ## One command -/

/-- `b` is the data block at offset `i`. Its size field counts the block's two ROM fields, and a
size too small for them is taken as theirs. -/
structure DataBlock.At (file : ByteArray) (i : Nat) (b : DataBlock) : Prop where
  marker : peek file (i + 1) = 0x66
  kind : SampleKind.ofBlockType? (peek file (i + 2)) = some b.kind
  size : b.bytes.size = (wordAt file (i + 3)).toNat - Command.blockFieldsSize
  romOffset : b.romOffset = wordAt file (i + 11)
  inRom : b.bytes.size ≠ 0 → b.romOffset.toNat + b.bytes.size ≤ Command.addressLimit
  fits : i + Command.blockHeaderSize + b.bytes.size ≤ file.size
  bytes : b.bytes = file.extract (i + Command.blockHeaderSize)
    (i + Command.blockHeaderSize + b.bytes.size)

theorem DataBlock.at_of_readBlock {b : DataBlock} (h : Command.readBlock file i = .ok b) :
    b.At file i := by
  unfold Command.readBlock at h
  obtain ⟨marker, hmarker, h⟩ := ok_of_bind h
  obtain ⟨-, rfl⟩ := byteAt_ok (ok_of_mapError hmarker)
  obtain ⟨hmarker, h⟩ := ok_of_ite h
  obtain ⟨type, htype, h⟩ := ok_of_bind h
  obtain ⟨-, rfl⟩ := byteAt_ok (ok_of_mapError htype)
  obtain ⟨size, hsize, h⟩ := ok_of_bind h
  obtain ⟨-, rfl⟩ := word32At_ok (ok_of_mapError hsize)
  cases hkind : SampleKind.ofBlockType? (peek file (i + 2)) with
  | none =>
    rw [hkind] at h
    cases h
  | some kind =>
    rw [hkind] at h
    obtain ⟨romSize, hromSize, h⟩ := ok_of_bind h
    obtain ⟨-, h⟩ := ok_of_ite h
    obtain ⟨romOffset, hromOffset, h⟩ := ok_of_bind h
    obtain ⟨hfits, rfl⟩ := word32At_ok (ok_of_mapError hromOffset)
    have hmarker := Decidable.not_not.mp hmarker
    dsimp only at h
    by_cases hempty : (wordAt file (i + 3)).toNat - Command.blockFieldsSize = 0
    · rw [if_pos hempty] at h
      obtain rfl := Except.ok.inj h
      refine ⟨hmarker, hkind, hempty.symm, rfl, fun hfull => absurd rfl hfull, hfits, ?_⟩
      exact (ByteArray.extract_eq_empty_iff.mpr (Nat.min_le_left _ _)).symm
    · rw [if_neg hempty] at h
      obtain ⟨hinRom, h⟩ := ok_of_ite h
      obtain ⟨bytes, hbytes, h⟩ := ok_of_bind h
      obtain ⟨hfits, rfl⟩ := slice_ok (ok_of_mapError hbytes)
      obtain rfl := Except.ok.inj h
      have hsize : (file.extract (i + Command.blockHeaderSize) (i + Command.blockHeaderSize +
          ((wordAt file (i + 3)).toNat - Command.blockFieldsSize))).size =
          (wordAt file (i + 3)).toNat - Command.blockFieldsSize := by
        rw [ByteArray.size_extract]
        omega
      refine ⟨hmarker, hkind, hsize, rfl, fun _ => ?_, ?_, ?_⟩
      · show (wordAt file (i + 11)).toNat + ByteArray.size _ ≤ _
        rw [hsize]
        exact Nat.not_lt.mp hinRom
      · show i + Command.blockHeaderSize + ByteArray.size _ ≤ _
        rwa [hsize]
      · show _ = file.extract _ (i + Command.blockHeaderSize + ByteArray.size _)
        rw [hsize]

/-- The first byte of a command, where its form leaves no choice. -/
def Opcode.byte? : Opcode → Option UInt8
  | write port => some (Command.writeCode port)
  | wait => some 0x61
  | endOfStream => some 0x66
  | dataBlock => some 0x67
  | pause _ | unknown => none

theorem Opcode.byte_eq {byte x : UInt8} {op : Opcode} (h : ofByte byte = op)
    (hx : op.byte? = some x) : byte = x := by
  subst h
  unfold ofByte at hx
  split_ifs at hx with h58 h59 h61 h62 h63 h66 h67 h7n
  · exact h58.trans (Option.some.inj hx)
  · exact h59.trans (Option.some.inj hx)
  · exact h61.trans (Option.some.inj hx)
  · cases hx
  · cases hx
  · exact h66.trans (Option.some.inj hx)
  · exact h67.trans (Option.some.inj hx)
  · cases hx
  · cases hx

namespace Command

/-- The command stands at offset `i` of `file`. -/
inductive At (file : ByteArray) (i : Nat) : Command → Prop
  | write (port : Port) (hcode : peek file i = writeCode port) (hfits : i + 3 ≤ file.size) :
      At file i (.write port (peek file (i + 1)) (peek file (i + 2)))
  | wait (hcode : peek file i = 0x61) (hfits : i + 3 ≤ file.size) :
      At file i (.wait (word16 (peek file (i + 1)) (peek file (i + 2))))
  | pause (samples : UInt32) (hcode : Opcode.ofByte (peek file i) = .pause samples)
      (hfits : i + 1 ≤ file.size) : At file i (.pause (peek file i) samples)
  | endOfStream (hcode : peek file i = 0x66) (hfits : i + 1 ≤ file.size) : At file i .endOfStream
  | block (b : DataBlock) (hcode : peek file i = 0x67) (hblock : b.At file i) :
      At file i (.block b)

/-- What is read stands where it was read. -/
theorem at_of_read {c : Command} (h : read file i = .ok c) : c.At file i := by
  unfold read at h
  obtain ⟨code, hcode, h⟩ := ok_of_bind h
  obtain ⟨hi, rfl⟩ := byteAt_ok (ok_of_mapError hcode)
  cases hopcode : Opcode.ofByte (peek file i) with
  | write port =>
    rw [hopcode] at h
    obtain ⟨register, hregister, h⟩ := ok_of_bind h
    obtain ⟨-, rfl⟩ := byteAt_ok (ok_of_mapError hregister)
    obtain ⟨bytes, hbytes, h⟩ := ok_of_bind h
    obtain ⟨hfits, rfl⟩ := slice_ok (ok_of_mapError hbytes)
    obtain rfl := Except.ok.inj h
    have hdata : peek (file.extract i (i + 3)) 2 = peek file (i + 2) := by
      rw [peek_extract, if_pos (by omega)]
    rw [hdata]
    exact .write port (Opcode.byte_eq hopcode rfl) hfits
  | wait =>
    rw [hopcode] at h
    obtain ⟨samples, hsamples, h⟩ := ok_of_bind h
    obtain ⟨hfits, rfl⟩ := word16At_ok (ok_of_mapError hsamples)
    obtain rfl := Except.ok.inj h
    exact .wait (Opcode.byte_eq hopcode rfl) hfits
  | pause samples =>
    rw [hopcode] at h
    obtain rfl := Except.ok.inj h
    exact .pause samples hopcode hi
  | endOfStream =>
    rw [hopcode] at h
    obtain rfl := Except.ok.inj h
    exact .endOfStream (Opcode.byte_eq hopcode rfl) hi
  | dataBlock =>
    rw [hopcode] at h
    obtain ⟨b, hb, h⟩ := ok_of_bind h
    obtain rfl := Except.ok.inj h
    exact .block b (Opcode.byte_eq hopcode rfl) (DataBlock.at_of_readBlock hb)
  | unknown =>
    rw [hopcode] at h
    cases h

theorem At.fits {c : Command} (h : c.At file i) : i + c.length ≤ file.size := by
  cases h with
  | write port hcode hfits => exact hfits
  | wait hcode hfits => exact hfits
  | pause samples hcode hfits => exact hfits
  | endOfStream hcode hfits => exact hfits
  | block b hcode hblock =>
    have hfits := hblock.fits
    show i + (blockHeaderSize + b.bytes.size) ≤ file.size
    omega

/-- A command ends the stream when its first byte says so. -/
theorem At.isEnd_iff {c : Command} (h : c.At file i) : c.isEnd = true ↔ peek file i = 0x66 := by
  have hpause {samples : UInt32} (hcode : Opcode.ofByte (peek file i) = .pause samples) :
      peek file i ≠ 0x66 := by
    intro heq
    rw [heq] at hcode
    cases hcode
  cases h with
  | write port hcode hfits => cases port <;> simp [isEnd, hcode, writeCode]
  | wait hcode hfits => simp [isEnd, hcode]
  | pause samples hcode hfits => simp [isEnd, hpause hcode]
  | endOfStream hcode hfits => simp [isEnd, hcode]
  | block b hcode hblock => simp [isEnd, hcode]

end Command

/-! ## A run of commands -/

/-- The commands from offset `i` on: each stands where the one before ends, the last ends the stream
or the file. -/
inductive Walk (file : ByteArray) : Nat → List Located → Prop
  | stop {i : Nat} (hend : file.size ≤ i) : Walk file i []
  | last {i : Nat} {c : Command} (hcommand : c.At file i) (hend : c.isEnd = true) :
      Walk file i [⟨i, c⟩]
  | next {i : Nat} {c : Command} {rest : List Located} (hcommand : c.At file i)
      (hend : c.isEnd = false) (hrest : Walk file (i + c.length) rest) :
      Walk file i (⟨i, c⟩ :: rest)

theorem walk_of_commandsOnto {found commands : List Located}
    (h : commandsOnto file i found = .ok commands) :
    ∃ rest, commands = found.reverse ++ rest ∧ Walk file i rest := by
  fun_induction commandsOnto file i found with
  | case1 i found hi e hread => cases h
  | case2 i found hi c hread hend =>
    obtain rfl := Except.ok.inj h
    exact ⟨[⟨i, c⟩], List.reverse_cons, .last (Command.at_of_read hread) hend⟩
  | case3 i found hi c hread hend ih =>
    obtain ⟨rest, rfl, hwalk⟩ := ih h
    refine ⟨⟨i, c⟩ :: rest, ?_, .next (Command.at_of_read hread) (Bool.not_eq_true _ ▸ hend) hwalk⟩
    rw [List.reverse_cons, List.append_assoc, List.singleton_append]
  | case4 i found hi =>
    obtain rfl := Except.ok.inj h
    exact ⟨[], (List.append_nil _).symm, .stop (Nat.not_lt.mp hi)⟩

theorem walk_of_commandsFrom {commands : List Located} (h : commandsFrom file i = .ok commands) :
    Walk file i commands := by
  obtain ⟨rest, rfl, hwalk⟩ := walk_of_commandsOnto h
  exact hwalk

/-- Every command of a walk stands where it says. -/
theorem Walk.at {commands : List Located} (h : Walk file i commands) :
    ∀ c ∈ commands, c.command.At file c.offset := by
  induction h with
  | stop hend => exact fun c hc => absurd hc List.not_mem_nil
  | last hcommand hend => exact List.forall_mem_singleton.mpr hcommand
  | next hcommand hend hrest ih => exact List.forall_mem_cons.mpr ⟨hcommand, ih⟩

end ChipReplay
