import ChipReplay.Proofs.Preparation.Samples
import ChipReplay.Proofs.Preparation.Unended
/-!
# Files of data blocks

Blocks put behind a plain header are a file (`fileOf`). Reading that file gives the blocks back
(`commandsFrom_fileOf`), so preparing it is placing them (`prepare_fileOf`).
-/

namespace ChipReplay

open Bytes SampleBlock

theorem slice_append (a b c : ByteArray) : slice (a ++ (b ++ c)) a.size b.size = .ok b := by
  have hsize : (a ++ (b ++ c)).size = a.size + (b.size + c.size) := by
    rw [ByteArray.size_append, ByteArray.size_append]
  rw [slice, if_pos (by omega)]
  congr 1
  apply ext_peek
  · rw [ByteArray.size_extract]
    omega
  · intro i hi
    rw [ByteArray.size_extract] at hi
    rw [peek_extract, if_pos (by omega), peek_append, if_neg (by omega), Nat.add_sub_cancel_left,
      peek_append, if_pos (by omega)]

namespace DataBlock

/-- What stands in front of the samples of a block: its type, and the words `size`, `romSize` and
`romOffset`. -/
def headerOf (type : UInt8) (size romSize romOffset : UInt32) : ByteArray :=
  ⟨#[0x67, 0x66, type,
    size.toUInt8, (size >>> 8).toUInt8, (size >>> 16).toUInt8, (size >>> 24).toUInt8,
    romSize.toUInt8, (romSize >>> 8).toUInt8, (romSize >>> 16).toUInt8, (romSize >>> 24).toUInt8,
    romOffset.toUInt8, (romOffset >>> 8).toUInt8, (romOffset >>> 16).toUInt8,
    (romOffset >>> 24).toUInt8]⟩

/-- The bytes of a block in front of its samples. -/
def header (b : DataBlock) : ByteArray :=
  headerOf (if b.kind = .a then 0x82 else 0x83)
    (UInt32.ofNat (Command.blockFieldsSize + b.bytes.size)) b.romSize b.romOffset

/-- The block is one that a file can have. -/
structure Writable (b : DataBlock) : Prop where
  rom : b.romSize ≠ 0
  filled : b.bytes.size ≠ 0
  inRom : b.romOffset.toNat + b.bytes.size ≤ Command.addressLimit

instance (b : DataBlock) : Decidable b.Writable :=
  decidable_of_iff (b.romSize ≠ 0 ∧ b.bytes.size ≠ 0 ∧
      b.romOffset.toNat + b.bytes.size ≤ Command.addressLimit)
    ⟨fun h => ⟨h.1, h.2.1, h.2.2⟩, fun h => ⟨h.rom, h.filled, h.inRom⟩⟩

section

variable {type : UInt8} {size romSize romOffset : UInt32} {file : ByteArray} {i : Nat}

/-- The fields of a block whose header stands at offset `i`. -/
theorem fields_of_headerOf (hfits : i + 15 ≤ file.size)
    (hheader : ∀ j < 15, peek file (i + j) = peek (headerOf type size romSize romOffset) j) :
    byteAt file i = .ok 0x67 ∧ byteAt file (i + 1) = .ok 0x66 ∧ byteAt file (i + 2) = .ok type ∧
      word32At file (i + 3) = .ok size ∧ word32At file (i + 7) = .ok romSize ∧
      word32At file (i + 11) = .ok romOffset := by
  have hbyte (j : Nat) (hj : j < 15) {x : UInt8}
      (hx : peek (headerOf type size romSize romOffset) j = x) : byteAt file (i + j) = .ok x := by
    rw [byteAt_of_lt (by omega), hheader j hj, hx]
  have hword (j : Nat) (hj : j + 3 < 15) {x : UInt32}
      (hx : word32 (peek (headerOf type size romSize romOffset) j)
        (peek (headerOf type size romSize romOffset) (j + 1))
        (peek (headerOf type size romSize romOffset) (j + 2))
        (peek (headerOf type size romSize romOffset) (j + 3)) = x) :
      word32At file (i + j) = .ok x := by
    rw [word32At, if_pos (by omega), hheader j (by omega), Nat.add_assoc, hheader _ (by omega),
      Nat.add_assoc, hheader _ (by omega), Nat.add_assoc, hheader _ hj, hx]
  exact ⟨hbyte 0 (by omega) rfl, hbyte 1 (by omega) rfl, hbyte 2 (by omega) rfl,
    hword 3 (by omega) (word32_le32 size), hword 7 (by omega) (word32_le32 romSize),
    hword 11 (by omega) (word32_le32 romOffset)⟩

end

/-- A block that was written is read back. -/
theorem Writable.read_eq {b : DataBlock} (hb : b.Writable) (before after : ByteArray) :
    Command.read (before ++ b.header ++ (b.bytes ++ after)) before.size = .ok (.block b) := by
  have hsamples := slice_append (before ++ b.header) b.bytes after
  -- from here on only the size of the file and the bytes of the header are needed
  generalize hfile : before ++ b.header ++ (b.bytes ++ after) = file at hsamples ⊢
  have hheader : b.header.size = 15 := rfl
  have hfront : (before ++ b.header).size = before.size + 15 := by
    rw [ByteArray.size_append, hheader]
  have hsize : file.size = before.size + 15 + (b.bytes ++ after).size := by
    rw [← hfile, ByteArray.size_append, hfront]
  have hpeek (j : Nat) (hj : j < 15) : peek file (before.size + j) = peek b.header j := by
    rw [← hfile, peek_append, if_pos (by omega), peek_append, if_neg (by omega),
      Nat.add_sub_cancel_left]
  obtain ⟨hcode, hmarker, htype, hcount, hrom, hoffset⟩ :=
    fields_of_headerOf (show before.size + 15 ≤ file.size by omega) hpeek
  have hkind : SampleKind.ofBlockType? (if b.kind = .a then 0x82 else 0x83) = some b.kind := by
    cases b.kind <;> rfl
  have hinRom := hb.inRom
  have hlength : (UInt32.ofNat (Command.blockFieldsSize + b.bytes.size)).toNat -
      Command.blockFieldsSize = b.bytes.size := by
    unfold Command.addressLimit at hinRom
    unfold Command.blockFieldsSize
    rw [UInt32.toNat_ofNat_of_lt' (show 8 + b.bytes.size < 2 ^ 32 by omega)]
    exact Nat.add_sub_cancel_left 8 _
  rw [hfront] at hsamples
  have hread : Command.readBlock file before.size = .ok b := by
    unfold Command.readBlock
    simp only [hmarker, htype, hcount, hrom, hoffset, hkind, hlength, hsamples,
      Command.blockHeaderSize, if_neg hb.filled, if_neg hb.rom, if_neg (Nat.not_lt.mpr hinRom),
      Except.mapError, bind, Except.bind, pure, Except.pure]
    rfl
  unfold Command.read
  simp only [hcode, hread, Except.mapError, bind, Except.bind]
  rfl

end DataBlock

namespace Preparation

variable {found : List DataBlock}

/-- The blocks as bytes, and the end of the stream behind them. -/
def bytesOf : List DataBlock → ByteArray
  | [] => ⟨#[0x66]⟩
  | b :: rest => b.header ++ (b.bytes ++ bytesOf rest)

/-- A file that has nothing but data blocks. -/
def fileOf (found : List DataBlock) : ByteArray := plainHeader ++ bytesOf found

/-- What such a file holds from offset `i` on. -/
def commandsOf (i : Nat) : List DataBlock → List Located
  | [] => [⟨i, .endOfStream⟩]
  | b :: rest => ⟨i, .block b⟩ :: commandsOf (i + (Command.block b).length) rest

theorem blocks_commandsOf (i : Nat) (found : List DataBlock) :
    (commandsOf i found).filterMap (fun c => c.command.block?) = found := by
  induction found generalizing i with
  | nil => rfl
  | cons b rest ih => exact congrArg (b :: ·) (ih _)

theorem commandsOnto_bytesOf (hfound : ∀ b ∈ found, b.Writable) (before : ByteArray)
    (earlier : List Located) : commandsOnto (before ++ bytesOf found) before.size earlier =
      .ok (earlier.reverse ++ commandsOf before.size found) := by
  induction found generalizing before earlier with
  | nil =>
    have hsize : (before ++ bytesOf []).size = before.size + 1 := ByteArray.size_append
    have hcode : byteAt (before ++ bytesOf []) before.size = .ok 0x66 := by
      rw [byteAt_of_lt (by omega), peek_append, if_neg (by omega), Nat.sub_self]
      rfl
    have hread : Command.read (before ++ bytesOf []) before.size = .ok .endOfStream := by
      unfold Command.read
      simp only [hcode, Except.mapError, bind, Except.bind]
      rfl
    have hend : Command.endOfStream.isEnd = true := rfl
    rw [commandsOnto, if_pos (by omega), hread]
    dsimp only
    rw [if_pos hend, List.reverse_cons]
    rfl
  | cons b rest ih =>
    obtain ⟨hb, hrest⟩ := List.forall_mem_cons.mp hfound
    have hfile : before ++ bytesOf (b :: rest) =
        before ++ b.header ++ b.bytes ++ bytesOf rest := by
      rw [bytesOf, ByteArray.append_assoc, ByteArray.append_assoc]
    have hread : Command.read (before ++ bytesOf (b :: rest)) before.size = .ok (.block b) := by
      have hwritten := hb.read_eq before (bytesOf rest)
      rwa [← ByteArray.append_assoc, ← hfile] at hwritten
    have hlength : (before ++ b.header ++ b.bytes).size =
        before.size + (Command.block b).length := by
      rw [ByteArray.size_append, ByteArray.size_append, Nat.add_assoc]
      rfl
    have hstands := (Command.at_of_read hread).lt_size
    have hend : ¬ (Command.block b).isEnd = true := Bool.false_ne_true
    have hlater := ih hrest (before ++ b.header ++ b.bytes) (⟨before.size, .block b⟩ :: earlier)
    rw [commandsOnto, if_pos hstands, hread]
    dsimp only
    rw [if_neg hend, hfile, ← hlength, hlater, List.reverse_cons, List.append_assoc, hlength]
    rfl

/-- Blocks that were written are read back. -/
theorem commandsFrom_fileOf (hfound : ∀ b ∈ found, b.Writable) :
    commandsFrom (fileOf found) 0x40 = .ok (commandsOf 0x40 found) :=
  commandsOnto_bytesOf hfound plainHeader []

/-- A file of data blocks is prepared as placing them says. -/
theorem prepare_fileOf (found : List DataBlock) (blocks : List SampleBlock) (banks : BankMap)
    (hfound : ∀ b ∈ found, b.Writable)
    (hplaced : placeBlocks (mergedBlocks (sampleBlocks (commandsOf 0x40 found))) =
      .ok (blocks, banks)) :
    ∃ p, prepare (fileOf found) = .ok p ∧ p.blocks = blocks ∧
      dataBlocks (fileOf found) = found := by
  have hplain : plainHeader.size = 0x40 := by decide
  obtain ⟨hident, hstart, hloop⟩ := header_append plainHeader (bytesOf found)
    (by rw [hplain]; decide)
  have hident : checkIdent (fileOf found) = .ok () := hident.trans (by decide +kernel)
  have hstart : startOf (fileOf found) = .ok 0x40 := hstart.trans (by decide +kernel)
  have hloop : pointer (fileOf found) .loopOffset = .ok 0 := hloop.trans (by decide +kernel)
  have hfits : 0x40 ≤ (fileOf found).size := by
    rw [fileOf, ByteArray.size_append, hplain]
    exact Nat.le_add_right _ _
  obtain ⟨p, hprepare, hblocks, hmade⟩ :=
    prepare_ok hident hstart hloop hfits (commandsFrom_fileOf hfound) hplaced
  refine ⟨p, hprepare, hblocks, ?_⟩
  rw [hmade.dataBlocks_eq, blocks_commandsOf]

end Preparation
end ChipReplay
