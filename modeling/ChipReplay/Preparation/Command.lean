import ChipReplay.Preparation.Sample
import ChipReplay.Vgm.Opcode
/-!
# Commands of a file

A file is a header and a run of commands. `Command.read` reads the command at an offset and
`commandsFrom` reads them all, up to the first end of the stream or the end of the file;
`Command.encode` writes a command back. Data blocks are read whole, and written as nothing.
-/

namespace ChipReplay

/-- One command of a file. -/
inductive Command where
  /-- A register write. -/
  | write (port : Port) (register data : UInt8)
  /-- A wait with its count spelled out. -/
  | wait (samples : UInt16)
  /-- A wait whose count is part of the opcode `code`. -/
  | pause (code : UInt8) (samples : UInt32)
  | endOfStream
  | block (b : DataBlock)

namespace Command

/-- Bytes of a data block before its samples. -/
def blockHeaderSize : Nat := 15

/-- Bytes counted in a data block's size that are not samples: the ROM's size and the offset in
it. -/
def blockFieldsSize : Nat := 8

/-- ADPCM addresses lie below this. -/
def addressLimit : Nat := 0x1000000

/-- The data block at offset `i` of `file`. -/
def readBlock (file : ByteArray) (i : Nat) : Except PrepareError DataBlock := do
  let marker ← (Bytes.byteAt file (i + 1)).mapError .truncated
  if marker ≠ 0x66 then throw (.badMarker marker i)
  let type ← (Bytes.byteAt file (i + 2)).mapError .truncated
  let size ← (Bytes.word32At file (i + 3)).mapError .truncated
  let some kind := SampleKind.ofBlockType? type | throw (.unsupportedBlock type i)
  let romSize ← (Bytes.word32At file (i + 7)).mapError .truncated
  if romSize = 0 then throw (.emptyRom i)
  let romOffset ← (Bytes.word32At file (i + 11)).mapError .truncated
  let length := size.toNat - blockFieldsSize
  if length = 0 then return { kind, romSize, romOffset, bytes := .empty }
  if addressLimit < romOffset.toNat + length then
    throw (.blockOutOfRange romOffset.toNat length i)
  let bytes ← (Bytes.slice file (i + blockHeaderSize) length).mapError .truncated
  return { kind, romSize, romOffset, bytes }

/-- The command at offset `i` of `file`. -/
def read (file : ByteArray) (i : Nat) : Except PrepareError Command := do
  let code ← (Bytes.byteAt file i).mapError .truncated
  match Opcode.ofByte code with
  | .write port =>
    let register ← (Bytes.byteAt file (i + 1)).mapError .truncated
    let bytes ← (Bytes.slice file i 3).mapError .truncated
    return .write port register (Bytes.peek bytes 2)
  | .wait =>
    let samples ← (Bytes.word16At file (i + 1)).mapError .truncated
    return .wait samples
  | .pause samples => return .pause code samples
  | .endOfStream => return .endOfStream
  | .dataBlock => return .block (← readBlock file i)
  | .unknown => throw (.unknownCommand code i)

/-- Bytes the command takes in its file. -/
def length : Command → Nat
  | write .. | wait _ => 3
  | pause .. | endOfStream => 1
  | block b => blockHeaderSize + b.bytes.size

theorem length_pos (c : Command) : 0 < c.length := by
  cases c <;> simp only [length, blockHeaderSize] <;> omega

/-- The opcode of a write to `port`. -/
def writeCode : Port → UInt8
  | .a => 0x58
  | .b => 0x59

/-- `out` with the command's bytes behind it. Data blocks leave no trace. -/
def append (out : ByteArray) : Command → ByteArray
  | write port register data => ((out.push (writeCode port)).push register).push data
  | wait samples => ((out.push 0x61).push samples.toUInt8).push (samples >>> 8).toUInt8
  | pause code _ => out.push code
  | endOfStream => out.push 0x66
  | block _ => out

/-- The bytes of the command in a stream. -/
def encode (c : Command) : ByteArray := append .empty c

/-- How many bytes `encode` gives. -/
def encodedLength : Command → Nat
  | block _ => 0
  | c => c.length

/-- Whether the command ends the stream. -/
def isEnd : Command → Bool
  | endOfStream => true
  | _ => false

/-- The block, if the command is one. -/
def block? : Command → Option DataBlock
  | block b => some b
  | _ => none

/-- The kind of sample whose bank the command sets, if it sets one. -/
def bankKind? : Command → Option SampleKind
  | write port register _ => SampleKind.ofBankRegister? (port.address register)
  | _ => none

/-- Samples the command waits. -/
def waitSamples : Command → Nat
  | wait samples => samples.toNat
  | pause _ samples => samples.toNat
  | _ => 0

end Command

/-- A command and where it stands in its file. -/
structure Located where
  offset : Nat
  command : Command

/-- The commands of `file` from offset `i` on, behind those of `found`, which holds the earlier
ones newest first. -/
def commandsOnto (file : ByteArray) (i : Nat) (found : List Located) :
    Except PrepareError (List Located) :=
  if i < file.size then
    match Command.read file i with
    | .error e => .error e
    | .ok c =>
      if c.isEnd then .ok (⟨i, c⟩ :: found).reverse
      else commandsOnto file (i + c.length) (⟨i, c⟩ :: found)
  else .ok found.reverse
termination_by file.size - i
decreasing_by
  have := c.length_pos
  omega

/-- The commands of `file` from offset `start` on: up to the first end of the stream, or to the
end of the file. -/
def commandsFrom (file : ByteArray) (start : Nat) : Except PrepareError (List Located) :=
  commandsOnto file start []

end ChipReplay
