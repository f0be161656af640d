import ChipReplay.Chip.Register
/-!
# VGM opcodes

The first byte of a command says what it is and how many operand bytes follow. The player and
the preparation of a file share this table, so both take a stream apart in the same way.
-/

namespace ChipReplay

/-- What the first byte of a command announces. -/
inductive Opcode where
  /-- A register write: register and data follow. -/
  | write (port : Port)
  /-- A wait whose 16-bit count follows. -/
  | wait
  /-- A wait of a fixed number of samples. -/
  | pause (samples : UInt32)
  /-- The end of the stream. -/
  | endOfStream
  /-- A data block. -/
  | dataBlock
  /-- Anything else. -/
  | unknown
deriving DecidableEq

namespace Opcode

/-- Samples in a frame at 60 Hz. -/
def frame60 : UInt32 := 735

/-- Samples in a frame at 50 Hz. -/
def frame50 : UInt32 := 882

/-- What `byte` announces. -/
def ofByte (byte : UInt8) : Opcode :=
  if byte = 0x58 then .write .a
  else if byte = 0x59 then .write .b
  else if byte = 0x61 then .wait
  else if byte = 0x62 then .pause frame60
  else if byte = 0x63 then .pause frame50
  else if byte = 0x66 then .endOfStream
  else if byte = 0x67 then .dataBlock
  else if byte &&& 0xF0 = 0x70 then .pause ((byte &&& 0x0F).toUInt32 + 1)
  else .unknown

/-- Whether the command writes a register. -/
def isWrite : Opcode → Bool
  | write _ => true
  | _ => false

end Opcode
end ChipReplay
