import ChipReplay.Bytes.Words
import ChipReplay.Chip.Register
import ChipReplay.Upload.Destination
import ChipReplay.Vgm.Header
/-!
# Sample blocks and the errors of preparation

Data blocks of a file carry parts of two sample ROMs, one for each ADPCM unit. A block that was
cut out of the file is kept with its bytes in upload order.
-/

namespace ChipReplay

/-- The ADPCM unit that a sample ROM belongs to. -/
inductive SampleKind where
  | a
  | b
deriving DecidableEq

namespace SampleKind

/-- Where samples of this kind are uploaded to. -/
def destination : SampleKind → Destination
  | a => .adpcmA
  | b => .adpcmB

/-- The kind of a data block of type `type`. -/
def ofBlockType? (type : UInt8) : Option SampleKind :=
  if type = 0x82 then some a else if type = 0x83 then some b else none

/-- The kind whose address bits 16 to 23 the register at `address` sets: the high bytes of the
start and end addresses. -/
def ofBankRegister? (address : UInt16) : Option SampleKind :=
  if (0x118 ≤ address ∧ address ≤ 0x11D) ∨ (0x128 ≤ address ∧ address ≤ 0x12D) then some a
  else if address = 0x013 ∨ address = 0x015 then some b
  else none

/-- Blocks of kind `a` come before those of kind `b`. -/
def rank : SampleKind → Nat
  | a => 0
  | b => 1

end SampleKind

/-- A data block as the file holds it. -/
structure DataBlock where
  kind : SampleKind
  /-- Size of the whole sample ROM. -/
  romSize : UInt32
  /-- Where in the ROM the bytes begin. -/
  romOffset : UInt32
  bytes : ByteArray

/-- Samples to be uploaded. -/
structure SampleBlock where
  kind : SampleKind
  /-- Offset in sample memory. -/
  offset : Nat
  /-- Offset in the sample ROM. -/
  romOffset : Nat
  /-- Size of the whole sample ROM. -/
  romSize : UInt32
  /-- The bytes, with every whole 32-bit word reversed for the upload. -/
  data : ByteArray

/-- Why a file cannot be prepared. -/
inductive PrepareError where
  /-- The file ends inside a header field or a command. -/
  | truncated (cause : OutOfRange)
  /-- The file begins with other bytes than `vgmIdent`. -/
  | badIdent (found : List UInt8)
  /-- A command the device cannot play. -/
  | unknownCommand (opcode : UInt8) (offset : Nat)
  /-- A data block that is not sample ROM. -/
  | unsupportedBlock (type : UInt8) (offset : Nat)
  /-- A data block of a ROM of no bytes. -/
  | emptyRom (offset : Nat)
  /-- A data block without its marker byte. -/
  | badMarker (marker : UInt8) (offset : Nat)
  /-- A data block that reaches past the addresses of the ADPCM units. -/
  | blockOutOfRange (romOffset length offset : Nat)
  /-- The samples do not fit in sample memory. -/
  | memoryFull (needed capacity : Nat)
deriving DecidableEq

namespace SampleBlock

/-- The samples of a data block, placed where the ROM has them. -/
def ofDataBlock (b : DataBlock) : SampleBlock where
  kind := b.kind
  offset := b.romOffset.toNat
  romOffset := b.romOffset.toNat
  romSize := b.romSize
  data := Bytes.swapWords b.bytes

/-- End of the block in sample memory. -/
def stop (b : SampleBlock) : Nat := b.offset + b.data.size

/-- End of the block in the sample ROM. -/
def romStop (b : SampleBlock) : Nat := b.romOffset + b.data.size

/-- Whether `b` comes before `c` or stands level with it: by kind, then by ROM offset. -/
def precedes (b c : SampleBlock) : Bool :=
  b.kind.rank < c.kind.rank || (b.kind == c.kind && b.romOffset ≤ c.romOffset)

/-- Whether `next` continues `b` without a gap. -/
def continues (b next : SampleBlock) : Bool :=
  b.kind == next.kind && b.romStop == next.romOffset

/-- `b` with the bytes of `next` behind its own. -/
def append (b next : SampleBlock) : SampleBlock := { b with data := b.data ++ next.data }

/-- Every block that continues the one before it is joined to that one; `last` is the block
before those of the list. -/
def mergeOnto (last : SampleBlock) : List SampleBlock → List SampleBlock
  | [] => [last]
  | next :: rest =>
    if last.continues next then mergeOnto (last.append next) rest
    else last :: mergeOnto next rest

/-- Every block that continues the one before it is joined to that one. -/
def merge : List SampleBlock → List SampleBlock
  | [] => []
  | first :: rest => mergeOnto first rest

end SampleBlock
end ChipReplay
