import ChipReplay.Bytes.Basic
import ChipReplay.Text.Hex
/-!
# VGM headers

A header holds 32-bit fields at fixed offsets. Offset fields count from their own position, and
zero means that there is nothing to point at; a file whose data offset is zero has its first
command at `0x40`. `Header.read` checks the identity string and resolves the fields the device
needs.
-/

namespace ChipReplay

/-- The header fields the program knows. -/
inductive HeaderField where
  | ident
  | eofOffset
  | version
  | gd3Offset
  | totalSamples
  | loopOffset
  | loopSamples
  | dataOffset
  | clock
deriving DecidableEq

namespace HeaderField

/-- Where the field lies in the file. -/
def offset : HeaderField → Nat
  | ident => 0x00
  | eofOffset => 0x04
  | version => 0x08
  | gd3Offset => 0x14
  | totalSamples => 0x18
  | loopOffset => 0x1C
  | loopSamples => 0x20
  | dataOffset => 0x34
  | clock => 0x4C

/-- All fields, in file order. -/
def all : List HeaderField :=
  [ident, eofOffset, version, gd3Offset, totalSamples, loopOffset, loopSamples, dataOffset, clock]

/-- The field as it stands. -/
def read (f : HeaderField) (file : ByteArray) : Except OutOfRange UInt32 :=
  Bytes.word32At file f.offset

/-- The sum of two words, held at the largest word. -/
def addSaturating (x y : UInt32) : UInt32 :=
  if x.toNat + y.toNat < 0x100000000 then x + y else 0xFFFFFFFF

/-- The file offset that the field points at, zero for none. An offset past the last word is
held there. -/
def resolve (f : HeaderField) (file : ByteArray) : Except OutOfRange UInt32 := do
  let relative ← f.read file
  return if relative = 0 then 0 else addSaturating (UInt32.ofNat f.offset) relative

end HeaderField

/-- The four bytes every VGM file begins with. -/
def vgmIdent : List UInt8 := [0x56, 0x67, 0x6D, 0x20]

/-- Where commands begin when the data offset is zero. -/
def defaultDataOffset : Nat := 0x40

/-- Why a header cannot be read. -/
inductive HeaderError where
  /-- The file begins with other bytes than `vgmIdent`. -/
  | badIdent (found : List UInt8)
  /-- The file ends inside the header. -/
  | truncated (cause : OutOfRange)
deriving DecidableEq

/-- The header fields the device needs, offsets counted from the start of the file. -/
structure Header where
  version : UInt32
  totalSamples : UInt32
  /-- Offset of the first command. -/
  start : UInt32
  /-- Offset of the loop point, zero for none. -/
  loop : UInt32
  loopSamples : UInt32
  /-- The clock field with its flag bits. -/
  clock : UInt32
deriving DecidableEq

namespace Header

/-- The header of `file`. -/
def read (file : ByteArray) : Except HeaderError Header := do
  let ident ← (Bytes.slice file HeaderField.ident.offset 4).mapError .truncated
  if ident.toList ≠ vgmIdent then throw (.badIdent ident.toList)
  let start ← (HeaderField.dataOffset.resolve file).mapError .truncated
  let version ← (HeaderField.version.read file).mapError .truncated
  let totalSamples ← (HeaderField.totalSamples.read file).mapError .truncated
  let loop ← (HeaderField.loopOffset.resolve file).mapError .truncated
  let loopSamples ← (HeaderField.loopSamples.read file).mapError .truncated
  let clock ← (HeaderField.clock.read file).mapError .truncated
  return {
    version, totalSamples, loop, loopSamples, clock
    start := if start = 0 then UInt32.ofNat defaultDataOffset else start }

/-- The chip's clock in Hz: the clock field without its two flag bits. -/
def clockHz (h : Header) : UInt32 := h.clock &&& 0x3FFFFFFF

/-- Whether the chip is the six-channel variant. -/
def isVariantB (h : Header) : Bool := h.clock &&& 0x80000000 != 0

/-- Whether the stream has a loop point. -/
def hasLoop (h : Header) : Bool := h.loop != 0

/-- The version, whose digits are those of the hexadecimal field. -/
def versionText (h : Header) : String :=
  Hex.lower (h.version >>> 8).toNat ++ "." ++ Hex.padTo 2 (Hex.lower (h.version &&& 0xFF).toNat)

end Header
end ChipReplay
