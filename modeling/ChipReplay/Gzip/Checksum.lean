import ChipReplay.Bytes.Basic
/-!
# The gzip checksum

CRC-32 with the reflected polynomial `0xEDB88320`. The table holds the effect of one byte on an
empty remainder.
-/

namespace ChipReplay.Gzip

/-- One bit is divided out of the remainder. -/
def crcStep (r : UInt32) : UInt32 :=
  if r &&& 1 = 1 then (r >>> 1) ^^^ 0xEDB88320 else r >>> 1

/-- Eight bits are divided out of the remainder. -/
def crcByteRemainder (r : UInt32) : UInt32 := Nat.repeat crcStep 8 r

/-- The remainders of all bytes. -/
def crcTable : Array UInt32 := (Array.range 256).map fun i => crcByteRemainder (UInt32.ofNat i)

/-- One byte is added to the running remainder. -/
def crcUpdate (r : UInt32) (byte : UInt8) : UInt32 :=
  crcTable.getD ((r ^^^ byte.toUInt32) &&& 0xFF).toNat 0 ^^^ (r >>> 8)

/-- The checksum of the bytes `[start, start + length)` of `bytes`. -/
def crc32 (bytes : ByteArray) (start length : Nat) : UInt32 :=
  Nat.fold length (fun i _ r => crcUpdate r (Bytes.peek bytes (start + i))) 0xFFFFFFFF
    ^^^ 0xFFFFFFFF

end ChipReplay.Gzip
