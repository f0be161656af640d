import ChipReplay.Gzip.Checksum
import ChipReplay.Gzip.Inflate
/-!
# Gzip files

A gzip file is a header with optional fields, compressed data, and a trailer with the checksum
and the length of what was compressed. Only the first member is read.
-/

namespace ChipReplay.Gzip

/-- Why a gzip file cannot be read. -/
inductive GzipError where
  | badHeader
  | fieldTooLong
  /-- The header or the trailer ends too early. -/
  | unexpectedEnd
  /-- The compressed data ends too early. -/
  | incompleteData
  | corruptData
  | badChecksum
deriving DecidableEq

/-- The wording of a failure. -/
def GzipError.message : GzipError → String
  | badHeader => "invalid gzip header"
  | fieldTooLong => "gzip header field too long"
  | unexpectedEnd => "unexpected end of file"
  | incompleteData => "incomplete deflate stream"
  | corruptData => "corrupt deflate stream"
  | badChecksum => "corrupt gzip stream does not have a matching checksum"

/-- Whether `bytes` begin like a gzip file. -/
def isGzip (bytes : ByteArray) : Bool :=
  2 ≤ bytes.size && Bytes.peek bytes 0 == 0x1F && Bytes.peek bytes 1 == 0x8B

/-- The longest text field of a header. -/
def maxFieldLength : Nat := 65535

/-- The offset behind the zero byte that ends the text at `start`; at most `limit` bytes are
looked at. -/
def skipText (bytes : ByteArray) (start : Nat) : Nat → Except GzipError Nat
  | 0 => .error .fieldTooLong
  | limit + 1 =>
    if start < bytes.size then
      if Bytes.peek bytes start = 0 then .ok (start + 1) else skipText bytes (start + 1) limit
    else .error .unexpectedEnd

/-- Whether bit `n` of the header's flags is set. -/
def hasFlag (flags : UInt8) (n : Nat) : Bool := flags.toNat.testBit n

/-- The offset behind the header. -/
def skipHeader (bytes : ByteArray) : Except GzipError Nat := do
  if bytes.size < 10 then throw .unexpectedEnd
  let flags := Bytes.peek bytes 3
  if Bytes.peek bytes 2 ≠ 8 ∨ flags &&& 0xE0 ≠ 0 then throw .badHeader
  let pos ←
    if hasFlag flags 2 then
      match Bytes.word16At bytes 10 with
      | .ok length =>
        if 12 + length.toNat ≤ bytes.size then pure (12 + length.toNat) else throw .unexpectedEnd
      | .error _ => throw .unexpectedEnd
    else pure 10
  let pos ← if hasFlag flags 3 then skipText bytes pos (maxFieldLength + 1) else pure pos
  let pos ← if hasFlag flags 4 then skipText bytes pos (maxFieldLength + 1) else pure pos
  if hasFlag flags 1 then
    match Bytes.word16At bytes pos with
    | .ok check =>
      if check ≠ (crc32 bytes 0 pos).toUInt16 then throw .badChecksum
      return pos + 2
    | .error _ => throw .unexpectedEnd
  else return pos

/-- The data that the gzip file `bytes` holds. -/
def decompress (bytes : ByteArray) : Except GzipError ByteArray := do
  let start ← skipHeader bytes
  match inflate bytes start with
  | .error .truncated => throw .incompleteData
  | .error .corrupt => throw .corruptData
  | .ok (pos, out) =>
    match Bytes.word32At bytes pos, Bytes.word32At bytes (pos + 4) with
    | .ok check, .ok length =>
      if check ≠ crc32 out 0 out.size ∨ length ≠ UInt32.ofNat out.size then throw .badChecksum
      return out
    | _, _ => throw .unexpectedEnd

end ChipReplay.Gzip
