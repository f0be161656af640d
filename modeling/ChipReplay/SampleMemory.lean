import ChipReplay.Bytes.Basic
/-!
# Sample memory

External memory for ADPCM samples. It holds up to `sampleMemorySize` bytes; what is kept here
reaches to the highest byte written so far, the rest being zero. The chip's fetches from it can
be gated.
-/

namespace ChipReplay

/-- Bytes the sample memory holds. -/
def sampleMemorySize : Nat := 0x800000

/-- Sample memory. -/
structure SampleMemory where
  /-- The bytes up to the highest one written. -/
  data : ByteArray := .empty
  /-- Whether the chip may fetch samples. -/
  pcmEnabled : Bool := false
  /-- How many bytes were written in all. -/
  bytesWritten : Nat := 0

namespace SampleMemory

/-- `data` with zeros behind it up to `size` bytes. -/
def extend (data : ByteArray) (size : Nat) : ByteArray :=
  if data.size < size then data ++ Bytes.zeros (size - data.size) else data

/-- `bytes` are written from `offset` on. -/
def write (m : SampleMemory) (offset : Nat) (bytes : ByteArray) : SampleMemory :=
  let data := extend m.data (offset + bytes.size)
  { m with
    data := Bytes.overwrite data offset bytes
    bytesWritten := m.bytesWritten + bytes.size }

/-- Gates the fetches. -/
def setPcmEnabled (m : SampleMemory) (pcmEnabled : Bool) : SampleMemory := { m with pcmEnabled }

/-- The byte at `offset`. -/
def byte (m : SampleMemory) (offset : Nat) : UInt8 := Bytes.peek m.data offset

end SampleMemory
end ChipReplay
