import ChipReplay.Window.Region
/-!
# Refill requests

A refill asks the host to copy a part of the stream into the window. The player only asks for
whole regions; what arrives over the wire may ask for any length.
-/

namespace ChipReplay

/-- A request for a part of the stream. -/
structure Refill where
  /-- Window offset the data goes to. -/
  target : UInt32
  /-- Stream offset of its first byte. -/
  source : UInt32
  /-- How many bytes. -/
  length : UInt32
deriving DecidableEq

/-- The request to fill `region` with the stream from `source` on. -/
def Refill.ofRegion (region : Region) (source : UInt32) : Refill :=
  ⟨UInt32.ofNat region.start, source, UInt32.ofNat regionSize⟩

end ChipReplay
