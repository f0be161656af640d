import ChipReplay.Chip.Register
/-!
# FM channels

The chip has six FM channels, numbered from zero here. The key register names them by slot
codes that leave out 3 and 7, so that bit 2 of a code is the port of the channel's registers and
the low two bits its place in the port.
-/

namespace ChipReplay

/-- How many FM channels the chip has. -/
def fmChannelCount : Nat := 6

/-- A set of FM channels, bit `n` for channel `n`. -/
structure ChannelSet where
  bits : BitVec 6
deriving DecidableEq

namespace ChannelSet

/-- Every channel. -/
def all : ChannelSet := ⟨0x3F#6⟩

/-- No channel. -/
def empty : ChannelSet := ⟨0#6⟩

/-- The set of the low six bits of `byte`. -/
def ofByte (byte : UInt8) : ChannelSet := ⟨byte.toBitVec.setWidth 6⟩

/-- The set as a byte. -/
def toByte (s : ChannelSet) : UInt8 := ⟨s.bits.setWidth 8⟩

/-- Whether `channel` is in the set; numbers above 5 are in none. -/
def contains (s : ChannelSet) (channel : Nat) : Bool := s.bits.getLsbD channel

/-- The set of `channel` alone, empty for numbers above 5. -/
def single (channel : Nat) : ChannelSet :=
  if channel < fmChannelCount then ⟨1#6 <<< channel⟩ else empty

/-- The channels not in `s`. -/
def complement (s : ChannelSet) : ChannelSet := ⟨~~~s.bits⟩

/-- The channels of `s` that are not in `t`. -/
def diff (s t : ChannelSet) : ChannelSet := ⟨s.bits &&& ~~~t.bits⟩

/-- The channels of `s` and of `t`. -/
def union (s t : ChannelSet) : ChannelSet := ⟨s.bits ||| t.bits⟩

/-- The channels of the set, lowest first. -/
def toList (s : ChannelSet) : List Nat :=
  (List.range fmChannelCount).filter s.contains

theorem lt_of_contains {s : ChannelSet} {channel : Nat} (h : s.contains channel = true) :
    channel < fmChannelCount :=
  BitVec.lt_of_getLsbD h

theorem mem_toList {s : ChannelSet} {channel : Nat} :
    channel ∈ s.toList ↔ s.contains channel = true := by
  simp only [toList, List.mem_filter, List.mem_range]
  exact ⟨fun h => h.2, fun h => ⟨lt_of_contains h, h⟩⟩

end ChannelSet

namespace FmChannel

/-- Slot code of each channel in the key register. -/
def slots : List UInt8 := [0, 1, 2, 4, 5, 6]

/-- The slot code of `channel`. -/
def slot? (channel : Nat) : Option UInt8 := slots[channel]?

/-- The channel with slot code `slot`. -/
def ofSlot? (slot : UInt8) : Option Nat := slots.idxOf? slot

/-- The channel whose pitch the register at `address` sets. `0xA0`–`0xA2` hold the low bits of
the F-number, `0xA4`–`0xA6` the block and the high bits; on the first port `0xA8`–`0xAA` and
`0xAC`–`0xAE` hold the same for single operators of channel 2. -/
def ofPitchRegister? (address : UInt16) : Option Nat :=
  let port : UInt8 := ((address >>> 8) &&& 1).toUInt8
  let register : UInt8 := address.toUInt8
  if (0xA0 ≤ register ∧ register ≤ 0xA2) ∨ (0xA4 ≤ register ∧ register ≤ 0xA6) then
    ofSlot? (port <<< 2 ||| register &&& 0x03)
  else if ((0xA8 ≤ register ∧ register ≤ 0xAA) ∨ (0xAC ≤ register ∧ register ≤ 0xAE)) ∧ port = 0
  then some 2
  else none

/-- Address that the per-channel registers of the channel with slot code `slot` are counted
from. -/
def registerBase (slot : UInt8) : UInt16 :=
  (if 4 ≤ slot then 0x100 else 0x000) + (slot &&& 0x03).toUInt16

end FmChannel
end ChipReplay
