import ChipReplay.Chip.Channel
/-!
# Voices played by hand

Channels that the log does not own are played from MIDI notes. A note sets the channel's block
and F-number and keys all four operators; a note off releases the channel only while that same
note sounds. Every operation answers the register writes it makes, oldest first.
-/

namespace ChipReplay

/-- F-numbers of the semitones C to B at an 8 MHz master clock. -/
def fNumbers : List UInt16 :=
  [617, 654, 693, 734, 778, 824, 873, 925, 980, 1038, 1100, 1165]

/-- The F-number of `note`. -/
def fNumber (note : UInt8) : UInt16 := fNumbers.getD (note.toNat % 12) 0

/-- The block of `note`: its octave, held below the end of the three-bit field. -/
def noteBlock (note : UInt8) : UInt8 := UInt8.ofNat (min (note.toNat / 12) 7)

/-- The notes that sound on the channels played by hand. -/
structure Voices where
  /-- Note of each channel, by channel number. -/
  notes : Vector (Option UInt8) 6
deriving DecidableEq

namespace Voices

/-- No note sounds. -/
def silent : Voices := ⟨Vector.replicate 6 none⟩

/-- The note that sounds on `channel`. -/
def sounding (v : Voices) (channel : Nat) : Option UInt8 := v.notes[channel]?.join

/-- `note` is recorded for `channel`. -/
def record (v : Voices) (channel : Nat) (note : Option UInt8) : Voices :=
  ⟨v.notes.setIfInBounds channel note⟩

/-- The write that releases all operators of the channel with slot code `slot`. -/
def releaseWrite (slot : UInt8) : RegisterWrite := ⟨Register.fmKey, slot⟩

/-- The write that keys all operators of the channel with slot code `slot`. -/
def keyWrite (slot : UInt8) : RegisterWrite := ⟨Register.fmKey, 0xF0 ||| slot⟩

/-- The writes that set the pitch of the channel with slot code `slot`. The high part comes
first because the chip takes it over with the low part. -/
def pitchWrites (slot note : UInt8) : List RegisterWrite :=
  let base := FmChannel.registerBase slot
  let pitch := fNumber note
  [⟨base + 0xA4, (pitch >>> 8).toUInt8 ||| noteBlock note <<< 3⟩,
   ⟨base + 0xA0, (pitch &&& 0xFF).toUInt8⟩]

/-- The write that releases `channel`, none for a number of no channel. -/
def release (channel : Nat) : List RegisterWrite :=
  match FmChannel.slot? channel with
  | some slot => [releaseWrite slot]
  | none => []

/-- `note` is keyed on or off on `channel`. Only the low seven bits of the note count. -/
def key (v : Voices) (channel : Nat) (on : Bool) (note : UInt8) : Voices × List RegisterWrite :=
  match FmChannel.slot? channel with
  | none => (v, [])
  | some slot =>
    let note := note &&& 0x7F
    if on then
      (v.record channel (some note), pitchWrites slot note ++ [keyWrite slot])
    else if v.sounding channel = some note then
      (v.record channel none, [releaseWrite slot])
    else (v, [])

/-- Runs `act` on the voices for every channel of `channels`, collecting the writes. -/
def forEach (v : Voices) (channels : List Nat)
    (act : Voices → Nat → Voices × List RegisterWrite) : Voices × List RegisterWrite :=
  match channels with
  | [] => (v, [])
  | channel :: rest =>
    let (v, first) := act v channel
    let (v, others) := v.forEach rest act
    (v, first ++ others)

/-- `note` is keyed on or off on every channel of `mask`. -/
def keyAll (v : Voices) (mask : ChannelSet) (on : Bool) (note : UInt8) :
    Voices × List RegisterWrite :=
  v.forEach mask.toList fun v channel => v.key channel on note

/-- Every channel of `mask` is released, whatever sounds on it. -/
def mute (v : Voices) (mask : ChannelSet) : Voices × List RegisterWrite :=
  v.forEach mask.toList fun v channel => (v.record channel none, release channel)

end Voices
end ChipReplay
