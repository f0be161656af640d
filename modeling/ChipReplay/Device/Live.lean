import ChipReplay.Device.Basic
/-!
# Live control

Buttons and a MIDI keyboard act on a running playback. Channels that leave the log's mask are
released at once, and channels that return to it lose the note that was played on them.
-/

namespace ChipReplay

/-- Something the user does. -/
inductive LiveEvent where
  /-- The log may play exactly these FM channels. -/
  | setMask (mask : ChannelSet)
  /-- The log may play only this FM channel. -/
  | solo (channel : Nat)
  /-- The log gets every channel back and both filters are off. -/
  | unmuteAll
  | setPitchFilter (on : Bool)
  /-- ADPCM is silenced and the log's ADPCM keys are blocked. -/
  | setPcmMuted (on : Bool)
  /-- One byte from the keyboard. -/
  | midi (byte : UInt8)
deriving DecidableEq

namespace Device

/-- The filter is changed by `f`. -/
def updateFilter (d : Device) (f : ChannelFilter → ChannelFilter) : Device :=
  { d with player := { d.player with filter := f d.player.filter } }

/-- The log may play exactly the channels of `mask`. -/
def setMask (d : Device) (mask : ChannelSet) : Device :=
  let previous := d.player.filter.mask
  let d := d.updateFilter fun f => { f with mask }
  let left := (previous.diff mask).toList.flatMap Voices.release
  let (voices, returned) := d.voices.mute (mask.diff previous)
  { d with voices }.queueWrites (left ++ returned)

/-- Whether the log's pitch writes are refused. -/
def setPitchFilter (d : Device) (on : Bool) : Device :=
  d.updateFilter fun f => { f with blocksPitch := on }

/-- Mutes ADPCM, or gives it back with the level that the log set last. -/
def setPcmMuted (d : Device) (on : Bool) : Device :=
  if on = d.pcmMuted then d
  else
    let d := { d with pcmMuted := on }.updateFilter fun f => { f with blocksPcmKeys := on }
    d.queueWrites
      (if on then Silence.adpcmA ++ Silence.adpcmB
        else Silence.restoreAdpcmA d.player.filter.adpcmALevel)

/-- Notes go to the channels that the log does not play. -/
def playNote (d : Device) (on : Bool) (note : UInt8) : Device :=
  let (voices, writes) := d.voices.keyAll d.player.filter.mask.complement on note
  { d with voices }.queueWrites writes

/-- A complete message from the keyboard. -/
def playMessage (d : Device) : MidiMessage → Device
  | .noteOn _ note _ => d.playNote true note
  | .noteOff _ note _ => d.playNote false note
  | .unsupported _ => d

/-- One byte from the keyboard. -/
def midiByte (d : Device) (byte : UInt8) : Device :=
  let (message, midi) := d.midi.push byte
  let d := { d with midi }
  match message with
  | some message => d.playMessage message
  | none => d

/-- The user does something. -/
def live (d : Device) : LiveEvent → Device
  | .setMask mask => d.setMask mask
  | .solo channel => d.setMask (.single channel)
  | .unmuteAll => ((d.setMask .all).setPitchFilter false).setPcmMuted false
  | .setPitchFilter on => d.setPitchFilter on
  | .setPcmMuted on => d.setPcmMuted on
  | .midi byte => d.midiByte byte

end Device
end ChipReplay
