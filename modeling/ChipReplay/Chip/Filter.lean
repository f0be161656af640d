import ChipReplay.Chip.Channel
/-!
# Live mute and solo

Every write of the log passes a filter. `verdict` decides by the first rule that applies: the
pitch filter, the PCM key filter, key writes of channels outside the mask, pitch writes of
channels outside the mask; all else passes. `pass` also remembers the ADPCM-A level that the log
set last.
-/

namespace ChipReplay

/-- Why a write is refused. -/
inductive DenyReason where
  | pitchFilter
  | pcmKeyOn
  | maskedKeyOn
  | maskedPitch
deriving DecidableEq

/-- What the filter says to a write. -/
inductive Verdict where
  | allow
  | deny (reason : DenyReason)
deriving DecidableEq

/-- Whether the write goes on to the chip. -/
def Verdict.isAllowed : Verdict → Bool
  | .allow => true
  | .deny _ => false

/-- The live state that writes of the log are checked against. -/
structure ChannelFilter where
  /-- FM channels the log may key and pitch. -/
  mask : ChannelSet
  /-- Whether every FM pitch write is refused. -/
  blocksPitch : Bool
  /-- Whether ADPCM key writes are refused. -/
  blocksPcmKeys : Bool
  /-- The ADPCM-A total level the log set last. -/
  adpcmALevel : UInt8
deriving DecidableEq

namespace ChannelFilter

/-- The ADPCM-A level before the log has set one: no attenuation. -/
def defaultLevel : UInt8 := 0x3F

/-- The filter that lets every write pass. -/
def initial : ChannelFilter := ⟨.all, false, false, defaultLevel⟩

/-- The level is forgotten. -/
def resetLevel (f : ChannelFilter) : ChannelFilter := { f with adpcmALevel := defaultLevel }

/-- Whether `address` starts ADPCM playback. -/
def isPcmKey (address : UInt16) : Bool :=
  address == Register.adpcmAKey || address == Register.adpcmBControl

/-- Whether a key write of `data` is for a channel outside the mask. Codes of no channel never
are. -/
def keysMasked (f : ChannelFilter) (data : UInt8) : Bool :=
  match FmChannel.ofSlot? (data &&& 0x07) with
  | some channel => !f.mask.contains channel
  | none => false

/-- The verdict on writing `data` to `address`. -/
def verdict (f : ChannelFilter) (address : UInt16) (data : UInt8) : Verdict :=
  let pitch := FmChannel.ofPitchRegister? address
  if f.blocksPitch && pitch.isSome then .deny .pitchFilter
  else if f.blocksPcmKeys && isPcmKey address then .deny .pcmKeyOn
  else if address == Register.fmKey && f.keysMasked data then .deny .maskedKeyOn
  else
    match pitch with
    | some channel => if f.mask.contains channel then .allow else .deny .maskedPitch
    | none => .allow

/-- The verdict on a write of the log, and the filter after it: a level that passes is
remembered. -/
def pass (f : ChannelFilter) (port : Port) (register data : UInt8) : Verdict × ChannelFilter :=
  let address := port.address register
  let v := f.verdict address data
  if v.isAllowed && address == Register.adpcmALevel then (v, { f with adpcmALevel := data })
  else (v, f)

end ChannelFilter
end ChipReplay
