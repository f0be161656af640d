import ChipReplay.Chip.Register
/-!
# Register sequences that silence the chip

The ADPCM units and the SSG are muted by fixed sequences of writes.
-/

namespace ChipReplay.Silence

/-- Every ADPCM-A channel is dumped and the total level drops to nothing. -/
def adpcmA : List RegisterWrite := [⟨Register.adpcmAKey, 0xBF⟩, ⟨Register.adpcmALevel, 0x00⟩]

/-- The ADPCM-A total level becomes `level` again. -/
def restoreAdpcmA (level : UInt8) : List RegisterWrite := [⟨Register.adpcmALevel, level⟩]

/-- ADPCM-B is reset. -/
def adpcmB : List RegisterWrite :=
  [⟨Register.adpcmBControl, 0x80⟩, ⟨Register.adpcmBControl, 0x00⟩]

/-- Tone and noise end on every SSG channel. -/
def ssg : List RegisterWrite := [⟨Register.ssgMixer, 0xFF⟩]

/-- The SSG and both ADPCM units fall silent. -/
def all : List RegisterWrite := ssg ++ adpcmA ++ adpcmB

end ChipReplay.Silence
