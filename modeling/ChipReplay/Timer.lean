/-!
# The playback timer

A countdown in samples. An instant timer has always run out; a manual one waits until it is
advanced. Both keep the sum of what they were armed with, which is the playing time.
-/

namespace ChipReplay

/-- A countdown of samples. -/
structure Timer where
  /-- Whether the count waits for `advance`. -/
  manual : Bool
  /-- Samples left to wait. -/
  remaining : UInt32 := 0
  /-- The last count. -/
  armed : UInt32 := 0
  /-- The sum of all counts. -/
  total : Nat := 0
deriving DecidableEq

namespace Timer

/-- Starts a count of `samples`; zero changes nothing. -/
def arm (t : Timer) (samples : UInt32) : Timer :=
  if samples = 0 then t
  else
    { t with
      armed := samples
      total := t.total + samples.toNat
      remaining := if t.manual then samples else t.remaining }

/-- Whether the last count has run out. -/
def elapsed (t : Timer) : Bool := t.remaining == 0

/-- `samples` go by. -/
def advance (t : Timer) (samples : UInt32) : Timer :=
  { t with remaining := if samples ≤ t.remaining then t.remaining - samples else 0 }

/-- The rest of the count goes by. -/
def expire (t : Timer) : Timer := { t with remaining := 0 }

end Timer
end ChipReplay
