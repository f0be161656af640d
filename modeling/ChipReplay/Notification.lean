import ChipReplay.Bytes.Basic
import ChipReplay.Window.Refill
/-!
# Notifications

The device tells the host about refills and its status in messages of sixteen bytes: four
little-endian words, the lowest byte of the first being a tag. Refill requests carry a sequence
number of 24 bits in the rest of that word.
-/

namespace ChipReplay

/-- A message from the device to the host. -/
inductive Notification where
  /-- A refill is asked for. -/
  | refill (sequence : UInt32) (request : Refill)
  /-- The device reports a status word. -/
  | status (word : UInt32)
deriving DecidableEq

namespace Notification

/-- Tag of a refill request. -/
def refillTag : UInt32 := 1

/-- Tag of a status report. -/
def statusTag : UInt32 := 2

/-- The bits of a sequence number. -/
def sequenceMask : UInt32 := 0x00FFFFFF

/-- The status word sent when playback starts. -/
def playbackStarted : UInt32 := 1

/-- The sequence number after `sequence`. -/
def nextSequence (sequence : UInt32) : UInt32 := (sequence + 1) &&& sequenceMask

/-- The request for `r` with the low 24 bits of `sequence`. -/
def ofRefill (sequence : UInt32) (r : Refill) : Notification :=
  .refill (sequence &&& sequenceMask) r

/-- The message's sixteen bytes. -/
def encode : Notification → ByteArray
  | refill sequence r =>
    Bytes.le32 ((sequence &&& sequenceMask) <<< 8 ||| refillTag) ++ Bytes.le32 r.target
      ++ Bytes.le32 r.source ++ Bytes.le32 r.length
  | status word =>
    Bytes.le32 statusTag ++ Bytes.le32 word ++ Bytes.le32 0 ++ Bytes.le32 0

/-- The `i`-th word of `bytes`. -/
def word? (bytes : ByteArray) (i : Nat) : Option UInt32 :=
  (Bytes.word32At bytes (4 * i)).toOption

/-- The message in `bytes`, none if they are too short or the tag is unknown. -/
def decode (bytes : ByteArray) : Option Notification := do
  let head ← word? bytes 0
  if head &&& 0xFF = refillTag then
    return .refill (head >>> 8) ⟨← word? bytes 1, ← word? bytes 2, ← word? bytes 3⟩
  else if head &&& 0xFF = statusTag then
    return .status (← word? bytes 1)
  else none

/-- The refill that is asked for, if one is. -/
def request? : Notification → Option Refill
  | refill _ r => some r
  | status _ => none

end Notification
end ChipReplay
