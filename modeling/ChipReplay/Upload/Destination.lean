/-!
# Destinations of uploads and their errors

An upload goes to the window or to one of the two kinds of sample memory. A two-byte selector
names the destination on the wire. This module also lists what the device refuses about an
upload, with the wording of each refusal.
-/

namespace ChipReplay

/-- Where uploaded bytes go. -/
inductive Destination where
  /-- ADPCM-A sample memory. -/
  | adpcmA
  /-- ADPCM-B sample memory. -/
  | adpcmB
  /-- The window the player reads. -/
  | window
deriving DecidableEq

/-- Whether the destination is sample memory. -/
def Destination.isSamples : Destination → Bool
  | .adpcmA | .adpcmB => true
  | .window => false

/-- The destination's selector. -/
def Destination.selector : Destination → UInt16
  | .adpcmA => 0
  | .adpcmB => 1
  | .window => 2

/-- What the device refuses about a request or the data it receives. -/
inductive UploadError where
  /-- More bytes came than the upload has left. -/
  | overrun (received remaining : Nat)
  /-- The selector names no destination. -/
  | unknownDestination (selector : UInt16)
  /-- The data of a request to open an upload is not eight bytes long. -/
  | payloadLength (length : Nat)
  /-- An upload of no bytes. -/
  | zeroLength
  /-- A request code of no request. -/
  | unknownRequest (code : UInt8)
  /-- The direction of the transfer is not that of its request code. -/
  | directionMismatch (code : UInt8)
  /-- The request does not address interface 0. -/
  | notInterfaceScoped
  /-- Bytes that would land outside their destination. -/
  | outOfBounds (offset length capacity : Nat)
deriving DecidableEq

/-- The destination with selector `value`. -/
def Destination.ofSelector (value : UInt16) : Except UploadError Destination :=
  if value = 0 then .ok .adpcmA
  else if value = 1 then .ok .adpcmB
  else if value = 2 then .ok .window
  else .error (.unknownDestination value)

theorem Destination.ofSelector_selector (d : Destination) : ofSelector d.selector = .ok d := by
  cases d <;> rfl

end ChipReplay
