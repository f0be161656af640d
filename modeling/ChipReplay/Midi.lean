/-!
# MIDI messages

Bytes come one at a time; a message is complete with its third. A status byte always starts a
new message, data before any status is ignored, and so are realtime bytes wherever they stand. A
further pair of data bytes makes no message without a status byte of its own.
-/

namespace ChipReplay

/-- A message of three bytes. -/
inductive MidiMessage where
  | noteOn (channel note velocity : UInt8)
  | noteOff (channel note velocity : UInt8)
  /-- Any other message. -/
  | unsupported (status : UInt8)
deriving DecidableEq

/-- The message with the given bytes. A note on of velocity zero is a note off. -/
def MidiMessage.decode (status note velocity : UInt8) : MidiMessage :=
  let channel := status &&& 0x0F
  let note := note &&& 0x7F
  let velocity := velocity &&& 0x7F
  if status &&& 0xF0 = 0x80 then .noteOff channel note velocity
  else if status &&& 0xF0 = 0x90 then
    if velocity = 0 then .noteOff channel note velocity else .noteOn channel note velocity
  else .unsupported status

/-- The part of a message seen so far. -/
inductive MidiParser where
  /-- No status byte, or a message just completed. -/
  | waiting
  /-- A status byte. -/
  | status (status : UInt8)
  /-- A status byte and the first data byte. -/
  | data (status first : UInt8)
deriving DecidableEq

namespace MidiParser

/-- Whether `byte` is a realtime message of its own. -/
def isRealtime (byte : UInt8) : Bool := 0xF8 ≤ byte

/-- Whether `byte` is a status byte. -/
def isStatus (byte : UInt8) : Bool := byte &&& 0x80 != 0

/-- One byte comes in; the answer is the message it completes. -/
def push (p : MidiParser) (byte : UInt8) : Option MidiMessage × MidiParser :=
  if isRealtime byte then (none, p)
  else if isStatus byte then (none, .status byte)
  else
    match p with
    | waiting => (none, waiting)
    | status s => (none, data s byte)
    | data s first => (some (.decode s first byte), waiting)

/-- A run of bytes comes in; the answer is the messages they complete. -/
def pushAll (p : MidiParser) : List UInt8 → List MidiMessage × MidiParser
  | [] => ([], p)
  | byte :: bytes =>
    let (message, p) := p.push byte
    let (messages, p) := p.pushAll bytes
    (message.toList ++ messages, p)

end MidiParser
end ChipReplay
