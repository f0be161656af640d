import ChipReplay.Bytes.Words
import ChipReplay.Chip.Silence
import ChipReplay.Chip.Voices
import ChipReplay.Midi
import ChipReplay.Player.Update
import ChipReplay.SampleMemory
import ChipReplay.Upload.Session
/-!
# The device

The device holds the player with its window, the upload session with its endpoints, sample
memory, the voices played by hand, and the queues between them. Writes that do not come from the
log wait in `direct`; messages for the host wait in `outbox`.
-/

namespace ChipReplay

/-- How the device is set up. -/
structure DeviceConfig where
  /-- Whether a log of register writes is wanted. What is played does not depend on it. -/
  logWrites : Bool := false
  /-- FM channels the log may play from the start. -/
  initialMask : ChannelSet := .all
  /-- Whether an upload into the linear region ends the playback. -/
  stopOnLinearUpload : Bool := true
deriving DecidableEq

/-- A message for the host that has not been numbered yet. -/
inductive Outgoing where
  | refill (r : Refill)
  | status (word : UInt32)
deriving DecidableEq

/-- What the device counts. -/
structure DeviceStats where
  polls : Nat := 0
  /-- Updates of the player. -/
  steps : Nat := 0
  /-- Packets stored. -/
  packets : Nat := 0
  bytesReceived : Nat := 0
  /-- Refill requests sent. -/
  refillRequests : Nat := 0
  /-- Status reports sent. -/
  statusReports : Nat := 0
  /-- Polls that found the notification slot taken. -/
  notifyBusy : Nat := 0
  /-- Updates that ended in front of a write because the chip was not ready. -/
  chipBusy : Nat := 0
  /-- Uploads that overran. -/
  overruns : Nat := 0
deriving DecidableEq

/-- A message that went out is counted. -/
def DeviceStats.countSent (s : DeviceStats) : Outgoing → DeviceStats
  | .refill _ => { s with refillRequests := s.refillRequests + 1 }
  | .status _ => { s with statusReports := s.statusReports + 1 }

/-- The device with its peripherals. -/
structure Device where
  config : DeviceConfig
  chip : Recorder
  timer : Timer
  samples : SampleMemory
  endpoint : Endpoint
  window : Window
  player : Player
  session : Session
  /-- Register writes that do not come from the log and wait for the chip. -/
  direct : WriteQueue
  voices : Voices
  midi : MidiParser
  /-- Messages that wait for the notification slot. -/
  outbox : Fifo Outgoing
  /-- Whether the player is running. -/
  active : Bool
  pcmMuted : Bool
  /-- The error that ended the last playback. -/
  lastError : Option PlayError
  /-- The last thing refused about an upload. -/
  lastUploadError : Option UploadError
  stats : DeviceStats

namespace Device

/-- The device at power-on: the chip leaves reset, and its sample fetches are off. -/
def new (config : DeviceConfig) (chip : Recorder) (timer : Timer) : Device where
  config := config
  chip := chip.setReset false
  timer := timer
  samples := {}
  endpoint := {}
  window := .zero
  player :=
    { Player.initial with filter := { ChannelFilter.initial with mask := config.initialMask } }
  session := {}
  direct := Fifo.empty
  voices := .silent
  midi := .waiting
  outbox := .empty
  active := false
  pcmMuted := false
  lastError := none
  lastUploadError := none
  stats := {}

/-- Register writes that do not come from the log are queued. -/
def queueWrites (d : Device) (ws : List RegisterWrite) : Device :=
  { d with direct := WriteQueue.addAll d.direct ws }

/-- The host has configured the device. -/
def configure (d : Device) : Device :=
  let (session, endpoint) := d.session.configure d.endpoint
  { d with session, endpoint, outbox := .empty }

/-- Answers a control transfer. -/
def control (d : Device) (setup : Setup) (data : ByteArray) :
    Except UploadError Response × Device :=
  let (response, session, endpoint) := d.session.control d.endpoint setup data
  let lastUploadError :=
    match response with
    | .error e => some e
    | .ok _ => d.lastUploadError
  (response, { d with session, endpoint, lastUploadError })

/-- Answers the control transfer of `r`. -/
def request (d : Device) (r : Request) : Except UploadError Response × Device :=
  d.control r.encode.1 r.encode.2

/-- Playback ends. -/
def stopPlayback (d : Device) : Device := { d with active := false }

/-- Playback ends with an error, and the chip is silenced. -/
def fail (d : Device) (e : PlayError) : Device :=
  let (voices, releases) := d.voices.mute .all
  { d.stopPlayback with lastError := some e, voices }.queueWrites (releases ++ Silence.all)

end Device
end ChipReplay
