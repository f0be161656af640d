import ChipReplay.Device.Basic
/-!
# The device's main loop

One poll does, in this order: queued register writes go to the chip, one packet is stored, the
player is updated if its wait is over and no queued write is left, messages go to the host, and
a playback that was asked for is started.
-/

namespace ChipReplay
namespace Device

/-! ## Storing packets -/

/-- A packet for the window. -/
def storeWindow (d : Device) (offset : Nat) (bytes : ByteArray) : Device :=
  let d :=
    if d.config.stopOnLinearUpload && d.active && offset < linearEnd then d.stopPlayback else d
  if h : offset + bytes.size ≤ windowSize then
    { d with window := d.window.put offset bytes h }
  else { d with lastUploadError := some (.outOfBounds offset bytes.size windowSize) }

/-- A packet for sample memory. Sample memory cannot be fetched from while it is loaded, so the
playback ends and fetches are turned off. -/
def storeSamples (d : Device) (offset : Nat) (bytes : ByteArray) : Device :=
  let d := { d.stopPlayback with samples := d.samples.setPcmEnabled false }
  if offset + bytes.size ≤ sampleMemorySize then
    { d with samples := d.samples.write offset (Bytes.swapWords bytes) }
  else { d with lastUploadError := some (.outOfBounds offset bytes.size sampleMemorySize) }

/-- Stores a packet. -/
def store (d : Device) (c : Chunk) : Device :=
  let d := { d with stats := { d.stats with
    packets := d.stats.packets + 1
    bytesReceived := d.stats.bytesReceived + c.bytes.size } }
  if c.destination.isSamples then d.storeSamples c.offset c.bytes
  else d.storeWindow c.offset c.bytes

/-- Takes at most one packet from the endpoint. -/
def ingest (d : Device) : Device :=
  let (result, session, endpoint) := d.session.poll d.endpoint
  let d := { d with session, endpoint }
  match result with
  | .ok (some chunk) => d.store chunk
  | .ok none => d
  | .error e =>
    { d with
      lastUploadError := some e
      stats := { d.stats with overruns := d.stats.overruns + 1 } }

/-! ## Playing -/

/-- The player's refill requests go into the outbox. -/
def collectRequests (d : Device) : Device :=
  { d with
    outbox := d.outbox.pushAll (d.player.requests.toList.map .refill)
    player := { d.player with requests := .empty } }

/-- Updates the player once. -/
def step (d : Device) : Device :=
  let u := d.player.update d.window d.chip d.timer
  let busy := u.outcome.chipBusy.toNat
  let d := {
    d with
    player := u.player, chip := u.chip, timer := u.timer
    outbox := d.outbox.pushAll (u.request.toList.map .refill)
    stats := { d.stats with steps := d.stats.steps + 1, chipBusy := d.stats.chipBusy + busy } }
  let d := d.collectRequests
  match u.outcome.error with
  | some e => if e.isFatal then d.fail e else d
  | none => d

/-- Starts the playback of the stream in the window. -/
def startPlayback (d : Device) : Device :=
  let (result, player) := d.player.begin d.window
  let d := {
    d with
    player, session := d.session.resetSequence
    outbox := Fifo.empty.push (.status Notification.playbackStarted) }
  match result with
  | .ok () =>
    { d.collectRequests with
      samples := d.samples.setPcmEnabled true, lastError := none, active := true }
  | .error e => d.fail e

/-! ## Messages -/

/-- Sends `message`. -/
def sendMessage (d : Device) : Outgoing → SendOutcome × Session × Endpoint
  | .refill r => d.session.requestRefill d.endpoint r
  | .status word =>
    let (outcome, endpoint) := Session.send d.endpoint (.status word)
    (outcome, d.session, endpoint)

/-- Messages go out until the slot is taken, at most `limit` of them. -/
def sendUpTo : Nat → Device → Device
  | 0, d => d
  | limit + 1, d =>
    match d.outbox.pop? with
    | none => d
    | some (message, outbox) =>
      match d.sendMessage message with
      | (.queued, session, endpoint) =>
        sendUpTo limit
          { d with session, endpoint, outbox, stats := d.stats.countSent message }
      | (.busy, _, _) =>
        { d with
          outbox := outbox.pushFront message
          stats := { d.stats with notifyBusy := d.stats.notifyBusy + 1 } }

/-- Messages go out until the slot is taken. The first one fills it, so two tries are enough. -/
def sendMessages (d : Device) : Device := d.sendUpTo 2

/-! ## The loop -/

/-- Queued register writes go to the chip. -/
def flushDirect (d : Device) : Device :=
  let (_, direct, chip) := WriteQueue.flush d.direct d.chip
  { d with direct, chip }

/-- Updates the player if its time has come. -/
def stepIfDue (d : Device) : Device :=
  if d.active && d.timer.elapsed && d.direct.isEmpty then d.step else d

/-- Starts the playback if one was asked for and no upload is active. -/
def startIfAsked (d : Device) : Device :=
  let (asked, session) := d.session.takeStart
  let d := { d with session }
  if asked then d.startPlayback else d

/-- One round of the main loop. -/
def poll (d : Device) : Device :=
  let d := { d with stats := { d.stats with polls := d.stats.polls + 1 } }
  d.flushDirect.ingest.stepIfDue.sendMessages.startIfAsked

/-! ## Runs of polls -/

/-- `n` polls. -/
def polls (d : Device) : Nat → Device
  | 0 => d
  | n + 1 => d.poll.polls n

/-- The wait of the player is over, and the device is polled. -/
def tick (d : Device) : Device := { d with timer := d.timer.expire }.poll

/-- `n` ticks. -/
def ticks (d : Device) : Nat → Device
  | 0 => d
  | n + 1 => d.tick.ticks n

/-- Polls while an upload is active, at most `limit` times, counting on from `count`. -/
def pollUpload (d : Device) (count : Nat) : Nat → Nat × Device
  | 0 => (count, d)
  | limit + 1 => if d.session.active then d.poll.pollUpload (count + 1) limit else (count, d)

/-- `n` ticks, after each of which the host reads the notification slot. What it found is put on
top of `found`. -/
def drainOnto (found : List ByteArray) (d : Device) : Nat → List ByteArray × Device
  | 0 => (found, d)
  | n + 1 =>
    let d := d.tick
    match d.endpoint.takeIn with
    | (some message, endpoint) => drainOnto (message :: found) { d with endpoint } n
    | (none, _) => drainOnto found d n

/-- `n` ticks, after each of which the host reads the notification slot. -/
def drain (d : Device) (n : Nat) : List ByteArray × Device :=
  let (found, d) := drainOnto [] d n
  (found.reverse, d)

/-- The host opens an upload of `data`, sends it whether or not that was accepted, and polls
while the upload is active, at most `limit` times. The answer is that of the request, and how
many polls it took. -/
def receive (d : Device) (destination : Destination) (offset : UInt32) (data : ByteArray)
    (limit : Nat) : Except UploadError Response × Nat × Device :=
  let (response, d) := d.request (.openUpload destination offset (UInt32.ofNat data.size))
  let (count, d) := { d with endpoint := d.endpoint.pushBulk data }.pollUpload 0 limit
  (response, count, d)

end Device
end ChipReplay
