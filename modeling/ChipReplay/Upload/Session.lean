import ChipReplay.Endpoint
import ChipReplay.Notification
import ChipReplay.Upload.Request
/-!
# Upload sessions

The device side of the wire. An upload is opened with a destination and a length; packets are
taken one at a time from the two descriptors in turn until the length is reached. More bytes
than that disable the endpoint until the next upload is opened. The session also numbers the
refill requests, and holds a playback start back until the running upload is complete.
-/

namespace ChipReplay

/-- One packet of an upload, to be stored. -/
structure Chunk where
  destination : Destination
  /-- Where the first byte goes. -/
  offset : Nat
  bytes : ByteArray

/-- State of the upload session. -/
structure Session where
  /-- Where the last opened upload goes. -/
  destination : Option Destination := none
  /-- Where the upload began. -/
  start : Nat := 0
  /-- Where the next byte goes. -/
  write : Nat := 0
  /-- Where the upload ends. -/
  stop : Nat := 0
  /-- Whether the upload still expects data. -/
  active : Bool := false
  /-- The descriptor to look at next. -/
  turn : Descriptor := .first
  /-- Number of the next refill request. -/
  sequence : UInt32 := 0
  /-- Whether a playback start waits. -/
  startPending : Bool := false

/-- What a control transfer is answered with. -/
inductive Response where
  /-- Not for this interface. -/
  | decline
  /-- Done. -/
  | acknowledge
  /-- Done, with data for the host. -/
  | data (bytes : ByteArray)

/-- Whether a notification went into the slot. -/
inductive SendOutcome where
  | queued
  /-- The slot still holds the last one. -/
  | busy
deriving DecidableEq

namespace Session

/-- The largest offset of an upload. -/
def offsetLimit : Nat := 0xFFFFFFFFFFFFFFFF

/-- Bytes the upload still expects. -/
def remaining (s : Session) : Nat := s.stop - s.write

/-- The bulk endpoint is enabled with both descriptors armed. -/
def enableBulk (s : Session) (e : Endpoint) : Session × Endpoint :=
  ({ s with turn := .first }, ((e.setEnabled true).arm .first).arm .second)

/-- The host has configured the device: everything is forgotten and the bulk endpoint enabled. -/
def configure (_ : Session) (e : Endpoint) : Session × Endpoint := enableBulk {} e

/-- Opens an upload of `length` bytes from `start` on, enabling the bulk endpoint if an overrun
has disabled it. -/
def openUpload (s : Session) (e : Endpoint) (destination : Destination) (start length : Nat) :
    Except UploadError (Session × Endpoint) :=
  if length = 0 then .error .zeroLength
  else
    let s := {
      s with
      destination := some destination, start, write := start
      stop := min (start + length) offsetLimit, active := true }
    .ok (if e.enabled then (s, e) else s.enableBulk e)

/-- A playback start is asked for. -/
def askStart (s : Session) : Session := { s with startPending := true }

/-- Answers a control transfer. -/
def control (s : Session) (e : Endpoint) (setup : Setup) (data : ByteArray) :
    Except UploadError Response × Session × Endpoint :=
  match Request.decode setup data with
  | .error err => (.error err, s, e)
  | .ok none => (.ok .decline, s, e)
  | .ok (some .readStatus) => (.ok (.data Request.statusData), s, e)
  | .ok (some .startPlayback) => (.ok .acknowledge, s.askStart, e)
  | .ok (some (.openUpload destination start length)) =>
    match s.openUpload e destination start.toNat length.toNat with
    | .error err => (.error err, s, e)
    | .ok (s, e) => (.ok .acknowledge, s, e)

/-- Takes the playback start that waits, unless an upload is still active: the request may have
overtaken the last packets. -/
def takeStart (s : Session) : Bool × Session :=
  if s.active then (false, s) else (s.startPending, { s with startPending := false })

/-- The descriptor `d` is armed again and the other one is next. -/
def rearm (s : Session) (e : Endpoint) (d : Descriptor) : Session × Endpoint :=
  ({ s with turn := d.other }, e.arm d)

/-- The position moves over `length` bytes; at the end of the upload it is complete. -/
def moved (s : Session) (length : Nat) : Session :=
  let write := s.write + length
  { s with write, active := s.active && write != s.stop }

/-- Takes at most one packet. Packets that are empty or too long are counted and dropped. -/
def poll (s : Session) (e : Endpoint) :
    Except UploadError (Option Chunk) × Session × Endpoint :=
  match s.active && e.enabled, s.destination with
  | true, some destination =>
    let d := s.turn
    match e.arrival d with
    | .pending => (.ok none, s, e)
    | .invalid => (.ok none, s.rearm e d)
    | .received length =>
      if s.remaining < length then
        (.error (.overrun length s.remaining), { s with active := false }, e.setEnabled false)
      else
        let chunk :=
          if length = 0 ∨ packetSize < length then none
          else some { destination, offset := s.write, bytes := e.payload d }
        (.ok chunk, (s.moved length).rearm e d)
  | _, _ => (.ok none, s, e)

/-- Submits a notification if the slot is free. -/
def send (e : Endpoint) (n : Notification) : SendOutcome × Endpoint :=
  if e.isBusy then (.busy, e) else (.queued, e.submit n.encode)

/-- Sends a refill request with the next number, which only a request that went out uses up. -/
def requestRefill (s : Session) (e : Endpoint) (r : Refill) :
    SendOutcome × Session × Endpoint :=
  match send e (.ofRefill s.sequence r) with
  | (.queued, e) => (.queued, { s with sequence := Notification.nextSequence s.sequence }, e)
  | (.busy, e) => (.busy, s, e)

/-- The next refill request has number 0. -/
def resetSequence (s : Session) : Session := { s with sequence := 0 }

end Session
end ChipReplay
