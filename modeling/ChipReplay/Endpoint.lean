import ChipReplay.Bytes.Basic
import ChipReplay.Fifo
/-!
# The device's endpoints

Bulk data comes in through two descriptors that are filled in turn, and leaves a queue of
packets the host has sent and the device has not armed a descriptor for. While the bulk endpoint
is disabled, packets stall and are thrown away. Notifications leave through a single slot that
the host empties.
-/

namespace ChipReplay

/-- Bytes in a full bulk packet. -/
def packetSize : Nat := 64

/-- Bytes in a notification. -/
def notificationSize : Nat := 16

/-- One of the two bulk descriptors. -/
inductive Descriptor where
  | first
  | second
deriving DecidableEq

namespace Descriptor

/-- The descriptor whose turn is next. -/
def other : Descriptor → Descriptor
  | first => second
  | second => first

/-- The descriptor with number `n`. -/
def ofNumber? (n : Nat) : Option Descriptor :=
  match n with
  | 0 => some first
  | 1 => some second
  | _ => none

end Descriptor

/-- What the host sends over the bulk endpoint. -/
inductive Packet where
  | data (bytes : ByteArray)
  /-- A transfer that ends with an error. -/
  | invalid

/-- What a descriptor holds. -/
inductive Slot where
  | idle
  /-- Waiting for a packet. -/
  | armed
  | full (bytes : ByteArray)
  | invalid

/-- Whether the slot holds a packet. -/
def Slot.isTaken : Slot → Bool
  | .full _ | .invalid => true
  | .idle | .armed => false

/-- The slot that a packet fills. -/
def Packet.toSlot : Packet → Slot
  | .data bytes => .full bytes
  | .invalid => .invalid

/-- What the device sees of a descriptor. -/
inductive Arrival where
  | pending
  | received (length : Nat)
  | invalid
deriving DecidableEq

/-- Both endpoints. -/
structure Endpoint where
  /-- Whether the bulk endpoint takes packets. -/
  enabled : Bool := false
  first : Slot := .idle
  second : Slot := .idle
  /-- The descriptor the next packet goes to. -/
  turn : Descriptor := .first
  /-- Packets sent and not yet in a descriptor. -/
  queue : Fifo Packet := .empty
  /-- How many packets were thrown away. -/
  stalled : Nat := 0
  /-- The notification the host has not read yet. -/
  inSlot : Option ByteArray := none
  /-- How many notifications were submitted. -/
  notifications : Nat := 0

namespace Endpoint

/-- What `d` holds. -/
def slot (e : Endpoint) : Descriptor → Slot
  | .first => e.first
  | .second => e.second

/-- `d` holds `s`. -/
def setSlot (e : Endpoint) (d : Descriptor) (s : Slot) : Endpoint :=
  match d with
  | .first => { e with first := s }
  | .second => { e with second := s }

/-- One queued packet goes into the descriptor whose turn it is, if that is armed. -/
def pumpOne (e : Endpoint) : Endpoint :=
  match e.enabled, e.slot e.turn with
  | true, .armed =>
    match e.queue.pop? with
    | some (packet, queue) =>
      { e.setSlot e.turn packet.toSlot with queue, turn := e.turn.other }
    | none => e
  | _, _ => e

/-- Queued packets go into the armed descriptors in turn. There are two, so two packets at
most. -/
def pump (e : Endpoint) : Endpoint := e.pumpOne.pumpOne

/-- The host sends a packet. -/
def push (e : Endpoint) (packet : Packet) : Endpoint :=
  if e.enabled then { e with queue := e.queue.push packet }.pump
  else { e with stalled := e.stalled + 1 }

/-- `data` cut into full packets and a last one that may be shorter. -/
def packets (data : ByteArray) : List ByteArray :=
  (List.range ((data.size + (packetSize - 1)) / packetSize)).map fun i =>
    data.extract (packetSize * i) (packetSize * (i + 1))

/-- The host sends `data`, cut into packets. -/
def pushBulk (e : Endpoint) (data : ByteArray) : Endpoint :=
  (packets data).foldl (fun e bytes => e.push (.data bytes)) e

/-- How many packets the device has not taken yet. -/
def waiting (e : Endpoint) : Nat :=
  e.queue.size + e.first.isTaken.toNat + e.second.isTaken.toNat

/-- Enables or disables the bulk endpoint. Enabling empties the descriptors, disabling throws
away what the host has queued. -/
def setEnabled (e : Endpoint) (enabled : Bool) : Endpoint :=
  if enabled then { e with enabled, first := .idle, second := .idle, turn := .first }
  else { e with enabled, stalled := e.stalled + e.queue.size, queue := .empty }

/-- `d` waits for a packet. -/
def arm (e : Endpoint) (d : Descriptor) : Endpoint := (e.setSlot d .armed).pump

/-- What has arrived in `d`. -/
def arrival (e : Endpoint) (d : Descriptor) : Arrival :=
  match e.slot d with
  | .full bytes => .received bytes.size
  | .invalid => .invalid
  | .idle | .armed => .pending

/-- The packet in `d`, empty if there is none. -/
def payload (e : Endpoint) (d : Descriptor) : ByteArray :=
  match e.slot d with
  | .full bytes => bytes
  | _ => .empty

/-- `dest` with as many of its first bytes as `d` has replaced by those. -/
def readInto (e : Endpoint) (d : Descriptor) (dest : ByteArray) : ByteArray :=
  Bytes.overwrite dest 0 ((e.payload d).extract 0 dest.size)

/-- Whether the last notification is still unread. -/
def isBusy (e : Endpoint) : Bool := e.inSlot.isSome

/-- A notification is submitted. -/
def submit (e : Endpoint) (message : ByteArray) : Endpoint :=
  { e with inSlot := some message, notifications := e.notifications + 1 }

/-- The host reads the notification, if there is one. -/
def takeIn (e : Endpoint) : Option ByteArray × Endpoint :=
  (e.inSlot, { e with inSlot := none })

end Endpoint
end ChipReplay
