import ChipReplay.Notification
import ChipReplay.Endpoint
import ChipReplay.Preparation.Prepared
import ChipReplay.Upload.Request
import ChipReplay.Window.Region
/-!
# The host

The host owns a prepared stream. It makes the uploads that come before playback, and answers
refill requests with parts of the stream, as long as they come with the number it expects.
-/

namespace ChipReplay

/-- Bytes for the device and where they go. -/
structure Upload where
  destination : Destination
  offset : UInt32
  data : ByteArray

namespace Upload

/-- The request that opens the upload. -/
def request (u : Upload) : Request :=
  .openUpload u.destination u.offset (UInt32.ofNat u.data.size)

/-- The packets the upload is sent in. -/
def packets (u : Upload) : List ByteArray := Endpoint.packets u.data

end Upload

/-- The host's side of a playback. -/
structure Host where
  stream : ByteArray
  blocks : List SampleBlock
  /-- Number of the next refill request. -/
  sequence : UInt32 := 0
  /-- How many requests were answered with data. -/
  served : Nat := 0
  /-- How many requests came with another number. -/
  ignored : Nat := 0

namespace Host

/-- A host for the given file. -/
def ofPrepared (p : Prepared) : Host := { stream := p.data, blocks := p.blocks }

/-- The samples, and the part of the stream that fills the linear region. -/
def initialUploads (h : Host) : List Upload :=
  (h.blocks.map fun b => ⟨b.kind.destination, UInt32.ofNat b.offset, b.data⟩) ++
    if h.stream.size = 0 then []
    else [⟨.window, 0, h.stream.extract 0 linearEnd⟩]

/-- The bytes a refill asks for, as far as the stream has them. -/
def part (h : Host) (r : Refill) : ByteArray :=
  h.stream.extract r.source.toNat (r.source.toNat + r.length.toNat)

/-- Answers a notification. Status reports, requests with an unexpected number and requests
past the end of the stream have no answer; the last use up their number all the same. -/
def answer (h : Host) (message : ByteArray) : Option Upload × Host :=
  match Notification.decode message with
  | some (.refill sequence r) =>
    if sequence ≠ h.sequence then (none, { h with ignored := h.ignored + 1 })
    else
      let data := h.part r
      let next := Notification.nextSequence h.sequence
      if data.size = 0 then (none, { h with sequence := next })
      else
        (some ⟨.window, r.target, data⟩, { h with sequence := next, served := h.served + 1 })
  | _ => (none, h)

/-- The next refill request is expected to have number 0. -/
def resetSequence (h : Host) : Host := { h with sequence := 0 }

end Host
end ChipReplay
