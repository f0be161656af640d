import ChipReplay.Chip.Filter
import ChipReplay.Vgm.Header
import ChipReplay.Window.Memory
import ChipReplay.Window.Refill
/-!
# The player's state

The player keeps two positions. `cursor` is a place in the window; `base` is the stream offset
at which the cursor last entered a region, at window offset `entered`. The next byte to be read
therefore has the stream offset `base + (cursor - entered)`, and it is in these offsets that
refills are asked for. Stream offsets are 32-bit words and wrap.
-/

namespace ChipReplay

/-- Why the player cannot go on. -/
inductive PlayError where
  /-- The header of the stream cannot be read. -/
  | header (cause : HeaderError)
  /-- The first command lies outside the linear region. -/
  | startOutOfRange (start : UInt32)
  /-- A command the player does not know, at a stream offset. -/
  | unexpectedOpcode (opcode : UInt8) (offset : UInt32)
  /-- A data block in the stream, at a stream offset. -/
  | dataBlock (offset : UInt32)
  /-- The player has not been started. -/
  | notStarted
deriving DecidableEq

/-- Whether the error ends the playback. -/
def PlayError.isFatal : PlayError → Bool
  | .notStarted => false
  | _ => true

/-- Life of a playback. -/
inductive Phase where
  /-- Never started. -/
  | idle
  | playing
  /-- Ended by an error, or never begun because of one. -/
  | failed
deriving DecidableEq

/-- Where the player reads. -/
structure Position where
  /-- The region the cursor is in. -/
  region : Region
  /-- Window offset of the next byte. -/
  cursor : Nat
  /-- Window offset at which the cursor entered the region. -/
  entered : Nat
  /-- Stream offset of the byte at `entered`. -/
  base : UInt32
deriving DecidableEq

namespace Position

/-- The position at window offset `cursor` of `region`, where the stream is at `base`. -/
def enter (region : Region) (cursor : Nat) (base : UInt32) : Position :=
  { region, cursor, entered := cursor, base }

/-- Stream offset of the next byte. -/
def streamOffset (p : Position) : UInt32 := p.base + UInt32.ofNat (p.cursor - p.entered)

/-- Whether the cursor has reached the end of its region. -/
def atEnd (p : Position) : Bool := p.region.stop ≤ p.cursor

/-- Window offset that the next byte is read from: at the end of a region, the start of the
next. -/
def readOffset (p : Position) : Nat :=
  if p.atEnd then p.region.next.start else p.cursor

/-- The position one byte further. -/
def advance (p : Position) : Position := { p with cursor := p.cursor + 1 }

end Position

/-- Interpreter of command streams. -/
structure Player where
  phase : Phase
  /-- Whether a stream has been started and nothing has gone wrong since. -/
  started : Bool
  /-- Header of the current stream. -/
  header : Option Header
  /-- Stream offset of the first command. -/
  start : UInt32
  /-- Stream offset of the loop point, zero for none. -/
  loop : UInt32
  position : Position
  /-- Whether the loop region has been asked for. -/
  loopCached : Bool
  /-- How often the stream has ended. -/
  loopCount : UInt32
  filter : ChannelFilter
  /-- Refills asked for and not yet handed out. -/
  requests : Fifo Refill

namespace Player

/-- The player before any stream. -/
def initial : Player where
  phase := .idle
  started := false
  header := none
  start := 0
  loop := 0
  position := .enter .linear 0 0
  loopCached := false
  loopCount := 0
  filter := .initial
  requests := .empty

/-- Stream offset of the next byte. -/
def streamOffset (p : Player) : UInt32 := p.position.streamOffset

/-- A refill is asked for. -/
def ask (p : Player) (r : Refill) : Player := { p with requests := p.requests.push r }

/-- The oldest refill asked for, and the player without it. -/
def takeRequest (p : Player) : Option Refill × Player :=
  match p.requests.pop? with
  | some (r, requests) => (some r, { p with requests })
  | none => (none, p)

/-- Regions A and B are asked for, with the stream from `source` on. -/
def askPreload (p : Player) (source : UInt32) : Player :=
  (p.ask (.ofRegion .a source)).ask (.ofRegion .b (source + UInt32.ofNat regionSize))

/-- The cursor goes back to the first command, and A and B are asked for anew. -/
def rewind (p : Player) : Player :=
  { p with position := .enter .linear p.start.toNat p.start }.askPreload (UInt32.ofNat linearEnd)

/-- The header of the stream whose first bytes are in `w`. -/
def readHeader (w : Window) : Except PlayError Header :=
  match Header.read w.bytes with
  | .error e => .error (.header e)
  | .ok h => if linearEnd ≤ h.start.toNat then .error (.startOutOfRange h.start) else .ok h

/-- Starts the stream whose first bytes are in `w`. The mask and the flags of the filter stay
as they are; the level it remembers does not. -/
def begin (p : Player) (w : Window) : Except PlayError Unit × Player :=
  let p := {
    p with
    requests := .empty, header := none, started := false, loopCount := 0, loopCached := false
    filter := p.filter.resetLevel }
  match readHeader w with
  | .error e => (.error e, { p with phase := .failed })
  | .ok h =>
    let p := { p with start := h.start, loop := h.loop, started := true, header := some h }
    (.ok (), { p.rewind with phase := .playing })

end Player
end ChipReplay
