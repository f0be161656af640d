import ChipReplay.Chip.Recorder
import ChipReplay.Player.Basic
import ChipReplay.Timer
import ChipReplay.Vgm.Opcode
/-!
# Playing commands

`Player.step` plays one command. `Player.update` plays commands until one of them has to be
waited for: a wait, the end of the stream, the end of a region, a chip that is not ready, or an
error. It cannot read past the end of the region it started in, which bounds how long it runs.
-/

namespace ChipReplay
namespace Player

/-! ## Reading -/

/-- The byte the next read will give. -/
def peek (p : Player) (w : Window) : UInt8 := w.byte p.position.readOffset

/-- The cursor moves into the next region. A and B are asked for again when they are left, with
the part of the stream that follows the region just entered. -/
def cross (p : Player) : Player :=
  let offset := p.streamOffset
  let left := p.position.region
  let p := if left.isRefilled then p.ask (.ofRegion left (offset + UInt32.ofNat regionSize)) else p
  { p with position := .enter left.next left.next.start offset }

/-- The loop region is asked for once the next byte lies at or past the loop point. -/
def noticeLoop (p : Player) : Player :=
  if p.loop ≠ 0 ∧ p.loopCached = false ∧ p.loop ≤ p.streamOffset then
    { p.ask (.ofRegion .loop p.loop) with loopCached := true }
  else p

/-- Reads one byte, moving into the next region first if this one has ended. -/
def nextByte (p : Player) (w : Window) : UInt8 × Player :=
  let p := if p.position.atEnd then p.cross else p
  let p := p.noticeLoop
  (w.byte p.position.cursor, { p with position := p.position.advance })

/-! ## Commands -/

/-- A register write of the log goes through the filter to the chip. -/
def emit (p : Player) (chip : Recorder) (port : Port) (register data : UInt8) :
    Player × Recorder :=
  let (verdict, filter) := p.filter.pass port register data
  ({ p with filter },
    if verdict.isAllowed then chip.write ⟨port.address register, data⟩ else chip)

/-- The stream has ended: it goes on from the loop region if that is cached, and from the start
if not. -/
def endStream (p : Player) : Player :=
  let p := { p with loopCount := p.loopCount + 1 }
  if p.loop ≠ 0 ∧ p.loopCached then
    { p with position := .enter .loop Region.loop.start p.loop }.askPreload
      (p.loop + UInt32.ofNat regionSize)
  else p.rewind

/-- Plays one command. The answer is how many samples to wait after it. -/
def step (p : Player) (w : Window) (chip : Recorder) :
    Except PlayError UInt32 × Player × Recorder :=
  let offset := p.streamOffset
  let (opcode, p) := p.nextByte w
  match Opcode.ofByte opcode with
  | .write port =>
    let (register, p) := p.nextByte w
    let (data, p) := p.nextByte w
    let (p, chip) := p.emit chip port register data
    (.ok 0, p, chip)
  | .wait =>
    let (low, p) := p.nextByte w
    let (high, p) := p.nextByte w
    (.ok (Bytes.word16 low high).toUInt32, p, chip)
  | .pause samples => (.ok samples, p, chip)
  | .endOfStream => (.ok 0, p.endStream, chip)
  | .dataBlock => (.error (.dataBlock offset), p, chip)
  | .unknown => (.error (.unexpectedOpcode opcode offset), p, chip)

/-- An error ends the playback. -/
def fail (p : Player) : Player :=
  { p with phase := .failed, started := false, requests := .empty }

/-! ## Updates -/

/-- What an update ended with. -/
structure Outcome where
  /-- Samples to wait, zero for none. -/
  delay : UInt32 := 0
  /-- Whether the chip was not ready for a write. -/
  chipBusy : Bool := false
  error : Option PlayError := none
deriving DecidableEq

/-- Plays commands until one has to be waited for, at most `limit` of them. -/
def playUpTo (w : Window) : Nat → Player → Recorder → Timer →
    Outcome × Player × Recorder × Timer
  | 0, p, chip, timer => ({}, p, chip, timer)
  | limit + 1, p, chip, timer =>
    let opcode := Opcode.ofByte (p.peek w)
    let (ready, chip) := if opcode.isWrite then chip.ready else (true, chip)
    if ready = false then ({ chipBusy := true }, p, chip, timer)
    else
      let region := p.position.region
      match p.step w chip with
      | (.error e, p, chip) => ({ error := some e }, p.fail, chip, timer)
      | (.ok delay, p, chip) =>
        if delay ≠ 0 then ({ delay }, p, chip, timer.arm delay)
        else if opcode = .endOfStream ∨ p.position.region ≠ region then ({}, p, chip, timer)
        else playUpTo w limit p chip timer

/-- The most commands that one update can play: one for every byte left in the region, and the
one that leaves it. -/
def commandLimit (p : Player) : Nat := p.position.region.stop - p.position.cursor + 1

/-- What an update did. -/
structure Update where
  outcome : Outcome
  /-- The oldest refill asked for, handed out with the update. -/
  request : Option Refill
  player : Player
  chip : Recorder
  timer : Timer

/-- Plays commands until one has to be waited for. -/
def update (p : Player) (w : Window) (chip : Recorder) (timer : Timer) : Update :=
  if p.phase = .playing ∧ p.started then
    let (outcome, p, chip, timer) := playUpTo w p.commandLimit p chip timer
    let (request, player) := p.takeRequest
    { outcome, request, player, chip, timer }
  else
    { outcome := { error := some .notStarted }, request := none, player := p, chip, timer }

end Player
end ChipReplay
