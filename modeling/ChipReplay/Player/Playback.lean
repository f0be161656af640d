import ChipReplay.Player.Update
/-!
# A player with its stream beside it

A playback is a player, its window and chip, and the stream that the window shows a part of.
Refills are served by copying the part of the stream they ask for, as far as there is one. A run
keeps what every update did and where in the stream it ended.
-/

namespace ChipReplay

/-- A player whose refills are served from `stream`. -/
structure Playback where
  stream : ByteArray
  window : Window := .zero
  player : Player := .initial
  chip : Recorder
  timer : Timer
  /-- The refills served, newest first. -/
  served : List Refill := []

/-- What one update of a run did. -/
structure Played where
  outcome : Player.Outcome
  /-- Stream offset of the next byte after it. -/
  offset : UInt32
deriving DecidableEq

namespace Playback

/-- The part of the stream that `r` asks for. -/
def part (g : Playback) (r : Refill) : ByteArray :=
  g.stream.extract r.source.toNat (r.source.toNat + r.length.toNat)

/-- `w` with `data` written at `offset`, if it fits. -/
def overwritten (w : Window) (offset : Nat) (data : ByteArray) : Window :=
  if h : offset + data.size ≤ windowSize then w.put offset data h else w

/-- Serves one refill. -/
def serve (g : Playback) (r : Refill) : Playback :=
  let data := g.part r
  { g with window := overwritten g.window r.target.toNat data, served := r :: g.served }

/-- Serves every refill that has been asked for and not handed out. -/
def serveAll (g : Playback) : Playback :=
  let requests := g.player.requests.toList
  requests.foldl serve { g with player := { g.player with requests := .empty } }

/-- Updates the player. The answer is what the update did, and the refill it handed out. -/
def update (g : Playback) : Player.Outcome × Option Refill × Playback :=
  let u := g.player.update g.window g.chip g.timer
  (u.outcome, u.request, { g with player := u.player, chip := u.chip, timer := u.timer })

/-- Updates the player and, if `serving`, serves every refill it has asked for. -/
def advance (g : Playback) (serving : Bool) : Played × Playback :=
  let (outcome, request, g) := g.update
  let played := { outcome, offset := g.player.streamOffset }
  if serving then (played, (request.toList.foldl serve g).serveAll) else (played, g)

/-- Updates until the stream has ended `loops` times or an update ends with an error, at most
`limit` of them. What they did is put on top of `done`. -/
def runOnto (loops : Nat) (serving : Bool) (g : Playback) (done : List Played) :
    Nat → List Played × Playback
  | 0 => (done, g)
  | limit + 1 =>
    if g.player.loopCount.toNat < loops then
      let (played, g) := g.advance serving
      if played.outcome.error.isSome then (played :: done, g)
      else runOnto loops serving g (played :: done) limit
    else (done, g)

/-- Updates until the stream has ended `loops` times or an update ends with an error, at most
`limit` of them. The answer is what each of them did, in order. -/
def run (g : Playback) (limit loops : Nat) (serving : Bool) : List Played × Playback :=
  let (done, g) := runOnto loops serving g [] limit
  (done.reverse, g)

end Playback
end ChipReplay
