import ChipReplay.Proofs.Player.Asking
/-!
# The history of a player

A history is the list of what a player did with its regions, newest first: where playbacks began
and went on from, which regions were asked for, and which were entered. Two things live here:

* the entries that each read, turn, update and start adds (`readOnto`, `turnOnto`, `updateOnto`,
  `beginOnto`), and `Log`, a player that is called with any windows, beside its history;
* what a history says about the pass that is under way, the part of the playback since the stream
  was last gone on with from its start or its loop point.
-/

namespace ChipReplay

/-- What a player did with its regions. -/
inductive Entry where
  /-- A playback began with the first command, at `start`. -/
  | started (start loop : UInt32)
  /-- The stream ended and goes on from its first command. -/
  | restarted (start : UInt32)
  /-- The stream ended and goes on from the loop region, which holds it from `loop` on. -/
  | looped (loop : UInt32)
  /-- `region` was asked for with the stream from `source` on, while the cursor was in `inside`. -/
  | asked (region : Region) (source : UInt32) (inside : Region)
  /-- The cursor moved into `region`, where the stream is at `base`. -/
  | entered (region : Region) (base : UInt32)
deriving DecidableEq

/-! ## What is added -/

namespace Player

/-- Asking for A and B, with the stream from `source` on. -/
def preloadOnto (source : UInt32) (inside : Region) (history : List Entry) : List Entry :=
  .asked .b (source + UInt32.ofNat regionSize) inside :: .asked .a source inside :: history

/-- Moving into the next region. -/
def crossOnto (history : List Entry) (p : Player) : List Entry :=
  let left := p.position.region
  .entered left.next p.streamOffset ::
    if left.isRefilled then
      .asked left (p.streamOffset + UInt32.ofNat regionSize) left :: history
    else history

/-- Coming to the loop point. -/
def noticeOnto (history : List Entry) (p : Player) : List Entry :=
  if p.loop ≠ 0 ∧ p.loopCached = false ∧ p.loop ≤ p.streamOffset then
    .asked .loop p.loop p.position.region :: history
  else history

/-- Reading a byte. -/
def readOnto (history : List Entry) (p : Player) : List Entry :=
  if p.position.atEnd then noticeOnto (crossOnto history p) p.cross else noticeOnto history p

/-- Ending the stream. -/
def endOnto (history : List Entry) (p : Player) : List Entry :=
  if p.loop ≠ 0 ∧ p.loopCached then
    preloadOnto (p.loop + UInt32.ofNat regionSize) .loop (.looped p.loop :: history)
  else preloadOnto (UInt32.ofNat linearEnd) .linear (.restarted p.start :: history)

/-- Playing the command that the player looks at. -/
def stepOnto (w : Window) (history : List Entry) (p : Player) : List Entry :=
  match p.opcode w with
  | .write _ | .wait => readOnto (readOnto (readOnto history p) p.past) p.past.past
  | .endOfStream => endOnto (readOnto history p) p.past
  | .pause _ | .dataBlock | .unknown => readOnto history p

/-- Dealing with that command: it is not played if the chip is busy. -/
def turnOnto (w : Window) (history : List Entry) (v : Player × Recorder) : List Entry :=
  if (v.1.askChip w v.2).1 then stepOnto w history v.1 else history

/-- Updating. -/
def updateOnto (history : List Entry) (p : Player) (w : Window) (chip : Recorder) : List Entry :=
  (p.visits w chip).foldl (turnOnto w) history

/-- Starting the stream with the given header. -/
def beginOnto (history : List Entry) (header : Header) : List Entry :=
  preloadOnto (UInt32.ofNat linearEnd) .linear (.started header.start header.loop :: history)

end Player

/-! ## Runs -/

/-- A player with its history. -/
structure Log where
  player : Player
  history : List Entry
  /-- The refills handed out since the last playback began, oldest first. -/
  handedOut : List Refill

namespace Log

/-- How a player may be called. -/
inductive Call where
  | begin (w : Window)
  | update (w : Window) (chip : Recorder) (timer : Timer)
  /-- A refill is handed out. -/
  | take
  /-- The live filter changes. -/
  | retune (filter : ChannelFilter)

/-- A player that has not been called. -/
def initial : Log := { player := .initial, history := [], handedOut := [] }

/-- The log after one more call. -/
def call (l : Log) : Call → Log
  | .begin w =>
    match Player.readHeader w with
    | .error _ => { l with player := (l.player.begin w).2 }
    | .ok header =>
      { player := (l.player.begin w).2
        history := Player.beginOnto l.history header
        handedOut := [] }
  | .update w chip timer =>
    let u := l.player.update w chip timer
    { player := u.player
      history := l.player.updateOnto l.history w chip
      handedOut := l.handedOut ++ u.request.toList }
  | .take =>
    let (request, player) := l.player.takeRequest
    { l with player, handedOut := l.handedOut ++ request.toList }
  | .retune filter => { l with player.filter := filter }

/-- The log after the calls, made one after the other. -/
def run (calls : List Call) : Log := calls.foldl call initial

end Log

/-! ## What a history says -/

namespace History

/-- Where the stream that A and B are filled with begins, if a pass starts with the entry. -/
def passStart? : Entry → Option UInt32
  | .started .. | .restarted _ => some (UInt32.ofNat linearEnd)
  | .looped loop => some (loop + UInt32.ofNat regionSize)
  | .asked .. | .entered .. => none

/-- Where the stream that A and B are filled with begins in the current pass. -/
def passBase : List Entry → UInt32
  | [] => 0
  | e :: past => (passStart? e).getD (passBase past)

/-- What A and B have been asked for with in the current pass, oldest first. -/
def passRefills : List Entry → List (Region × UInt32)
  | [] => []
  | .started .. :: _ | .restarted _ :: _ | .looped _ :: _ => []
  | .asked .loop _ _ :: past | .entered .. :: past => passRefills past
  | .asked region source _ :: past => passRefills past ++ [(region, source)]

/-- The refills asked for since the playback began, oldest first. -/
def refills : List Entry → List Refill
  | [] | .started .. :: _ => []
  | .asked region source _ :: past => refills past ++ [.ofRegion region source]
  | .restarted _ :: past | .looped _ :: past | .entered .. :: past => refills past

/-- The loop point of the playback. -/
def loopPoint : List Entry → UInt32
  | [] => 0
  | .started _ loop :: _ => loop
  | .restarted _ :: past | .looped _ :: past | .asked .. :: past | .entered .. :: past =>
    loopPoint past

/-- Whether the loop region has been asked for since the playback began. -/
def loopAsked : List Entry → Bool
  | [] | .started .. :: _ => false
  | .asked .loop _ _ :: _ => true
  | .restarted _ :: past | .looped _ :: past | .asked .. :: past | .entered .. :: past =>
    loopAsked past

/-- Where the stream begins that `region` was last asked for with. -/
def newest (region : Region) : List Entry → Option UInt32
  | [] => none
  | .asked other source _ :: past => if other = region then some source else newest region past
  | .started .. :: past | .restarted _ :: past | .looped _ :: past | .entered .. :: past =>
    newest region past

/-- The region the cursor is in, and where the stream was when it got there. -/
def place : List Entry → Option (Region × UInt32)
  | [] => none
  | .started start _ :: _ | .restarted start :: _ => some (.linear, start)
  | .looped loop :: _ => some (.loop, loop)
  | .entered region base :: _ => some (region, base)
  | .asked .. :: past => place past

/-- The `k`-th part of the stream that A and B are filled with in turn, from `base` on. -/
def tile (base : UInt32) (k : Nat) : Region × UInt32 :=
  (if k % 2 = 0 then .a else .b, base + UInt32.ofNat (k * regionSize))

end History
end ChipReplay
