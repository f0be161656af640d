import ChipReplay.Proofs.Player.Turns
/-!
# The flat interpreter

What a stream means when all of it can be read: one position, which moves byte by byte, and
jumps back at the end of the stream. There is no window, no region and no refill. The interpreter
shares the table of opcodes, the filter and the chip with the player; `turn` has no answer where
it would have to read a byte that the stream does not have.
-/

namespace ChipReplay

/-- Interpreter of a stream that can be read as a whole. -/
structure FlatPlayer where
  /-- Stream offset of the first command. -/
  start : Nat
  /-- Stream offset of the loop point, zero for none. -/
  loop : Nat
  /-- Stream offset of the next byte. -/
  position : Nat
  /-- Whether a byte at or past the loop point has been read. -/
  reached : Bool
  /-- How often the stream has ended. -/
  loopCount : UInt32
  filter : ChannelFilter
  /-- Whether nothing has gone wrong yet. -/
  playing : Bool

namespace FlatPlayer

/-- The next byte of `stream`. -/
def peek (f : FlatPlayer) (stream : ByteArray) : UInt8 := Bytes.peek stream f.position

/-- The command that the interpreter looks at. -/
def opcode (f : FlatPlayer) (stream : ByteArray) : Opcode := .ofByte (f.peek stream)

/-- The interpreter past its next byte. -/
def past (f : FlatPlayer) : FlatPlayer :=
  { f with position := f.position + 1, reached := f.reached || decide (f.loop ≤ f.position) }

/-- A register write goes through the filter to the chip. -/
def emit (f : FlatPlayer) (chip : Recorder) (port : Port) (register data : UInt8) :
    FlatPlayer × Recorder :=
  let (verdict, filter) := f.filter.pass port register data
  ({ f with filter },
    if verdict.isAllowed then chip.write ⟨port.address register, data⟩ else chip)

/-- The stream has ended: it goes on from the loop point if that has been reached, and from the
start if not. -/
def endStream (f : FlatPlayer) : FlatPlayer :=
  { f with
    loopCount := f.loopCount + 1
    position := if f.loop ≠ 0 ∧ f.reached then f.loop else f.start }

/-- Plays one command. The answer is how many samples to wait after it. -/
def step (f : FlatPlayer) (stream : ByteArray) (chip : Recorder) :
    Except PlayError UInt32 × FlatPlayer × Recorder :=
  match f.opcode stream with
  | .write port =>
    let (g, chip) :=
      f.past.past.past.emit chip port (f.past.peek stream) (f.past.past.peek stream)
    (.ok 0, g, chip)
  | .wait =>
    (.ok (Bytes.word16 (f.past.peek stream) (f.past.past.peek stream)).toUInt32,
      f.past.past.past, chip)
  | .pause samples => (.ok samples, f.past, chip)
  | .endOfStream => (.ok 0, f.past.endStream, chip)
  | .dataBlock => (.error (.dataBlock (UInt32.ofNat f.position)), f.past, chip)
  | .unknown =>
    (.error (.unexpectedOpcode (f.peek stream) (UInt32.ofNat f.position)), f.past, chip)

/-- The interpreter deals with the command it looks at, if the stream has all of its bytes. -/
def turn (f : FlatPlayer) (stream : ByteArray) (chip : Recorder) :
    Option (Player.Ending × FlatPlayer × Recorder) :=
  if f.position < stream.size then
    match if (f.opcode stream).isWrite then chip.ready else (true, chip) with
    | (false, chip) => some (.busy, f, chip)
    | (true, chip) =>
      if f.position + (f.opcode stream).operands < stream.size then
        match f.step stream chip with
        | (.error e, g, chip) => some (.fails e, { g with playing := false }, chip)
        | (.ok delay, g, chip) => some (.ofStep (f.opcode stream) delay false, g, chip)
      else none
  else none

/-- A turn needs a byte to look at. -/
theorem lt_size_of_turn {f : FlatPlayer} {stream : ByteArray} {chip : Recorder}
    {r : Player.Ending × FlatPlayer × Recorder} (h : f.turn stream chip = some r) :
    f.position < stream.size := by
  unfold turn at h
  split at h
  · assumption
  · exact absurd h (by simp)

theorem playing_step (f : FlatPlayer) (stream : ByteArray) (chip : Recorder) :
    (f.step stream chip).2.1.playing = f.playing := by
  unfold step
  cases f.opcode stream <;> rfl

/-- A turn that proceeds has met no error. -/
theorem playing_of_proceeds {f g : FlatPlayer} {stream : ByteArray} {chip chip' : Recorder}
    (h : f.turn stream chip = some (.proceeds, g, chip')) : g.playing = f.playing := by
  unfold turn at h
  split at h
  · rcases hanswer : (if (f.opcode stream).isWrite then chip.ready else (true, chip)) with
      ⟨_ | _, chip₁⟩
    · simp [hanswer] at h
    · simp only [hanswer] at h
      split at h
      · have hkeeps := f.playing_step stream chip₁
        generalize f.step stream chip₁ = r at h hkeeps
        obtain ⟨_ | delay, g', chip₂⟩ := r
        · simp at h
        · simp only [Option.some.injEq, Prod.mk.injEq] at h
          rw [← h.2.1]
          exact hkeeps
      · exact absurd h (by simp)
  · exact absurd h (by simp)

/-- Deals with commands until one of them has to be waited for, at most `limit` of them. -/
def playUpTo (stream : ByteArray) : Nat → FlatPlayer → Recorder → Timer →
    Option (Player.Outcome × FlatPlayer × Recorder × Timer)
  | 0, f, chip, timer => some ({}, f, chip, timer)
  | limit + 1, f, chip, timer =>
    match f.turn stream chip with
    | none => none
    | some (.proceeds, g, chip) => playUpTo stream limit g chip timer
    | some (ending, g, chip) => some (ending.outcome, g, chip, ending.arm timer)

/-- Deals with at most `limit` commands, with none at all once something has gone wrong. -/
def update (f : FlatPlayer) (stream : ByteArray) (limit : Nat) (chip : Recorder)
    (timer : Timer) : Option (Player.Outcome × FlatPlayer × Recorder × Timer) :=
  if f.playing then playUpTo stream limit f chip timer
  else some ({ error := some .notStarted }, f, chip, timer)

end FlatPlayer
end ChipReplay
