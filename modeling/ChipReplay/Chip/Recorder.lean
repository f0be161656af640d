import ChipReplay.Chip.Register
/-!
# A chip that records its writes

The chip behind the two latches is modelled by what it is told: it answers readiness checks by a
fixed pattern over their number, and keeps the writes it took. While its busy flag is set it
refuses every check without counting it, and drops what is written all the same.
-/

namespace ChipReplay

/-- A chip in front of which writes are recorded. -/
structure Recorder where
  /-- Answer to the `k`-th counted readiness check, from 1. -/
  accepts : Nat → Bool
  /-- Whether writes are kept or only counted. -/
  recording : Bool
  /-- Kept writes, newest first. -/
  kept : List RegisterWrite
  /-- How many writes were taken. -/
  taken : Nat
  /-- How many writes came while the busy flag was set. -/
  dropped : Nat
  /-- The busy flag. -/
  busy : Bool
  /-- How many readiness checks were counted. -/
  checks : Nat
  /-- Whether the chip is held in reset. -/
  inReset : Bool

namespace Recorder

/-- The readiness pattern that refuses every `n`-th check; below 2 it refuses none. -/
def refuseEvery (n : Nat) (check : Nat) : Bool := n < 2 || check % n != 0

/-- A chip in reset that answers readiness checks by `accepts`. -/
def fresh (accepts : Nat → Bool) (recording : Bool) : Recorder :=
  { accepts, recording, kept := [], taken := 0, dropped := 0, busy := false, checks := 0,
    inReset := true }

/-- The kept writes, oldest first. -/
def writes (chip : Recorder) : List RegisterWrite := chip.kept.reverse

/-- Asks whether the chip can take a write. -/
def ready (chip : Recorder) : Bool × Recorder :=
  if chip.busy then (false, chip)
  else
    let check := chip.checks + 1
    (chip.accepts check, { chip with checks := check })

/-- Writes a register. -/
def write (chip : Recorder) (w : RegisterWrite) : Recorder :=
  if chip.busy then { chip with dropped := chip.dropped + 1 }
  else
    { chip with
      taken := chip.taken + 1
      kept := if chip.recording then w :: chip.kept else chip.kept }

/-- Sets the busy flag. -/
def setBusy (chip : Recorder) (busy : Bool) : Recorder := { chip with busy }

/-- Drives the reset line. -/
def setReset (chip : Recorder) (inReset : Bool) : Recorder := { chip with inReset }

/-- Forgets the kept writes. -/
def clearWrites (chip : Recorder) : Recorder := { chip with kept := [] }

/-- Asks `n` times in a row. -/
def readyTimes (chip : Recorder) : Nat → List Bool × Recorder
  | 0 => ([], chip)
  | n + 1 =>
    let (answer, chip) := chip.ready
    let (answers, chip) := chip.readyTimes n
    (answer :: answers, chip)

end Recorder

namespace WriteQueue

/-- Writes go from the queue to the chip while it is ready. Answers whether the queue ran
empty. -/
def flush (q : WriteQueue) (chip : Recorder) : Bool × WriteQueue × Recorder :=
  match _h : q.pop? with
  | none => (true, q, chip)
  | some (w, rest) =>
    match chip.ready with
    | (false, chip) => (false, rest.pushFront w, chip)
    | (true, chip) => flush rest (chip.write w)
termination_by q.size
decreasing_by exact Fifo.size_lt_of_pop? _h

end WriteQueue
end ChipReplay
