import ChipReplay.Proofs.Player.Reading
/-!
# Updates as sequences of turns

An update looks at one command after the other. Two things live here:

* `turn`, what the player does with the command it looks at, with `playUpTo_succ` making an
  update a sequence of turns;
* `visits`, the states in which an update looks at its next command, and `reads`, the window
  offsets that it reads, with `update_congr`: an update depends on no other byte of the window.
-/

namespace ChipReplay

/-- How many operand bytes follow the opcode of a command that the player plays. -/
def Opcode.operands : Opcode → Nat
  | .write _ | .wait => 2
  | .pause _ | .endOfStream | .dataBlock | .unknown => 0

theorem Timer.arm_zero (t : Timer) : t.arm 0 = t := if_pos rfl

namespace Player

/-! ## Commands -/

/-- The command that the player looks at. -/
def opcode (p : Player) (w : Window) : Opcode := .ofByte (p.peek w)

/-- A command in terms of the moves over its bytes. -/
theorem step_eq (p : Player) (w : Window) (chip : Recorder) :
    p.step w chip =
      match p.opcode w with
      | .write port =>
        let emitted := p.past.past.past.emit chip port (p.past.peek w) (p.past.past.peek w)
        (.ok 0, emitted.1, emitted.2)
      | .wait =>
        (.ok (Bytes.word16 (p.past.peek w) (p.past.past.peek w)).toUInt32, p.past.past.past, chip)
      | .pause samples => (.ok samples, p.past, chip)
      | .endOfStream => (.ok 0, p.past.endStream, chip)
      | .dataBlock => (.error (.dataBlock p.streamOffset), p.past, chip)
      | .unknown => (.error (.unexpectedOpcode (p.peek w) p.streamOffset), p.past, chip) := by
  unfold step opcode
  cases hop : Opcode.ofByte (p.peek w) <;> simp only [nextByte_eq, hop]

/-- Emitting a write changes nothing of the player but its filter. -/
theorem emit_fst (p : Player) (chip : Recorder) (port : Port) (register data : UInt8) :
    (p.emit chip port register data).1 =
      { p with filter := (p.filter.pass port register data).2 } := rfl

@[simp] theorem position_emit (p : Player) (chip : Recorder) (port : Port)
    (register data : UInt8) : (p.emit chip port register data).1.position = p.position := by
  rw [emit_fst]

@[simp] theorem requests_emit (p : Player) (chip : Recorder) (port : Port)
    (register data : UInt8) : (p.emit chip port register data).1.requests = p.requests := by
  rw [emit_fst]

/-! ## Turns -/

/-- How an update goes on after a turn. -/
inductive Ending where
  /-- The next command follows at once. -/
  | proceeds
  /-- The chip is not ready for the write. -/
  | busy
  /-- There are samples to wait. -/
  | waits (delay : UInt32)
  /-- The stream has ended, or the cursor has left its region. -/
  | yields
  | fails (e : PlayError)
deriving DecidableEq

/-- What the update ends with. -/
def Ending.outcome : Ending → Outcome
  | proceeds | yields => {}
  | busy => { chipBusy := true }
  | waits delay => { delay }
  | fails e => { error := some e }

/-- The timer after the turn. -/
def Ending.arm (timer : Timer) : Ending → Timer
  | waits delay => timer.arm delay
  | proceeds | busy | yields | fails _ => timer

/-- Asks the chip whether it takes the command that the player looks at. -/
def askChip (p : Player) (w : Window) (chip : Recorder) : Bool × Recorder :=
  if (p.opcode w).isWrite then chip.ready else (true, chip)

/-- A write asks the chip. -/
theorem askChip_of_write {p : Player} {w : Window} (h : (p.opcode w).isWrite = true)
    (chip : Recorder) : p.askChip w chip = chip.ready := if_pos h

/-- No other command does. -/
theorem askChip_of_not_write {p : Player} {w : Window} (h : (p.opcode w).isWrite = false)
    (chip : Recorder) : p.askChip w chip = (true, chip) := if_neg (Bool.eq_false_iff.mp h)

/-- How an update goes on after `opcode` was played with the given delay, by which the cursor
came to another region or not. -/
def Ending.ofStep (opcode : Opcode) (delay : UInt32) (crossed : Bool) : Ending :=
  if delay ≠ 0 then .waits delay
  else if opcode = .endOfStream ∨ crossed then .yields
  else .proceeds

/-- Crossing into another region ends an update that would have proceeded, and nothing else. -/
theorem Ending.ofStep_crossed (opcode : Opcode) (delay : UInt32) (crossed : Bool) :
    ofStep opcode delay crossed = ofStep opcode delay false ∨
      ofStep opcode delay crossed = .yields ∧ ofStep opcode delay false = .proceeds := by
  unfold ofStep
  by_cases hdelay : delay ≠ 0
  · exact .inl (by rw [if_pos hdelay, if_pos hdelay])
  · rw [if_neg hdelay, if_neg hdelay]
    by_cases hend : opcode = .endOfStream
    · exact .inl (by simp [hend])
    · cases crossed <;> simp [hend]

theorem Ending.ofStep_eq_proceeds {opcode : Opcode} {delay : UInt32} {crossed : Bool}
    (h : ofStep opcode delay crossed = .proceeds) : opcode ≠ .endOfStream ∧ crossed = false := by
  unfold ofStep at h
  split at h
  · exact absurd h (by simp)
  · split at h
    · exact absurd h (by simp)
    · next hstay => simpa using hstay

/-- The player deals with the command it looks at. -/
def turn (p : Player) (w : Window) (chip : Recorder) : Ending × Player × Recorder :=
  match p.askChip w chip with
  | (false, chip) => (.busy, p, chip)
  | (true, chip) =>
    match p.step w chip with
    | (.error e, q, chip) => (.fails e, q.fail, chip)
    | (.ok delay, q, chip) =>
      (.ofStep (p.opcode w) delay (q.position.region ≠ p.position.region), q, chip)

theorem turn_of_endOfStream {p : Player} {w : Window} (h : p.opcode w = .endOfStream)
    (chip : Recorder) : p.turn w chip = (.yields, p.past.endStream, chip) := by
  rw [turn, askChip_of_not_write (by rw [h]; rfl)]
  dsimp only
  rw [step_eq, h]
  rfl

theorem turn_of_unknown {p : Player} {w : Window} (h : p.opcode w = .unknown)
    (chip : Recorder) : p.turn w chip =
      (.fails (.unexpectedOpcode (p.peek w) p.streamOffset), p.past.fail, chip) := by
  rw [turn, askChip_of_not_write (by rw [h]; rfl)]
  dsimp only
  rw [step_eq, h]

/-- An update takes its turns one after the other. -/
theorem playUpTo_succ (w : Window) (limit : Nat) (p : Player) (chip : Recorder) (timer : Timer) :
    playUpTo w (limit + 1) p chip timer =
      match p.turn w chip with
      | (.proceeds, q, chip) => playUpTo w limit q chip timer
      | (ending, q, chip) => (ending.outcome, q, chip, ending.arm timer) := by
  rw [playUpTo]
  unfold turn askChip opcode
  -- both sides ask the chip the same
  generalize (if (Opcode.ofByte (p.peek w)).isWrite then chip.ready else (true, chip)) = r
  obtain ⟨ready, chip⟩ := r
  cases ready with
  | false => rfl
  | true =>
    rcases hstep : p.step w chip with ⟨e | delay, q, chip⟩
    · simp [hstep, Ending.outcome, Ending.arm]
    · simp only [hstep, Ending.ofStep]
      by_cases hdelay : delay = 0
      · by_cases hend : Opcode.ofByte (p.peek w) = .endOfStream ∨
          q.position.region ≠ p.position.region
        · simp [hdelay, hend, Ending.outcome, Ending.arm]
        · simp [hdelay, hend]
      · simp [hdelay, Ending.outcome, Ending.arm]

/-- What every turn keeps, an update keeps. -/
theorem playUpTo_keeps {P : Player → Prop} {w : Window}
    (hturn : ∀ p chip, P p → P (p.turn w chip).2.1) (limit : Nat) (p : Player) (chip : Recorder)
    (timer : Timer) (h : P p) : P (playUpTo w limit p chip timer).2.1 := by
  induction limit generalizing p chip with
  | zero => exact h
  | succ limit ih =>
    have hq := hturn p chip h
    rw [playUpTo_succ]
    generalize p.turn w chip = t at hq ⊢
    obtain ⟨ending, q, chip⟩ := t
    cases ending with
    | proceeds => exact ih q chip hq
    | busy | waits | yields | fails => exact hq

/-! ## What an update looks at -/

/-- The states in which at most `limit` turns look at their commands, in order. -/
def visitsUpTo (w : Window) : Nat → Player → Recorder → List (Player × Recorder)
  | 0, _, _ => []
  | limit + 1, p, chip =>
    (p, chip) ::
      match p.turn w chip with
      | (.proceeds, q, chip) => visitsUpTo w limit q chip
      | _ => []

/-- The states in which an update looks at its next command, in order. -/
def visits (p : Player) (w : Window) (chip : Recorder) : List (Player × Recorder) :=
  if p.phase = .playing ∧ p.started then visitsUpTo w p.commandLimit p chip else []

/-- What every turn keeps holds wherever the update looks at a command. -/
theorem visitsUpTo_keeps {P : Player → Prop} {w : Window}
    (hturn : ∀ p chip, P p → P (p.turn w chip).2.1) {limit : Nat} {p : Player} {chip : Recorder}
    (h : P p) : ∀ v ∈ visitsUpTo w limit p chip, P v.1 := by
  induction limit generalizing p chip with
  | zero => intro v hv; exact absurd hv List.not_mem_nil
  | succ limit ih =>
    intro v hv
    have hq := hturn p chip h
    rw [visitsUpTo, List.mem_cons] at hv
    rcases hv with rfl | hv
    · exact h
    · generalize p.turn w chip = t at hq hv
      obtain ⟨ending, q, chip⟩ := t
      cases ending with
      | proceeds => exact ih hq v hv
      | busy | waits | yields | fails => exact absurd hv List.not_mem_nil

/-- The window offsets of the next `n` bytes. -/
def readOffsets : Nat → Player → List Nat
  | 0, _ => []
  | n + 1, p => p.position.readOffset :: readOffsets n p.past

/-- The window offsets that a turn reads: its opcode, and the whole command if the chip takes
it. -/
def turnReads (w : Window) (v : Player × Recorder) : List Nat :=
  v.1.position.readOffset ::
    if (v.1.askChip w v.2).1 then readOffsets (1 + (v.1.opcode w).operands) v.1 else []

/-- The window offsets that an update reads, in order. -/
def reads (p : Player) (w : Window) (chip : Recorder) : List Nat :=
  (p.visits w chip).flatMap (turnReads w)

theorem step_congr {p : Player} {w w' : Window} (chip : Recorder)
    (h : ∀ i ∈ readOffsets (1 + (p.opcode w).operands) p, w.byte i = w'.byte i) :
    p.step w chip = p.step w' chip := by
  have hfirst : p.peek w = p.peek w' := h _ (by simp [readOffsets, Nat.add_comm 1])
  -- the first byte is read whatever the command, and says how many follow
  have hop : p.opcode w = p.opcode w' := congrArg Opcode.ofByte hfirst
  rw [step_eq, step_eq, ← hop, hfirst]
  cases hcase : p.opcode w with
  | write _ | wait =>
    rw [hcase] at h
    have hsecond : p.past.peek w = p.past.peek w' := h _ (by simp [Opcode.operands, readOffsets])
    have hthird : p.past.past.peek w = p.past.past.peek w' :=
      h _ (by simp [Opcode.operands, readOffsets])
    rw [hsecond, hthird]
  | pause | endOfStream | dataBlock | unknown => rfl

theorem turn_congr {p : Player} {w w' : Window} {chip : Recorder}
    (h : ∀ i ∈ turnReads w (p, chip), w.byte i = w'.byte i) : p.turn w chip = p.turn w' chip := by
  have hfirst : p.peek w = p.peek w' := h _ (by simp [turnReads])
  have hop : p.opcode w = p.opcode w' := congrArg Opcode.ofByte hfirst
  have hanswer : p.askChip w chip = p.askChip w' chip := by rw [askChip, askChip, hop]
  unfold turn
  rw [← hanswer, ← hop]
  rcases hready : p.askChip w chip with ⟨_ | _, chip'⟩
  · rfl
  · have hstep : p.step w chip' = p.step w' chip' :=
      step_congr chip' fun i hi => h i (by simp [turnReads, hready, hi])
    simp only [hstep]

theorem playUpTo_congr {w w' : Window} {limit : Nat} {p : Player} {chip : Recorder}
    {timer : Timer}
    (h : ∀ i ∈ (visitsUpTo w limit p chip).flatMap (turnReads w), w.byte i = w'.byte i) :
    playUpTo w limit p chip timer = playUpTo w' limit p chip timer := by
  induction limit generalizing p chip with
  | zero => rfl
  | succ limit ih =>
    rw [visitsUpTo, List.flatMap_cons] at h
    have hturn : p.turn w chip = p.turn w' chip :=
      turn_congr fun i hi => h i (List.mem_append_left _ hi)
    -- the next turn starts from the same state in both windows
    rw [playUpTo_succ, playUpTo_succ, ← hturn]
    generalize p.turn w chip = t at h ⊢
    obtain ⟨ending, q, chip⟩ := t
    cases ending with
    | proceeds => exact ih fun i hi => h i (List.mem_append_right _ hi)
    | busy | waits | yields | fails => rfl

theorem turnReads_congr {v : Player × Recorder} {w w' : Window}
    (h : ∀ i ∈ turnReads w v, w.byte i = w'.byte i) : turnReads w v = turnReads w' v := by
  have hfirst : v.1.peek w = v.1.peek w' := h _ (List.mem_cons_self ..)
  have hop : v.1.opcode w = v.1.opcode w' := congrArg Opcode.ofByte hfirst
  rw [turnReads, turnReads, askChip, askChip, hop]

theorem turnReads_visitsUpTo_congr {w w' : Window} {limit : Nat} {p : Player} {chip : Recorder}
    (h : ∀ i ∈ (visitsUpTo w limit p chip).flatMap (turnReads w), w.byte i = w'.byte i) :
    (visitsUpTo w limit p chip).flatMap (turnReads w) =
      (visitsUpTo w' limit p chip).flatMap (turnReads w') := by
  induction limit generalizing p chip with
  | zero => rfl
  | succ limit ih =>
    rw [visitsUpTo, List.flatMap_cons] at h
    have hreads : turnReads w (p, chip) = turnReads w' (p, chip) :=
      turnReads_congr fun i hi => h i (List.mem_append_left _ hi)
    have hturn : p.turn w chip = p.turn w' chip :=
      turn_congr fun i hi => h i (List.mem_append_left _ hi)
    rw [visitsUpTo, visitsUpTo, List.flatMap_cons, List.flatMap_cons, hreads, ← hturn]
    generalize p.turn w chip = t at h ⊢
    obtain ⟨ending, q, chip⟩ := t
    cases ending with
    | proceeds => exact congrArg _ (ih fun i hi => h i (List.mem_append_right _ hi))
    | busy | waits | yields | fails => rfl

/-- Which bytes an update reads depends on no others. -/
theorem reads_congr {p : Player} {w w' : Window} {chip : Recorder}
    (h : ∀ i ∈ p.reads w chip, w.byte i = w'.byte i) : p.reads w chip = p.reads w' chip := by
  unfold reads visits at h ⊢
  split
  · next hplaying =>
    rw [if_pos hplaying] at h
    exact turnReads_visitsUpTo_congr h
  · rfl

/-- An update depends on no byte of the window but those it reads. -/
theorem update_congr {p : Player} {w w' : Window} {chip : Recorder} {timer : Timer}
    (h : ∀ i ∈ p.reads w chip, w.byte i = w'.byte i) :
    p.update w chip timer = p.update w' chip timer := by
  unfold reads visits at h
  unfold update
  split
  · next hplaying =>
    rw [if_pos hplaying] at h
    rw [playUpTo_congr h]
  · rfl

/-- An update asks the timer nothing. -/
theorem playUpTo_timer (p : Player) (w : Window) (chip : Recorder) (limit : Nat)
    (timer timer' : Timer) :
    playUpTo w limit p chip timer' =
      let r := playUpTo w limit p chip timer
      (r.1, r.2.1, r.2.2.1, timer'.arm r.1.delay) := by
  induction limit generalizing p chip with
  | zero => exact congrArg (fun t => (_, _, _, t)) timer'.arm_zero.symm
  | succ limit ih =>
    rw [playUpTo_succ, playUpTo_succ]
    generalize p.turn w chip = t
    obtain ⟨ending, q, chip'⟩ := t
    cases ending with
    | proceeds => exact ih q chip'
    | waits delay => rfl
    | busy | yields | fails => exact congrArg (fun t => (_, _, _, t)) timer'.arm_zero.symm

/-- What an update does does not depend on the timer, which it arms for what there is to wait. -/
theorem update_timer (p : Player) (w : Window) (chip : Recorder) (timer timer' : Timer) :
    p.update w chip timer' = { p.update w chip timer with
      timer := timer'.arm (p.update w chip timer).outcome.delay } := by
  unfold update
  split
  · rw [playUpTo_timer p w chip p.commandLimit timer timer']
  · rw [Timer.arm_zero]

/-- An update that ends with its first turn. -/
theorem update_of_turn {p q : Player} {w : Window} {chip chip' : Recorder}
    (hphase : p.phase = .playing ∧ p.started = true) {ending : Ending}
    (hturn : p.turn w chip = (ending, q, chip')) (hends : ending ≠ .proceeds) (timer : Timer) :
    p.update w chip timer =
        ⟨ending.outcome, q.takeRequest.1, q.takeRequest.2, chip', ending.arm timer⟩ ∧
      p.reads w chip = turnReads w (p, chip) := by
  have hlimit : ∃ limit, p.commandLimit = limit + 1 := ⟨_, rfl⟩
  obtain ⟨limit, hlimit⟩ := hlimit
  rw [update, reads, visits, if_pos hphase, if_pos hphase, hlimit, playUpTo_succ, visitsUpTo, hturn]
  cases ending with
  | proceeds => exact absurd rfl hends
  | busy | waits | yields | fails => exact ⟨rfl, List.append_nil _⟩

end Player
end ChipReplay
