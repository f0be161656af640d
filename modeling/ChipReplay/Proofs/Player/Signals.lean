import ChipReplay.Proofs.Player.Writes
import ChipReplay.Proofs.Stream.Passing
/-!
# What the chip is told

Two streams of writes go to one chip: those of the log, and those that wait in a queue. A list of
signals is what the chip is told, and when a write joins the queue. In an orderly list (`Orderly`)
the log stays behind the queue, and no write comes but right after a check that the chip has
answered with yes. So the queue keeps its order (`Orderly.conserves`) and no write is dropped
(`Orderly.dropped`). Flushing the queue and updating the player with an empty one are orderly, and
what an update writes is what the log tries to write, as far as the filter allows it
(`writes_update`).
-/

namespace ChipReplay

/-! ## Signals -/

/-- What the chip is told, or a write that will wait to be. -/
inductive Signal where
  /-- A readiness check, and the chip's answer. -/
  | asked (answer : Bool)
  /-- A write from the queue. -/
  | direct (w : RegisterWrite)
  /-- A write of the log. -/
  | log (w : RegisterWrite)
  /-- A write joins the queue. -/
  | queued (w : RegisterWrite)
  /-- The busy flag is set or cleared. -/
  | busy (on : Bool)
deriving DecidableEq

namespace Signal

/-- The write, if it is one from the queue. -/
def direct? : Signal → Option RegisterWrite
  | direct w => some w
  | _ => none

/-- The write that joins the queue, if one does. -/
def queued? : Signal → Option RegisterWrite
  | queued w => some w
  | _ => none

/-- The write, if there is one. -/
def write? : Signal → Option RegisterWrite
  | direct w | log w => some w
  | _ => none

end Signal

/-- The chip after a signal. -/
def Recorder.tell (chip : Recorder) : Signal → Recorder
  | .asked _ => chip.ready.2
  | .direct w | .log w => chip.write w
  | .queued _ => chip
  | .busy on => chip.setBusy on

/-- From a chip for which `waiting` waits, the signals lead to one for which the last list does.
Writes come right after a check that is answered with yes: those of the queue in its order, and
those of the log while nothing waits. -/
inductive Orderly : List RegisterWrite → Recorder → List Signal →
    List RegisterWrite → Recorder → Prop
  | nil (waiting : List RegisterWrite) (chip : Recorder) : Orderly waiting chip [] waiting chip
  | asked {waiting waiting' : List RegisterWrite} {chip chip' : Recorder} {signals : List Signal}
    (rest : Orderly waiting chip.ready.2 signals waiting' chip') :
    Orderly waiting chip (.asked chip.ready.1 :: signals) waiting' chip'
  | direct {waiting waiting' : List RegisterWrite} {chip chip' : Recorder} {signals : List Signal}
    {w : RegisterWrite} (hready : chip.ready.1 = true)
    (rest : Orderly waiting (chip.ready.2.write w) signals waiting' chip') :
    Orderly (w :: waiting) chip (.asked true :: .direct w :: signals) waiting' chip'
  | log {waiting' : List RegisterWrite} {chip chip' : Recorder} {signals : List Signal}
    {w : RegisterWrite} (hready : chip.ready.1 = true)
    (rest : Orderly [] (chip.ready.2.write w) signals waiting' chip') :
    Orderly [] chip (.asked true :: .log w :: signals) waiting' chip'
  | queued {waiting waiting' : List RegisterWrite} {chip chip' : Recorder} {signals : List Signal}
    {w : RegisterWrite} (rest : Orderly (waiting ++ [w]) chip signals waiting' chip') :
    Orderly waiting chip (.queued w :: signals) waiting' chip'
  | busy {waiting waiting' : List RegisterWrite} {chip chip' : Recorder} {signals : List Signal}
    {on : Bool} (rest : Orderly waiting (chip.setBusy on) signals waiting' chip') :
    Orderly waiting chip (.busy on :: signals) waiting' chip'

namespace Orderly

variable {waiting waiting' waiting'' : List RegisterWrite} {chip chip' chip'' : Recorder}
  {signals signals' : List Signal}

theorem append (h : Orderly waiting chip signals waiting' chip')
    (h' : Orderly waiting' chip' signals' waiting'' chip'') :
    Orderly waiting chip (signals ++ signals') waiting'' chip'' := by
  induction h with
  | nil => exact h'
  | asked _ ih => exact .asked (ih h')
  | direct hready _ ih => exact .direct hready (ih h')
  | log hready _ ih => exact .log hready (ih h')
  | queued _ ih => exact .queued (ih h')
  | busy _ ih => exact .busy (ih h')

/-- Writes that join the queue wait behind the others. -/
theorem queue (ws : List RegisterWrite) :
    Orderly waiting chip (ws.map .queued) (waiting ++ ws) chip := by
  induction ws generalizing waiting with
  | nil =>
    rw [List.append_nil]
    exact .nil waiting chip
  | cons w ws ih =>
    have hrest : Orderly (waiting ++ [w]) chip (ws.map .queued) (waiting ++ [w] ++ ws) chip := ih
    rw [← List.append_cons] at hrest
    exact .queued hrest

/-- The signals lead the chip where it is. -/
theorem chip_eq (h : Orderly waiting chip signals waiting' chip') :
    chip' = signals.foldl Recorder.tell chip := by
  induction h with
  | nil => rfl
  | asked _ ih | direct _ _ ih | log _ _ ih | queued _ ih | busy _ ih => exact ih

/-- Every answer is the chip's. -/
theorem answer_eq (h : Orderly waiting chip signals waiting' chip') {before after : List Signal}
    {answer : Bool} (hsplit : signals = before ++ .asked answer :: after) :
    answer = (before.foldl Recorder.tell chip).ready.1 := by
  induction h generalizing before with
  | nil => cases before <;> cases hsplit
  | asked rest ih =>
    cases before with
    | nil => exact (Signal.asked.inj (List.cons.inj hsplit).1).symm
    | cons s before =>
      obtain ⟨rfl, hrest⟩ := List.cons.inj hsplit
      exact ih hrest
  | direct hready rest ih | log hready rest ih =>
    match before with
    | [] => exact (Signal.asked.inj (List.cons.inj hsplit).1).symm.trans hready.symm
    | [_] => cases (List.cons.inj (List.cons.inj hsplit).2).1
    | _ :: _ :: before =>
      obtain ⟨rfl, hsecond⟩ := List.cons.inj hsplit
      obtain ⟨rfl, hrest⟩ := List.cons.inj hsecond
      exact ih hrest
  | queued rest ih | busy rest ih =>
    cases before with
    | nil => cases (List.cons.inj hsplit).1
    | cons s before =>
      obtain ⟨rfl, hrest⟩ := List.cons.inj hsplit
      have hanswer := ih hrest
      exact hanswer

/-- No write of the queue is lost, doubled or overtaken by another. -/
theorem conserves (h : Orderly waiting chip signals waiting' chip') :
    waiting ++ signals.filterMap Signal.queued? = signals.filterMap Signal.direct? ++ waiting' := by
  induction h with
  | nil => exact List.append_nil _
  | asked _ ih | log _ _ ih | busy _ ih => exact ih
  | direct _ _ ih => exact congrArg (List.cons _) ih
  | queued _ ih => exact (List.append_cons _ _ _).trans ih

/-- A write of the log comes while nothing waits, right after a check that is answered with yes. -/
theorem before_log (h : Orderly waiting chip signals waiting' chip') {before after : List Signal}
    {w : RegisterWrite} (hsplit : signals = before ++ .log w :: after) :
    waiting ++ before.filterMap Signal.queued? = before.filterMap Signal.direct? ∧
      ∃ earlier, before = earlier ++ [.asked true] := by
  induction h generalizing before with
  | nil => cases before <;> cases hsplit
  | asked rest ih =>
    cases before with
    | nil => cases (List.cons.inj hsplit).1
    | cons s before =>
      obtain ⟨rfl, hrest⟩ := List.cons.inj hsplit
      obtain ⟨hqueue, earlier, rfl⟩ := ih hrest
      exact ⟨hqueue, _ :: earlier, rfl⟩
  | direct hready rest ih =>
    match before with
    | [] => cases (List.cons.inj hsplit).1
    | [_] => cases (List.cons.inj (List.cons.inj hsplit).2).1
    | _ :: _ :: before =>
      obtain ⟨rfl, hsecond⟩ := List.cons.inj hsplit
      obtain ⟨rfl, hrest⟩ := List.cons.inj hsecond
      obtain ⟨hqueue, earlier, rfl⟩ := ih hrest
      exact ⟨congrArg (List.cons _) hqueue, _ :: _ :: earlier, rfl⟩
  | log hready rest ih =>
    match before with
    | [] => cases (List.cons.inj hsplit).1
    -- this write itself
    | [_] =>
      obtain ⟨rfl, -⟩ := List.cons.inj hsplit
      exact ⟨rfl, [], rfl⟩
    | _ :: _ :: before =>
      obtain ⟨rfl, hsecond⟩ := List.cons.inj hsplit
      obtain ⟨rfl, hrest⟩ := List.cons.inj hsecond
      obtain ⟨hqueue, earlier, rfl⟩ := ih hrest
      exact ⟨hqueue, _ :: _ :: earlier, rfl⟩
  | queued rest ih =>
    cases before with
    | nil => cases (List.cons.inj hsplit).1
    | cons s before =>
      obtain ⟨rfl, hrest⟩ := List.cons.inj hsplit
      obtain ⟨hqueue, earlier, rfl⟩ := ih hrest
      exact ⟨(List.append_cons _ _ _).trans hqueue, _ :: earlier, rfl⟩
  | busy rest ih =>
    cases before with
    | nil => cases (List.cons.inj hsplit).1
    | cons s before =>
      obtain ⟨rfl, hrest⟩ := List.cons.inj hsplit
      obtain ⟨hqueue, earlier, rfl⟩ := ih hrest
      exact ⟨hqueue, _ :: earlier, rfl⟩

/-- A chip that is ready takes the next write. -/
theorem write_of_ready (hready : chip.ready.1 = true) (w : RegisterWrite) :
    (chip.ready.2.write w).dropped = chip.dropped ∧
      (chip.recording = true → (chip.ready.2.write w).writes = chip.writes ++ [w]) ∧
      (chip.ready.2.write w).recording = chip.recording := by
  have hanswer : chip.ready = (true, chip.ready.2) := Prod.ext hready rfl
  obtain ⟨hwrites, hrecording, hidle⟩ := Recorder.of_ready hanswer
  have hdropped : (chip.ready.2.write w).dropped = chip.ready.2.dropped := by
    rw [Recorder.write, if_neg (by simp [hidle rfl])]
  refine ⟨?_, fun hrecords => ?_, ?_⟩
  · rw [hdropped]
    unfold Recorder.ready
    split <;> rfl
  · rw [Recorder.writes_write_of_recording (hrecording.trans hrecords) (hidle rfl), hwrites]
  · rw [(Recorder.writes_write _ w).1, hrecording]

/-- No write is dropped. -/
theorem dropped (h : Orderly waiting chip signals waiting' chip') :
    chip'.dropped = chip.dropped := by
  induction h with
  | nil => rfl
  | asked _ ih =>
    rw [ih]
    unfold Recorder.ready
    split <;> rfl
  | direct hready _ ih | log hready _ ih => rw [ih, (write_of_ready hready _).1]
  | queued _ ih => exact ih
  | busy _ ih => exact ih

/-- A chip that records keeps all writes, in order. -/
theorem writes (h : Orderly waiting chip signals waiting' chip')
    (hrecording : chip.recording = true) :
    chip'.writes = chip.writes ++ signals.filterMap Signal.write? := by
  induction h with
  | nil => exact (List.append_nil _).symm
  | asked _ ih =>
    obtain ⟨hwrites, hkept, -⟩ := Recorder.of_ready (Prod.mk.eta (p := Recorder.ready _)).symm
    rw [ih (hkept.trans hrecording), hwrites]
    rfl
  | direct hready _ ih | log hready _ ih =>
    obtain ⟨-, hwrites, hkept⟩ := write_of_ready hready _
    rw [ih (hkept.trans hrecording), hwrites hrecording]
    exact (List.append_cons _ _ _).symm
  | queued _ ih => exact ih hrecording
  | busy _ ih => exact ih hrecording

end Orderly

/-! ## The queue -/

/-- A chip that is always ready stays so when it takes a write. -/
theorem Recorder.write_of_free {chip chip' : Recorder} (hfree : chip.busy = false)
    (haccepts : ∀ n, chip.accepts n = true) {answer : Bool} (hready : chip.ready = (answer, chip'))
    (w : RegisterWrite) :
    answer = true ∧ (chip'.write w).busy = false ∧ ∀ n, (chip'.write w).accepts n = true := by
  rw [Recorder.ready, if_neg (by simp [hfree])] at hready
  obtain ⟨rfl, rfl⟩ := Prod.mk.inj hready
  rw [Recorder.write, if_neg (by simp [hfree])]
  exact ⟨haccepts _, hfree, haccepts⟩

namespace WriteQueue

/-- What the chip is told when the queue is flushed. -/
def flushSignals (q : WriteQueue) (chip : Recorder) : List Signal :=
  match _h : q.pop? with
  | none => []
  | some (w, rest) =>
    match chip.ready with
    | (false, _) => [.asked false]
    | (true, chip) => .asked true :: .direct w :: flushSignals rest (chip.write w)
termination_by q.size
decreasing_by exact Fifo.size_lt_of_pop? _h

theorem flushSignals_of_none {q : WriteQueue} (hpop : q.pop? = none) (chip : Recorder) :
    flushSignals q chip = [] := by
  rw [flushSignals]
  split
  · rfl
  · next hsome => exact absurd (hpop.symm.trans hsome) (by simp)

theorem flushSignals_of_some {q rest : WriteQueue} {w : RegisterWrite}
    (hpop : q.pop? = some (w, rest)) (chip : Recorder) :
    flushSignals q chip =
      if chip.ready.1 then .asked true :: .direct w :: flushSignals rest (chip.ready.2.write w)
      else [.asked false] := by
  rw [flushSignals]
  split
  · next hnone => exact absurd (hpop.symm.trans hnone) (by simp)
  · next hsome =>
    obtain ⟨rfl, rfl⟩ := Prod.mk.inj (Option.some.inj (hpop.symm.trans hsome))
    rcases chip.ready with ⟨_ | _, chip'⟩ <;> rfl

/-- Flushing is orderly: what the chip is not told stays in the queue. -/
theorem orderly_flush (q : WriteQueue) (chip : Recorder) :
    Orderly q.toList chip (flushSignals q chip) (flush q chip).2.1.toList (flush q chip).2.2 := by
  fun_induction flush q chip with
  | case1 q chip hpop =>
    rw [flushSignals_of_none hpop]
    exact .nil _ chip
  | case2 q chip w rest hpop chip' hready =>
    have hasked : Orderly q.toList chip [.asked chip.ready.1] q.toList chip.ready.2 :=
      .asked (.nil _ _)
    rw [hready] at hasked
    rw [flushSignals_of_some hpop, hready, Fifo.toList_pushFront, ← Fifo.toList_of_pop? hpop]
    exact hasked
  | case3 q chip w rest hpop chip' hready ih =>
    have hanswer : chip.ready.1 = true := by rw [hready]
    rw [flushSignals_of_some hpop, if_pos hanswer, Fifo.toList_of_pop? hpop]
    refine .direct hanswer ?_
    rw [hready]
    exact ih

theorem flushSignals_of_busy {q : WriteQueue} {chip : Recorder} (hwaits : q.toList ≠ [])
    (hbusy : chip.busy = true) : flushSignals q chip = [.asked false] := by
  cases hpop : q.pop? with
  | none => exact absurd ((Fifo.pop?_eq_none_iff q).mp hpop) hwaits
  | some popped =>
    rw [flushSignals_of_some hpop, if_neg]
    rw [Recorder.ready, if_pos hbusy]
    exact Bool.false_ne_true

theorem flushSignals_of_free (q : WriteQueue) {chip : Recorder}
    (hfree : chip.busy = false) (haccepts : ∀ n, chip.accepts n = true) :
    flushSignals q chip = q.toList.flatMap fun w => [.asked true, .direct w] := by
  fun_induction flushSignals q chip with
  | case1 q chip hpop => rw [(Fifo.pop?_eq_none_iff q).mp hpop, List.flatMap_nil]
  | case2 q chip w rest hpop chip' hready =>
    obtain ⟨hanswer, -⟩ := Recorder.write_of_free hfree haccepts hready w
    cases hanswer
  | case3 q chip w rest hpop chip' hready ih =>
    obtain ⟨-, hwritten⟩ := Recorder.write_of_free hfree haccepts hready w
    rw [ih hwritten.1 hwritten.2, Fifo.toList_of_pop? hpop, List.flatMap_cons]
    rfl

end WriteQueue

/-! ## Updates -/

/-- The register write that the command is, if it is one. -/
def Command.registerWrite? : Command → Option RegisterWrite
  | write port register data => some ⟨port.address register, data⟩
  | wait _ | pause .. | endOfStream | block _ => none

/-- The register writes among the commands, in order. -/
def registerWrites (commands : List Located) : List RegisterWrite :=
  commands.filterMap fun c => c.command.registerWrite?

theorem registerWrites_append (a b : List Located) :
    registerWrites (a ++ b) = registerWrites a ++ registerWrites b := List.filterMap_append

/-- Whether a write of the log goes on to the chip. -/
def ChannelFilter.allows (f : ChannelFilter) (w : RegisterWrite) : Bool :=
  (f.verdict w.address w.data).isAllowed

/-- The level that the filter remembers decides nothing. -/
theorem ChannelFilter.allows_congr {f g : ChannelFilter} (hmask : g.mask = f.mask)
    (hpitch : g.blocksPitch = f.blocksPitch) (hkeys : g.blocksPcmKeys = f.blocksPcmKeys) :
    g.allows = f.allows := by
  funext w
  unfold allows verdict keysMasked
  rw [hmask, hpitch, hkeys]

theorem ChannelFilter.verdict_pass (f : ChannelFilter) (port : Port) (register data : UInt8) :
    (f.pass port register data).1 = f.verdict (port.address register) data := by
  unfold pass
  dsimp only
  split <;> rfl

theorem ChannelFilter.allows_pass (f : ChannelFilter) (port : Port) (register data : UInt8) :
    (f.pass port register data).2.allows = f.allows := by
  unfold pass
  dsimp only
  split
  · exact allows_congr rfl rfl rfl
  · rfl

namespace Player

/-- What the chip is told when the player deals with the command that it looks at. -/
def turnSignals (w : Window) (v : Player × Recorder) : List Signal :=
  if (v.1.opcode w).isWrite then
    .asked v.2.ready.1 ::
      ((registerWrites (played? w v).toList).filter v.1.filter.allows).map .log
  else []

/-- What the chip is told in an update. -/
def signals (p : Player) (w : Window) (chip : Recorder) : List Signal :=
  (p.visits w chip).flatMap (turnSignals w)

/-- A write that the chip takes is made right after the check, if the filter allows it. -/
theorem turnSignals_of_write {p : Player} {w : Window} {chip : Recorder} {port : Port}
    (hop : p.opcode w = .write port) (hready : chip.ready.1 = true) :
    turnSignals w (p, chip) = .asked true ::
      if p.filter.allows ⟨port.address (p.past.peek w), p.past.past.peek w⟩
      then [.log ⟨port.address (p.past.peek w), p.past.past.peek w⟩] else [] := by
  have hanswer : p.askChip w chip = (true, chip.ready.2) :=
    (askChip_of_write (by rw [hop]; rfl) chip).trans (Prod.ext hready rfl)
  have hplayed : played? w (p, chip) = some ⟨p.streamOffset.toNat,
      .write port (p.past.peek w) (p.past.past.peek w)⟩ := by
    rw [played?, hanswer, if_pos rfl, command?, hop]
    rfl
  have hwrites : registerWrites (some (Located.mk p.streamOffset.toNat
      (.write port (p.past.peek w) (p.past.past.peek w)))).toList =
        [⟨port.address (p.past.peek w), p.past.past.peek w⟩] := rfl
  have hcode : (p.opcode w).isWrite = true := by rw [hop]; rfl
  rw [turnSignals, if_pos hcode, hplayed, hwrites, hready, List.filter_singleton]
  dsimp only
  cases p.filter.allows ⟨port.address (p.past.peek w), p.past.past.peek w⟩ <;> rfl

variable (p : Player) (w : Window) (chip : Recorder)

/-- What the filter says to a write reaches the chip, or not. -/
theorem emit_snd (port : Port) (register data : UInt8) :
    (p.emit chip port register data).2 =
      if p.filter.allows ⟨port.address register, data⟩
      then chip.write ⟨port.address register, data⟩ else chip := by
  unfold emit ChannelFilter.allows
  dsimp only
  rw [ChannelFilter.verdict_pass]

/-- A turn tells the chip about writes only: it asks, and then writes what the filter allows. -/
theorem orderly_turn :
    Orderly [] chip (turnSignals w (p, chip)) [] (p.turn w chip).2.2 := by
  cases hop : p.opcode w with
  | write port =>
    have hask : p.askChip w chip = chip.ready := askChip_of_write (by rw [hop]; rfl) chip
    cases hready : chip.ready.1 with
    | false =>
      obtain ⟨hturn, hnone⟩ := turn_of_not_ready (hask.trans (Prod.ext hready rfl))
      have hsignals : turnSignals w (p, chip) = [.asked chip.ready.1] := by
        rw [turnSignals, hop, hnone]
        rfl
      rw [hsignals, hturn]
      exact .asked (.nil [] _)
    | true =>
      have hturn : (p.turn w chip).2.2 = (p.past.past.past.emit chip.ready.2 port
          (p.past.peek w) (p.past.past.peek w)).2 := by
        rw [turn, hask.trans (Prod.ext hready rfl : chip.ready = (true, chip.ready.2))]
        dsimp only
        rw [step_eq, hop]
      rw [turnSignals_of_write hop hready, hturn, emit_snd, filter_past, filter_past, filter_past]
      split
      · exact .log hready (.nil [] _)
      · rw [← hready]
        exact .asked (.nil [] _)
  | wait | pause | endOfStream | dataBlock | unknown =>
    have hsignals : turnSignals w (p, chip) = [] := by
      rw [turnSignals, hop]
      rfl
    have hanswer : p.askChip w chip = (true, chip) :=
      askChip_of_not_write (by rw [hop]; rfl) chip
    have hturn : (p.turn w chip).2.2 = chip := by
      rw [turn, hanswer]
      dsimp only
      rw [step_eq, hop]
    rw [hsignals, hturn]
    exact .nil [] chip

/-- What the filter allows does not change on the way. -/
theorem allows_turn : (p.turn w chip).2.1.filter.allows = p.filter.allows := by
  unfold turn
  rcases p.askChip w chip with ⟨_ | _, chip'⟩
  · rfl
  · dsimp only
    rw [step_eq]
    cases p.opcode w with
    | write port =>
      dsimp only
      rw [emit_fst]
      dsimp only
      rw [ChannelFilter.allows_pass, filter_past, filter_past, filter_past]
    | wait => exact congrArg _ (by rw [filter_past, filter_past, filter_past])
    | endOfStream => exact congrArg _ (by rw [filter_endStream, filter_past])
    | pause | dataBlock | unknown => exact congrArg _ (filter_past p)

/-- Nor does it in an update. -/
theorem allows_update (timer : Timer) :
    (p.update w chip timer).player.filter.allows = p.filter.allows := by
  unfold update
  split
  · have hplayed := playUpTo_keeps (P := fun q => q.filter.allows = p.filter.allows) (w := w)
      (fun q chip hq => (q.allows_turn w chip).trans hq) p.commandLimit p chip timer rfl
    obtain ⟨requests, htaken, -⟩ :=
      (playUpTo w p.commandLimit p chip timer).2.1.takeRequest_eq
    show (playUpTo w p.commandLimit p chip timer).2.1.takeRequest.2.filter.allows = _
    rw [htaken]
    exact hplayed
  · rfl

theorem orderly_playUpTo (limit : Nat) (timer : Timer) :
    Orderly [] chip ((visitsUpTo w limit p chip).flatMap (turnSignals w)) []
      (playUpTo w limit p chip timer).2.2.1 := by
  induction limit generalizing p chip with
  | zero => exact .nil [] chip
  | succ limit ih =>
    have hturn := p.orderly_turn w chip
    rw [playUpTo_succ, visitsUpTo, List.flatMap_cons]
    generalize p.turn w chip = t at hturn ⊢
    obtain ⟨ending, q, chip'⟩ := t
    cases ending with
    | proceeds => exact hturn.append (ih q chip')
    | busy | waits | yields | fails =>
      rw [List.flatMap_nil, List.append_nil]
      exact hturn

/-- An update tells the chip what `signals` says. -/
theorem orderly_update (timer : Timer) :
    Orderly [] chip (p.signals w chip) [] (p.update w chip timer).chip := by
  unfold signals visits update
  split
  · exact p.orderly_playUpTo w chip p.commandLimit timer
  · exact .nil [] chip

theorem filterMap_turnSignals (v : Player × Recorder) :
    (turnSignals w v).filterMap Signal.write? =
      (registerWrites (played? w v).toList).filter v.1.filter.allows := by
  unfold turnSignals
  split
  · show (List.map Signal.log _).filterMap Signal.write? = _
    rw [List.filterMap_map]
    exact List.filterMap_some
  · next hother =>
    -- only a command that writes is a register write
    have hnone : registerWrites (played? w v).toList = [] := by
      unfold played? command?
      cases hop : v.1.opcode w <;> rw [hop] at hother <;> first
        | exact absurd rfl hother
        | split <;> rfl
    rw [hnone]
    rfl

theorem filterMap_visitsUpTo (limit : Nat) :
    ((visitsUpTo w limit p chip).flatMap (turnSignals w)).filterMap Signal.write? =
      (registerWrites (commandsUpTo w limit p chip)).filter p.filter.allows := by
  induction limit generalizing p chip with
  | zero => rfl
  | succ limit ih =>
    have hallows := p.allows_turn w chip
    rw [commandsUpTo_succ, visitsUpTo, List.flatMap_cons, List.filterMap_append,
      filterMap_turnSignals, registerWrites_append, List.filter_append]
    refine congrArg _ ?_
    generalize p.turn w chip = t at hallows ⊢
    obtain ⟨ending, q, chip'⟩ := t
    cases ending with
    | proceeds =>
      rw [← hallows]
      exact ih q chip'
    | busy | waits | yields | fails => rfl

/-- What an update writes is what the log tries to write, as far as the filter allows it. -/
theorem writes_update (timer : Timer) (hrecording : chip.recording = true) :
    (p.update w chip timer).chip.writes =
      chip.writes ++ (registerWrites (p.commands w chip)).filter p.filter.allows := by
  rw [(p.orderly_update w chip timer).writes hrecording]
  refine congrArg _ ?_
  unfold signals commands visits
  split
  · exact p.filterMap_visitsUpTo w chip p.commandLimit
  · rfl

end Player
end ChipReplay
