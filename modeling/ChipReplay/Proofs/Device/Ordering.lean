import ChipReplay.Proofs.Device.Countdown
import ChipReplay.Proofs.Player.Signals
/-!
# Writes keep their order

Writes that do not come from the log wait in a queue, and the player is not updated while one does.
What a poll tells the chip is therefore orderly (`orderly_poll`), and so is what a run does, however
the chip's busy flag changes between the polls (`orderly_run`). `Device.writes_ordered` says what
that means for the writes.
-/

namespace ChipReplay
namespace Device

/-! ## Signals of a run -/

/-- The writes that join the queue from `d` to `d'`. -/
def joined (d d' : Device) : List RegisterWrite :=
  d'.direct.toList.drop d.direct.toList.length

/-- What the chip is told when the player is updated if its time has come. A fatal error queues
writes behind it. -/
def stepSignals (d : Device) : List Signal :=
  if d.active && d.timer.elapsed && d.direct.isEmpty then
    d.player.signals d.window d.chip ++ (d.joined d.step).map .queued
  else []

/-- What the chip is told in an event, and the writes that join the queue. -/
def signalsOf (d : Device) : Event → List Signal
  | .poll =>
    let sent := d.ingested.stepIfDue.sendMessages
    WriteQueue.flushSignals d.direct d.chip ++ d.ingested.stepSignals ++
      (sent.joined sent.startIfAsked).map .queued
  | .live event => (d.joined (d.live event)).map .queued
  | .chip change => [.busy (change d.chip).busy]
  | _ => []

/-- What the chip is told during the events, and the writes that join the queue. -/
def signalsIn (d : Device) : List Event → List Signal
  | [] => []
  | e :: events => d.signalsOf e ++ (d.react e).signalsIn events

/-- The chip is left alone, but for its busy flag. -/
def Event.OnlySetsBusy : Event → Prop
  | .chip change => ∃ busy, change = (·.setBusy busy)
  | _ => True

variable {d d' d'' : Device} {e : Event} {events : List Event}

/-! ## The queue -/

/-- From `d` to `d'`, the chip is told nothing and no write leaves the queue. -/
structure Queues (d d' : Device) : Prop where
  chip : d'.chip = d.chip
  direct : d.direct.toList <+: d'.direct.toList

namespace Queues

theorem of_eq (hchip : d'.chip = d.chip) (hdirect : d'.direct = d.direct) : d.Queues d' :=
  ⟨hchip, by rw [hdirect]⟩

theorem trans (h : d.Queues d') (h' : d'.Queues d'') : d.Queues d'' :=
  ⟨h'.chip.trans h.chip, h.direct.trans h'.direct⟩

/-- Writes that join the queue join it at its end. -/
theorem queueWrites {ws : List RegisterWrite} (hchip : d'.chip = d.chip)
    (hdirect : d'.direct = d.direct) : d.Queues (d'.queueWrites ws) := by
  refine ⟨hchip, ?_⟩
  show _ <+: (WriteQueue.addAll d'.direct ws).toList
  rw [WriteQueue.toList_addAll, hdirect]
  exact List.prefix_append _ _

/-- What joins the queue is all that happens. -/
theorem orderly (h : d.Queues d') :
    Orderly d.direct.toList d.chip ((d.joined d').map .queued) d'.direct.toList d'.chip := by
  obtain ⟨ws, hws⟩ := h.direct
  have hjoined : d.joined d' = ws := by
    rw [joined, ← hws, List.drop_left]
  rw [hjoined, h.chip, ← hws]
  exact .queue ws

end Queues

theorem queues_fail (d : Device) (e : PlayError) : d.Queues (d.fail e) := by
  unfold fail
  rcases d.voices.mute .all with ⟨voices, releases⟩
  exact .queueWrites rfl rfl

theorem queues_setMask (d : Device) (mask : ChannelSet) : d.Queues (d.setMask mask) := by
  unfold setMask
  dsimp only
  rcases (d.updateFilter fun f => { f with mask }).voices.mute
    (mask.diff d.player.filter.mask) with ⟨voices, returned⟩
  exact .queueWrites rfl rfl

theorem queues_setPcmMuted (d : Device) (on : Bool) : d.Queues (d.setPcmMuted on) := by
  unfold setPcmMuted
  split
  · exact .of_eq rfl rfl
  · exact .queueWrites rfl rfl

theorem queues_playNote (d : Device) (on : Bool) (note : UInt8) :
    d.Queues (d.playNote on note) := by
  unfold playNote
  rcases d.voices.keyAll d.player.filter.mask.complement on note with ⟨voices, writes⟩
  exact .queueWrites rfl rfl

theorem queues_midiByte (d : Device) (byte : UInt8) : d.Queues (d.midiByte byte) := by
  have hparsed (midi : MidiParser) : d.Queues { d with midi } := .of_eq rfl rfl
  unfold midiByte
  rcases d.midi.push byte with ⟨_ | message, midi⟩
  · exact hparsed midi
  · cases message with
    | noteOn channel note velocity => exact (hparsed midi).trans (queues_playNote _ true note)
    | noteOff channel note velocity => exact (hparsed midi).trans (queues_playNote _ false note)
    | unsupported => exact hparsed midi

/-- The user only queues writes. -/
theorem queues_live (d : Device) (event : LiveEvent) : d.Queues (d.live event) := by
  cases event with
  | setMask mask => exact queues_setMask d mask
  | solo channel => exact queues_setMask d _
  | unmuteAll =>
    have hunmuted : (d.setMask .all).Queues ((d.setMask .all).setPitchFilter false) :=
      .of_eq rfl rfl
    exact ((queues_setMask d .all).trans hunmuted).trans (queues_setPcmMuted _ false)
  | setPitchFilter on => exact .of_eq rfl rfl
  | setPcmMuted on => exact queues_setPcmMuted d on
  | midi byte => exact queues_midiByte d byte

theorem queues_startPlayback (d : Device) : d.Queues d.startPlayback := by
  unfold startPlayback
  rcases d.player.begin d.window with ⟨e | _, player⟩
  · have hbegun : d.Queues { d with
        player, session := d.session.resetSequence
        outbox := Fifo.empty.push (.status Notification.playbackStarted) } := .of_eq rfl rfl
    exact hbegun.trans (queues_fail _ e)
  · exact .of_eq rfl rfl

theorem queues_startIfAsked (d : Device) : d.Queues d.startIfAsked := by
  have htaken : d.Queues { d with session := d.session.takeStart.2 } := .of_eq rfl rfl
  unfold startIfAsked
  dsimp only
  split
  · exact htaken.trans (queues_startPlayback _)
  · exact htaken

/-! ## Polls -/

/-- An update is orderly, since no write waits, and what a fatal error queues comes after it. -/
theorem orderly_stepIfDue (d : Device) :
    Orderly d.direct.toList d.chip d.stepSignals d.stepIfDue.direct.toList d.stepIfDue.chip := by
  unfold stepSignals stepIfDue
  split
  · next hdue =>
    have hempty : d.direct.toList = [] :=
      (Fifo.isEmpty_iff d.direct).mp (Bool.and_eq_true_iff.mp hdue).2
    have hupdate := d.player.orderly_update d.window d.chip d.timer
    obtain ⟨active, voices, direct, lastError, stats, heq⟩ := d.step_eq
    have hchip : d.step.chip = (d.player.update d.window d.chip d.timer).chip := by rw [heq]
    have hjoined : d.joined d.step = d.step.direct.toList := by
      rw [joined, hempty]
      rfl
    rw [hempty, hjoined, hchip]
    exact hupdate.append (.queue _)
  · exact .nil _ _

/-- A poll is orderly: first the queue, then the log, and behind both what joins the queue. -/
theorem orderly_poll (d : Device) :
    Orderly d.direct.toList d.chip (d.signalsOf .poll) d.poll.direct.toList d.poll.chip := by
  have hflush := WriteQueue.orderly_flush d.direct d.chip
  have hstep := d.ingested.orderly_stepIfDue
  have hstart := d.ingested.stepIfDue.sendMessages.queues_startIfAsked.orderly
  obtain ⟨active, window, samples, lastUploadError, stats, heq, -⟩ := d.ingested_eq
  obtain ⟨session, endpoint, outbox, stats', hsent⟩ := sendUpTo_eq 2 d.ingested.stepIfDue
  have hingested : d.ingested.direct = (WriteQueue.flush d.direct d.chip).2.1 ∧
      d.ingested.chip = (WriteQueue.flush d.direct d.chip).2.2 := by
    rw [heq]
    exact ⟨rfl, rfl⟩
  have hmessages : d.ingested.stepIfDue.sendMessages.direct = d.ingested.stepIfDue.direct ∧
      d.ingested.stepIfDue.sendMessages.chip = d.ingested.stepIfDue.chip := by
    rw [sendMessages, hsent]
    exact ⟨rfl, rfl⟩
  rw [hingested.1, hingested.2] at hstep
  rw [hmessages.1, hmessages.2] at hstart
  exact (hflush.append hstep).append hstart

theorem orderly_react (hbusy : e.OnlySetsBusy) :
    Orderly d.direct.toList d.chip (d.signalsOf e) (d.react e).direct.toList (d.react e).chip := by
  cases e with
  | poll => exact d.orderly_poll
  | live event => exact (d.queues_live event).orderly
  | chip change =>
    obtain ⟨busy, rfl⟩ := hbusy
    exact .busy (.nil _ _)
  | configure | control | push | read | time => exact .nil _ _

/-- A run is orderly. -/
theorem orderly_run (hbusy : ∀ e ∈ events, e.OnlySetsBusy) :
    Orderly d.direct.toList d.chip (d.signalsIn events) (d.run events).direct.toList
      (d.run events).chip := by
  induction events generalizing d with
  | nil => exact .nil _ _
  | cons e events ih =>
    obtain ⟨hfirst, hrest⟩ := List.forall_mem_cons.mp hbusy
    exact (orderly_react hfirst).append (ih hrest)

theorem signalsIn_append (d : Device) (first later : List Event) :
    d.signalsIn (first ++ later) = d.signalsIn first ++ (d.run first).signalsIn later := by
  induction first generalizing d with
  | nil => rfl
  | cons e first ih =>
    show _ ++ (d.react e).signalsIn (first ++ later) = _
    rw [ih, ← List.append_assoc]
    rfl

/-- Direct writes and writes of the log keep their order, and none is dropped. Let anything happen
to a device with a recording chip, except that the chip itself changes only its busy flag between
the events. Then:

* what the chip was told has led it where it is, each readiness check was answered by it, and it has
  kept every write it was told, so that none was dropped;
* the direct writes that it was told are, in order and each once, those that were queued, except for
  the ones that are still in the queue;
* whenever the chip was told a write of the log, all direct writes that had been queued before it
  had been told too, and a check that was answered with yes came right in front of it. -/
theorem writes_ordered (config : DeviceConfig) (accepts : Nat → Bool) (timer : Timer)
    {events : List Event} (hbusy : ∀ e ∈ events, e.OnlySetsBusy) :
    let old := Device.new config (.fresh accepts true) timer
    let d := old.run events
    let signals := old.signalsIn events
    d.chip = signals.foldl Recorder.tell old.chip ∧
    (∀ before answer after, signals = before ++ .asked answer :: after →
      answer = (before.foldl Recorder.tell old.chip).ready.1) ∧
    d.chip.writes = signals.filterMap Signal.write? ∧ d.chip.dropped = 0 ∧
    signals.filterMap Signal.direct? ++ d.direct.toList = signals.filterMap Signal.queued? ∧
    ∀ before w after, signals = before ++ .log w :: after →
      before.filterMap Signal.direct? = before.filterMap Signal.queued? ∧
        ∃ earlier, before = earlier ++ [.asked true] := by
  intro old d signals
  have horderly : Orderly [] old.chip signals d.direct.toList d.chip :=
    orderly_run (d := old) hbusy
  refine ⟨horderly.chip_eq, ?_, ?_, horderly.dropped, horderly.conserves.symm, ?_⟩
  · intro before answer after hsplit
    exact horderly.answer_eq hsplit
  · exact horderly.writes rfl
  · intro before w after hsplit
    obtain ⟨hqueue, hasked⟩ := horderly.before_log hsplit
    exact ⟨hqueue.symm, hasked⟩

/-! ## A write of the log -/

/-- A poll that finds the player at a write tells the chip what waits and then the write of the log,
right after the check for it. -/
theorem signalsOf_poll_at_write (hupload : d.session.active = false) (hactive : d.active = true)
    (helapsed : d.timer.elapsed = true) (hflushed : d.flushDirect.direct.toList = [])
    (hphase : d.player.phase = .playing ∧ d.player.started = true) {port : Port}
    (hop : d.player.opcode d.window = .write port) (hready : d.flushDirect.chip.ready.1 = true)
    {w : RegisterWrite}
    (hw : w = ⟨port.address (d.player.past.peek d.window), d.player.past.past.peek d.window⟩)
    (hallowed : d.player.filter.allows w = true) :
    ∃ after, d.signalsOf .poll =
      WriteQueue.flushSignals d.direct d.chip ++ .asked true :: .log w :: after := by
  have hvisits : ∃ rest, d.player.visits d.window d.flushDirect.chip =
      (d.player, d.flushDirect.chip) :: rest := by
    rw [Player.visits, if_pos hphase]
    exact ⟨_, rfl⟩
  have hstep : ∃ after, d.ingested.stepSignals = .asked true :: .log w :: after := by
    obtain ⟨rest, hrest⟩ := hvisits
    rw [stepSignals, ingested_of_no_upload hupload, if_pos]
    · show ∃ after, d.player.signals d.window d.flushDirect.chip ++ _ = _
      rw [Player.signals, hrest, List.flatMap_cons, Player.turnSignals_of_write hop hready, ← hw,
        if_pos hallowed]
      exact ⟨_, rfl⟩
    · show (d.active && d.timer.elapsed && d.flushDirect.direct.isEmpty) = true
      rw [hactive, helapsed, (Fifo.isEmpty_iff _).mpr hflushed]
      rfl
  obtain ⟨after, hafter⟩ := hstep
  rw [signalsOf, hafter, List.append_assoc]
  exact ⟨_, rfl⟩

/-- The poll in which the playback begins asks the chip once, in vain, for what waits. -/
theorem AboutToBegin.signalsOf_poll {header : Header} (h : d.AboutToBegin header) :
    d.signalsOf .poll = [.asked false] := by
  have hstart := poll_starting h.upload h.pending h.outbox h.updatesNext h.readable
  have hnone : ¬ (d.ingested.active && d.ingested.timer.elapsed &&
      d.ingested.direct.isEmpty) = true := by
    rw [← Device.updatesNext, h.updatesNext]
    exact Bool.false_ne_true
  have hjoined : d.ingested.stepIfDue.sendMessages.joined d.poll = [] := by
    obtain ⟨session, endpoint, outbox, stats, hsent⟩ := sendUpTo_eq 2 d.ingested
    rw [joined, hstart, stepIfDue, if_neg hnone, sendMessages, hsent,
      ingested_of_no_upload h.upload]
    exact List.drop_length
  rw [signalsOf, ← poll_eq, hjoined, WriteQueue.flushSignals_of_busy h.waits h.busy, stepSignals,
    if_neg hnone]
  rfl

/-- A playback begins while the chip is busy. Once it is ready, the chip is told what waited, and
then the first command of the log, if that is a write, right after the check for it. -/
theorem signalsIn_begun {header : Header} (h : d.AboutToBegin header)
    (helapsed : d.timer.elapsed = true) {p : Player} (hp : p = d.player.begun header) {port : Port}
    (hop : p.opcode d.window = .write port) {w : RegisterWrite}
    (hw : w = ⟨port.address (p.past.peek d.window), p.past.past.peek d.window⟩)
    (hallowed : p.filter.allows w = true) :
    ∃ after, d.signalsIn (.poll :: resumed) = [.asked false, .busy false] ++
      d.direct.toList.flatMap (fun w => [.asked true, .direct w]) ++
        .asked true :: .log w :: after := by
  obtain ⟨hwaits, hchip⟩ := WriteQueue.flush_of_busy d.direct h.busy
  have hstart := poll_starting h.upload h.pending h.outbox h.updatesNext h.readable
  -- the device when the chip is ready again
  let d₁ : Device := { d.poll with chip := d.poll.chip.setBusy false }
  have hplayer : d₁.player = { p with requests := .empty } := by
    show d.poll.player = _
    rw [hstart, hp]
  have hdirect : d₁.direct.toList = d.direct.toList := by
    show d.poll.direct.toList = _
    rw [hstart]
    exact hwaits
  have hfree : d₁.chip.busy = false ∧ ∀ n, d₁.chip.accepts n = true := by
    have hpolled : d.poll.chip = d.chip := by
      rw [hstart]
      exact hchip
    refine ⟨rfl, fun n => ?_⟩
    show d.poll.chip.accepts n = true
    rw [hpolled]
    exact h.accepts n
  have hwindow : d₁.window = d.window := by
    show d.poll.window = _
    rw [hstart]
  obtain ⟨hflushed, hready⟩ := WriteQueue.flush_of_free d₁.direct hfree.1 hfree.2
  obtain ⟨after, hafter⟩ := signalsOf_poll_at_write (d := d₁) (w := w)
    (by show d.poll.session.active = false; rw [hstart]; exact h.upload)
    (by show d.poll.active = true; rw [hstart])
    (by show d.poll.timer.elapsed = true; rw [hstart]; exact helapsed) hflushed
    (by rw [hplayer, hp]; exact ⟨rfl, rfl⟩) (by rw [hplayer, hwindow]; exact hop) hready
    (by rw [hplayer, hwindow, hw]; simp only [Player.peek, Player.position_past])
    (by rw [hplayer]; exact hallowed)
  refine ⟨after, ?_⟩
  show d.signalsOf .poll ++ ([.busy false] ++ (d₁.signalsOf .poll ++ [])) = _
  rw [h.signalsOf_poll, hafter, WriteQueue.flushSignals_of_free d₁.direct hfree.1 hfree.2, hdirect,
    List.append_nil]
  simp only [List.cons_append, List.nil_append]

/-- The two packets of a stream that writes a register, waits for a frame and ends. -/
def notePackets : ByteArray × ByteArray :=
  (framePackets.1, ⟨#[0x58, 0x08, 0x0F, 0x62, 0x66] ++ Array.replicate 0x0B 0⟩)

/-- The host sends that stream. -/
def noteSent : List Event :=
  [.configure, .control (Request.openUpload .window 0 0x50).encode.1
    (Request.openUpload .window 0 0x50).encode.2, .push (.data notePackets.1),
    .push (.data notePackets.2)]

/-- The window that the packets leave. -/
def noteWindow : Window :=
  (Window.zero.put 0 notePackets.1 (by decide)).put 64 notePackets.2 (by decide)

theorem byte_noteWindow :
    ∀ i < 0x50, noteWindow.byte i = Bytes.peek (notePackets.1 ++ notePackets.2) i := by
  intro i hi
  have hfirst : notePackets.1.size = 64 := rfl
  have hsecond : notePackets.2.size = 16 := rfl
  rw [noteWindow, Window.byte_put, Bytes.peek_append, hfirst, hsecond]
  by_cases h : i < 64
  · rw [if_neg (by omega), if_pos h, Window.byte_put, if_pos (by omega), Nat.sub_zero]
  · rw [if_pos (by omega), if_neg h]

theorem readHeader_noteWindow : Player.readHeader noteWindow = .ok frameHeader := by
  have hread : Header.read noteWindow.bytes = Header.read (notePackets.1 ++ notePackets.2) :=
    Header.read_congr (by rw [noteWindow.size_eq]; decide) (by decide) byte_noteWindow
  have hstream : Header.read (notePackets.1 ++ notePackets.2) = .ok frameHeader := by decide +kernel
  rw [Player.readHeader, hread, hstream]
  rfl

theorem opcode_noteWindow {p : Player} (hp : p.position = framePlayer.position) :
    p.opcode noteWindow = .write .a := by
  have hbyte : Bytes.peek (notePackets.1 ++ notePackets.2) 0x40 = 0x58 := by decide
  rw [Player.opcode, Player.peek, hp, readOffset_framePlayer]
  rw [byte_noteWindow 0x40 (by omega), hbyte]
  decide

theorem write_noteWindow {p : Player} (hp : p.position = framePlayer.position) :
    (⟨0x008, 0x0F⟩ : RegisterWrite) =
      ⟨Port.a.address (p.past.peek noteWindow), p.past.past.peek noteWindow⟩ := by
  have hregister : Bytes.peek (notePackets.1 ++ notePackets.2) 0x41 = 0x08 := by decide
  have hvalue : Bytes.peek (notePackets.1 ++ notePackets.2) 0x42 = 0x0F := by decide
  have hfirst : framePlayer.position.past.readOffset = 0x41 := by decide
  have hsecond : framePlayer.position.past.past.readOffset = 0x42 := by decide
  rw [Player.peek, Player.peek, Player.position_past, Player.position_past, Player.position_past]
  rw [hp, hfirst, hsecond, byte_noteWindow 0x41 (by omega), byte_noteWindow 0x42 (by omega)]
  rw [hregister, hvalue]
  rfl

theorem loaded_note : (manualDevice.run (noteSent ++ [.poll, .poll])).Loaded noteWindow := by
  have hpolls : manualDevice.run (noteSent ++ [.poll, .poll]) =
      (manualDevice.run noteSent).poll.poll := run_append _ _ _
  rw [hpolls, poll_of_empty (d := manualDevice.run noteSent) rfl, poll_of_empty rfl]
  exact ⟨rfl, rfl, rfl, rfl, rfl, rfl, rfl, rfl, rfl⟩

/-- A start is asked for, ADPCM is muted by hand, and the chip becomes busy. -/
def noteMuted : List Event := [startAsked, .live (.setPcmMuted true), .chip (·.setBusy true)]

/-- The device after that, with what silences ADPCM in the queue. -/
theorem Loaded.run_noteMuted (h : d.Loaded noteWindow) :
    (d.run noteMuted).AboutToBegin frameHeader ∧
      (d.run noteMuted).direct.toList = Silence.adpcmA ++ Silence.adpcmB ∧
      (d.run noteMuted).window = noteWindow ∧ (d.run noteMuted).timer = { manual := true } ∧
      (d.run noteMuted).player = { Player.initial with
        filter := { Player.initial.filter with blocksPcmKeys := true } } ∧
      d.signalsIn noteMuted =
        (Silence.adpcmA ++ Silence.adpcmB).map .queued ++ [.busy true] := by
  let asked : Device := { d with session := d.session.askStart }
  have hqueued := setPcmMuted_of_heard (d := asked) h.muted
  have hdirect : (asked.setPcmMuted true).direct.toList = Silence.adpcmA ++ Silence.adpcmB := by
    rw [hqueued]
    show (WriteQueue.addAll d.direct _).toList = _
    rw [WriteQueue.toList_addAll, h.direct]
    decide
  have hrun : d.run noteMuted = (asked.setPcmMuted true).react (.chip (·.setBusy true)) :=
    congrArg (Device.run · [.live (.setPcmMuted true), .chip (·.setBusy true)]) (react_startAsked d)
  have hsignals : d.signalsIn noteMuted =
      (asked.joined (asked.setPcmMuted true)).map .queued ++ [.busy true] :=
    congrArg (signalsIn · [.live (.setPcmMuted true), .chip (·.setBusy true)]) (react_startAsked d)
  have hjoined : asked.joined (asked.setPcmMuted true) = Silence.adpcmA ++ Silence.adpcmB := by
    have hempty : asked.direct.toList = [] := h.direct
    rw [joined, hdirect, hempty]
    rfl
  rw [hsignals, hjoined, hrun]
  rw [hqueued] at hdirect ⊢
  refine ⟨⟨rfl, ?_, ?_, h.outbox, h.upload, rfl, ?_⟩, hdirect, h.window, h.timer, ?_, rfl⟩
  · intro n
    show d.chip.accepts n = true
    rw [h.chip]
  · intro hempty
    exact absurd (hdirect.symm.trans hempty) (by decide)
  · show Player.readHeader d.window = _
    rw [h.window]
    exact readHeader_noteWindow
  · rw [← h.player]
    rfl

/-- What silences ADPCM is queued, the playback begins while the chip is busy, and then the chip
takes the queue and is asked once more. -/
def noteSignals : List Signal :=
  (Silence.adpcmA ++ Silence.adpcmB).map Signal.queued ++
    ([Signal.busy true, Signal.asked false, Signal.busy false] ++
      (Silence.adpcmA ++ Silence.adpcmB).flatMap (fun w => [Signal.asked true, Signal.direct w]) ++
        [Signal.asked true])

/-- The write of the log comes behind that. -/
theorem Loaded.signalsIn_note (h : d.Loaded noteWindow) :
    ∃ after, d.signalsIn (noteMuted ++ .poll :: resumed) =
      noteSignals ++ Signal.log ⟨0x008, 0x0F⟩ :: after := by
  obtain ⟨hbegins, hdirect, hwindow, htimer, hplayer, hmuted⟩ := h.run_noteMuted
  rw [signalsIn_append, hmuted]
  generalize d.run noteMuted = begins at hbegins hdirect hwindow htimer hplayer ⊢
  have hposition : (begins.player.begun frameHeader).position = framePlayer.position := by
    rw [hplayer]
    rfl
  obtain ⟨after, hafter⟩ := signalsIn_begun (w := ⟨0x008, 0x0F⟩) hbegins (by rw [htimer]; rfl) rfl
    (by rw [hwindow]; exact opcode_noteWindow hposition)
    (by rw [hwindow]; exact write_noteWindow hposition) (by rw [hplayer]; rfl)
  refine ⟨after, ?_⟩
  rw [hafter, hdirect, noteSignals]
  simp only [List.append_assoc, List.cons_append, List.nil_append]

/-- The upload, the muting, and the start of the playback. -/
def noteEvents : List Event := (noteSent ++ [.poll, .poll]) ++ (noteMuted ++ .poll :: resumed)

theorem signalsIn_noteEvents : ∃ after, manualDevice.signalsIn noteEvents =
    noteSignals ++ Signal.log ⟨0x008, 0x0F⟩ :: after := by
  have hsent : manualDevice.signalsIn (noteSent ++ [.poll, .poll]) = [] := by decide +kernel
  obtain ⟨after, hafter⟩ := loaded_note.signalsIn_note
  exact ⟨after, by rw [noteEvents, signalsIn_append, hsent, hafter, List.nil_append]⟩

/-- ADPCM is muted by hand while the chip is busy. -/
def mutedEvents : List Event :=
  [.live (.setPcmMuted true), .chip (·.setBusy true), .poll, .chip (·.setBusy false), .poll, .poll]

/-- A chip that refuses every other check takes two of the writes in three polls, and the others
wait. One that takes every write is told those that silence ADPCM and then the first of the log. -/
theorem writes_ordered_muted :
    (let d := (Device.new {} (.fresh (Recorder.refuseEvery 2) true) { manual := true }).run
      mutedEvents
    d.chip.dropped = 0 ∧ d.chip.writes = Silence.adpcmA ∧ d.direct.toList = Silence.adpcmB) ∧
    let d := manualDevice.run noteEvents
    ∃ after, manualDevice.signalsIn noteEvents =
        noteSignals ++ Signal.log ⟨0x008, 0x0F⟩ :: after ∧
      d.chip.dropped = 0 ∧
      noteSignals.filterMap Signal.direct? = noteSignals.filterMap Signal.queued? ∧
      noteSignals.filterMap Signal.queued? = Silence.adpcmA ++ Silence.adpcmB ∧
      (∃ earlier, noteSignals = earlier ++ [.asked true]) ∧
      Silence.adpcmA ++ Silence.adpcmB ++ [⟨0x008, 0x0F⟩] <+: d.chip.writes := by
  have hbusy : ∀ e ∈ mutedEvents, e.OnlySetsBusy := by
    simp [mutedEvents, Event.OnlySetsBusy]
  have hbusyNote : ∀ e ∈ noteEvents, e.OnlySetsBusy := by
    simp [noteEvents, noteSent, noteMuted, resumed, startAsked, Event.OnlySetsBusy]
  obtain ⟨-, -, -, hdropped, -⟩ :=
    writes_ordered {} (Recorder.refuseEvery 2) { manual := true } hbusy
  have hnote := writes_ordered {} (fun _ => true) { manual := true } hbusyNote
  rw [← manualDevice] at hnote
  obtain ⟨-, -, hwrites, hdropped', -, hlog⟩ := hnote
  obtain ⟨after, hafter⟩ := signalsIn_noteEvents
  obtain ⟨hqueue, hasked⟩ := hlog noteSignals ⟨0x008, 0x0F⟩ after hafter
  have hqueued : noteSignals.filterMap Signal.queued? = Silence.adpcmA ++ Silence.adpcmB := rfl
  have htold : noteSignals.filterMap Signal.write? = Silence.adpcmA ++ Silence.adpcmB := rfl
  refine ⟨⟨hdropped, by decide +kernel⟩, after, hafter, hdropped', hqueue, hqueued, hasked, ?_⟩
  rw [hwrites, hafter, List.filterMap_append, htold]
  exact ⟨after.filterMap Signal.write?, List.append_assoc _ _ _⟩

end Device
end ChipReplay
