import ChipReplay.Proofs.Device.Replacement
import ChipReplay.Proofs.Player.Signals
/-!
# The countdown outlives its playback

The timer has no way to be stopped: a start leaves it alone, so what is left of the old playback's
countdown delays the first command of the new one (`AboutToPause.position`). Two devices that agree
on everything but what they play need not go on alike for that reason
(`Device.countdown_outlives_playback`).
-/

namespace ChipReplay

/-- The queue stays as it is while the chip is busy. -/
theorem WriteQueue.flush_of_busy (q : WriteQueue) {chip : Recorder} (hbusy : chip.busy = true) :
    (flush q chip).2.1.toList = q.toList ∧ (flush q chip).2.2 = chip := by
  have hready : chip.ready = (false, chip) := by rw [Recorder.ready, if_pos hbusy]
  rw [flush]
  split
  · exact ⟨rfl, rfl⟩
  · next hpop =>
    rw [hready]
    exact ⟨by rw [Fifo.toList_pushFront, Fifo.toList_of_pop? hpop], rfl⟩

/-- A chip that takes every write empties the queue, and is ready after that. -/
theorem WriteQueue.flush_of_free (q : WriteQueue) {chip : Recorder} (hfree : chip.busy = false)
    (haccepts : ∀ n, chip.accepts n = true) :
    (flush q chip).2.1.toList = [] ∧ (flush q chip).2.2.ready.1 = true := by
  fun_induction flush q chip with
  | case1 q chip hpop =>
    refine ⟨(Fifo.pop?_eq_none_iff q).mp hpop, ?_⟩
    rw [Recorder.ready, if_neg (by simp [hfree])]
    exact haccepts _
  | case2 q chip w rest hpop chip' hready =>
    obtain ⟨hanswer, -⟩ := Recorder.write_of_free hfree haccepts hready w
    cases hanswer
  | case3 q chip w rest hpop chip' hready ih =>
    obtain ⟨-, hwritten⟩ := Recorder.write_of_free hfree haccepts hready w
    exact ih hwritten.1 hwritten.2

namespace Device
variable {d : Device}

/-- A poll that finds the player at a pause plays it. -/
theorem poll_at_pause (hupload : d.session.active = false)
    (hpending : d.session.startPending = false) (hdirect : d.flushDirect.direct.toList = [])
    (hactive : d.active = true) (helapsed : d.timer.elapsed = true)
    (hphase : d.player.phase = .playing ∧ d.player.started = true) {samples : UInt32}
    (hop : d.player.opcode d.window = .pause samples) (hwaits : samples ≠ 0) :
    d.poll.player.position = d.player.past.position ∧ d.poll.timer = d.timer.arm samples ∧
      d.poll.chip = d.flushDirect.chip ∧ d.poll.window = d.window ∧
      d.poll.pcmMuted = d.pcmMuted := by
  have hingested := ingested_of_no_upload hupload
  have hturn : d.player.turn d.window d.flushDirect.chip =
      (.waits samples, d.player.past, d.flushDirect.chip) := by
    simp [Player.turn, Player.askChip, Player.step_eq, hop, Opcode.isWrite, Player.Ending.ofStep,
      hwaits]
  obtain ⟨hupdate, -⟩ := Player.update_of_turn hphase hturn (by simp) d.timer
  obtain ⟨requests, htaken, -⟩ := d.player.past.takeRequest_eq
  have hstep : d.ingested.stepIfDue = d.ingested.step := by
    rw [stepIfDue, hingested, if_pos]
    show (d.active && d.timer.elapsed && d.flushDirect.direct.isEmpty) = true
    rw [hactive, helapsed, (Fifo.isEmpty_iff _).mpr hdirect]
    rfl
  obtain ⟨active, voices, direct, lastError, stats, hstepped⟩ := d.ingested.step_eq
  rw [hingested] at hstepped
  replace hupdate : d.player.update d.window d.flushDirect.chip d.timer = _ := hupdate
  obtain ⟨session, endpoint, outbox, stats', hpoll⟩ := poll_of_held hpending
  rw [hpoll, hstep, hingested, hstepped]
  refine ⟨?_, ?_, ?_, rfl, rfl⟩
  · show (d.player.update d.window d.flushDirect.chip d.timer).player.position = _
    rw [hupdate, htaken]
  · show (d.player.update d.window d.flushDirect.chip d.timer).timer = _
    rw [hupdate]
    rfl
  · show (d.player.update d.window d.flushDirect.chip d.timer).chip = _
    rw [hupdate]

/-- The device is about to begin with the stream in its window. The writes that wait keep the next
poll from updating the player. -/
structure AboutToBegin (d : Device) (header : Header) : Prop where
  busy : d.chip.busy = true
  accepts : ∀ n, d.chip.accepts n = true
  waits : d.direct.toList ≠ []
  outbox : d.outbox.toList = []
  upload : d.session.active = false
  pending : d.session.startPending = true
  readable : Player.readHeader d.window = .ok header

theorem AboutToBegin.updatesNext {header : Header} (h : d.AboutToBegin header) :
    d.updatesNext = false := by
  obtain ⟨hwaits, -⟩ := WriteQueue.flush_of_busy d.direct h.busy
  have hnotEmpty : d.flushDirect.direct.isEmpty = false := by
    refine eq_false_of_ne_true fun hempty => h.waits ?_
    rw [← hwaits]
    exact (Fifo.isEmpty_iff _).mp hempty
  rw [Device.updatesNext, ingested_of_no_upload h.upload]
  show (d.active && d.timer.elapsed && d.flushDirect.direct.isEmpty) = false
  rw [hnotEmpty, Bool.and_false]

/-- The device is about to begin with a stream whose first command is a pause. -/
structure AboutToPause (d : Device) (header : Header) (samples : UInt32) : Prop
    extends d.AboutToBegin header where
  opcode : (d.player.begun header).opcode d.window = .pause samples
  samples : samples ≠ 0

namespace AboutToPause

variable {header : Header} {samples : UInt32}

/-- The chip becomes ready after the start, and the device is polled: the player is at the pause if
the old countdown still runs, and behind it if not. -/
theorem position (h : d.AboutToPause header samples) :
    (d.poll.run [.chip (·.setBusy false), .poll]).player.position =
      if d.timer.elapsed then (d.player.begun header).past.position
      else (d.player.begun header).position := by
  obtain ⟨-, hchip⟩ := WriteQueue.flush_of_busy d.direct h.busy
  have hstart := poll_starting h.upload h.pending h.outbox h.updatesNext h.readable
  have hready : d.poll.chip = d.chip := by
    rw [hstart]
    exact hchip
  let d₁ : Device := { d.poll with chip := d.poll.chip.setBusy false }
  have hupload : d₁.session.active = false := by
    show d.poll.session.active = false
    rw [hstart]
    exact h.upload
  have hpending : d₁.session.startPending = false := by
    show d.poll.session.startPending = false
    rw [hstart]
    rfl
  have hplayer : d₁.player = { d.player.begun header with requests := .empty } := by
    show d.poll.player = _
    rw [hstart]
  have htimer : d₁.timer = d.timer := by
    show d.poll.timer = _
    rw [hstart]
  have hactive : d₁.active = true := by
    show d.poll.active = _
    rw [hstart]
  show d₁.poll.player.position = _
  split
  · next helapsed =>
    have hfree : d₁.chip.busy = false ∧ ∀ n, d₁.chip.accepts n = true := by
      show (d.poll.chip.setBusy false).busy = false ∧
        ∀ n, (d.poll.chip.setBusy false).accepts n = true
      rw [hready]
      exact ⟨rfl, h.accepts⟩
    have hop : d₁.player.opcode d₁.window = .pause samples := by
      have hwindow : d₁.window = d.window := by
        show d.poll.window = _
        rw [hstart]
      rw [hplayer, hwindow]
      exact h.opcode
    obtain ⟨hposition, -⟩ := poll_at_pause hupload hpending
      (WriteQueue.flush_of_free d₁.direct hfree.1 hfree.2).1 hactive (htimer ▸ helapsed)
      (by rw [hplayer]; exact ⟨rfl, rfl⟩) hop h.samples
    rw [hposition, Player.position_past, Player.position_past, hplayer]
  · next hruns =>
    obtain ⟨session, endpoint, outbox, stats, hpoll⟩ := poll_of_held hpending
    have hstep : d₁.ingested.stepIfDue = d₁.ingested := by
      rw [stepIfDue, ingested_of_no_upload hupload, if_neg]
      show ¬ (d₁.active && d₁.timer.elapsed && d₁.flushDirect.direct.isEmpty) = true
      rw [htimer, eq_false_of_ne_true hruns, Bool.and_false, Bool.false_and]
      exact Bool.false_ne_true
    rw [hpoll, hstep, ingested_of_no_upload hupload]
    show d₁.player.position = _
    rw [hplayer]

end AboutToPause

/-! ## A replaced playback -/

theorem poll_of_empty (h : d.direct.toList = []) :
    d.poll = ({ d with stats := { d.stats with polls := d.stats.polls + 1 } } :
      Device).ingest.stepIfDue.sendMessages.startIfAsked := by
  have hflush := flushDirect_of_empty
    (d := { d with stats := { d.stats with polls := d.stats.polls + 1 } }) h
  unfold poll
  dsimp only
  rw [hflush]

/-- The host asks for a start. -/
def startAsked : Event :=
  .control Request.startPlayback.encode.1 Request.startPlayback.encode.2

theorem react_startAsked (d : Device) :
    d.react startAsked = { d with session := d.session.askStart } := by
  have hdecode : Request.decode Request.startPlayback.encode.1 Request.startPlayback.encode.2 =
      .ok (some .startPlayback) := rfl
  unfold react startAsked control Session.control
  dsimp only
  rw [hdecode]

/-- The two packets that a stream which waits for a frame comes in. -/
def framePackets : ByteArray × ByteArray :=
  (⟨vgmIdent.toArray ++ Array.replicate 0x3C 0⟩, ⟨#[0x62, 0x66] ++ Array.replicate 0x0E 0⟩)

/-- The host sends that stream. -/
def frameSent : List Event :=
  [.configure, .control (Request.openUpload .window 0 0x50).encode.1
    (Request.openUpload .window 0 0x50).encode.2, .push (.data framePackets.1),
    .push (.data framePackets.2)]

/-- A device with an idle chip and a timer that waits to be advanced. -/
def manualDevice : Device := Device.new {} (.fresh (fun _ => true) true) { manual := true }

/-- The window that the packets leave. -/
def sentWindow : Window :=
  (Window.zero.put 0 framePackets.1 (by decide)).put 64 framePackets.2 (by decide)

theorem byte_sentWindow : ∀ i < 0x50, sentWindow.byte i = Bytes.peek frameStream i := by
  have hpackets : ∀ i < 0x50, (if 64 ≤ i ∧ i < 64 + framePackets.2.size then
      Bytes.peek framePackets.2 (i - 64) else Bytes.peek framePackets.1 i) =
        Bytes.peek frameStream i := by decide +kernel
  intro i hi
  rw [← hpackets i hi, sentWindow, Window.byte_put]
  split
  · rfl
  · next hfirst =>
    have hsizes : framePackets.1.size = 64 ∧ framePackets.2.size = 16 := ⟨rfl, rfl⟩
    rw [Window.byte_put, if_pos (by omega), Nat.sub_zero]

theorem readHeader_frameStream {w : Window}
    (hw : ∀ i < 0x50, w.byte i = Bytes.peek frameStream i) :
    Player.readHeader w = .ok frameHeader := by
  obtain ⟨header, hread, -, hplayer⟩ := Player.begin_eq_ok (begin_frameStream hw)
  have hheader : some frameHeader = some header := congrArg Player.header hplayer
  rw [hread, Option.some.inj hheader]

/-- What the device is like once a stream has been stored, which leaves the window `w`. -/
structure Loaded (d : Device) (w : Window) : Prop where
  window : d.window = w
  player : d.player = Player.initial
  timer : d.timer = { manual := true }
  upload : d.session.active = false
  outbox : d.outbox.toList = []
  direct : d.direct.toList = []
  inactive : d.active = false
  muted : d.pcmMuted = false
  chip : d.chip.accepts = fun _ => true

theorem loaded_frame : (manualDevice.run (frameSent ++ [.poll, .poll])).Loaded sentWindow := by
  have hpolls : manualDevice.run (frameSent ++ [.poll, .poll]) =
      (manualDevice.run frameSent).poll.poll := run_append _ _ _
  rw [hpolls, poll_of_empty (d := manualDevice.run frameSent) rfl, poll_of_empty rfl]
  exact ⟨rfl, rfl, rfl, rfl, rfl, rfl, rfl, rfl, rfl⟩

/-- What the device is like once the playback has been interrupted: it still waits, and has nothing
to send and no upload. -/
structure Interrupted (d : Device) : Prop where
  window : d.window = sentWindow
  timer : d.timer = Timer.arm { manual := true } Opcode.frame60
  upload : d.session.active = false
  outbox : d.outbox.toList = []
  inSlot : d.endpoint.inSlot = none
  direct : d.direct.toList ≠ []
  chip : d.chip.accepts = fun _ => true
  busy : d.chip.busy = true

/-- The host configures the device and reads what is left, and ADPCM is muted while the chip is
busy. -/
def interruption : List Event :=
  [.read, .configure, .live (.setPcmMuted true), .chip (·.setBusy true)]

/-- ADPCM is muted by hand. -/
theorem setPcmMuted_of_heard (hmuted : d.pcmMuted = false) :
    d.setPcmMuted true = (({ d with pcmMuted := true } : Device).updateFilter
      fun f => { f with blocksPcmKeys := true }).queueWrites
        (Silence.adpcmA ++ Silence.adpcmB) := by
  rw [setPcmMuted, if_neg]
  · rfl
  · rw [hmuted]
    exact Bool.true_eq_false.mp

theorem interrupted_of_waiting (hwindow : d.window = sentWindow)
    (htimer : d.timer = Timer.arm { manual := true } Opcode.frame60) (hmuted : d.pcmMuted = false)
    (haccepts : d.chip.accepts = fun _ => true) : (d.run interruption).Interrupted := by
  let configured : Device := ({ d with endpoint := d.endpoint.takeIn.2 } : Device).configure
  have hqueued := setPcmMuted_of_heard (d := configured) hmuted
  show ((configured.setPcmMuted true).react (.chip (·.setBusy true))).Interrupted
  rw [hqueued]
  refine ⟨hwindow, htimer, rfl, rfl, ?_, ?_, haccepts, rfl⟩
  · show (((({ d.endpoint with inSlot := none } : Endpoint).setEnabled true).arm .first).arm
      .second).inSlot = none
    rw [Endpoint.inSlot_arm, Endpoint.inSlot_arm, Endpoint.inSlot_setEnabled]
  · show (WriteQueue.addAll d.direct (Silence.adpcmA ++ Silence.adpcmB)).toList ≠ []
    rw [WriteQueue.toList_addAll]
    simp [Silence.adpcmA]

/-- The playback is started, and the poll after that begins the wait. -/
theorem Loaded.interrupted (h : d.Loaded sentWindow) :
    ((d.react startAsked).poll.poll.run interruption).Interrupted := by
  have hread : Player.readHeader d.window = .ok frameHeader := by
    rw [h.window]
    exact readHeader_frameStream byte_sentWindow
  rw [react_startAsked]
  let asked : Device := { d with session := d.session.askStart }
  have hnone : asked.updatesNext = false := by
    rw [Device.updatesNext, ingested_of_no_upload (d := asked) h.upload]
    show (d.active && _ && _) = false
    rw [h.inactive]
    rfl
  have hstarted := poll_starting (d := asked) h.upload rfl h.outbox hnone hread
  rw [flushDirect_of_empty (d := asked) h.direct] at hstarted
  have hflush : asked.poll.flushDirect = asked.poll := by
    refine flushDirect_of_empty ?_
    rw [hstarted]
    exact h.direct
  have hop : asked.poll.player.opcode asked.poll.window = .pause Opcode.frame60 := by
    rw [hstarted]
    show framePlayer.opcode d.window = _
    rw [h.window]
    exact opcode_framePlayer byte_sentWindow
  obtain ⟨-, htimer, hchip, hwindow, hmuted⟩ := poll_at_pause (d := asked.poll)
    (by rw [hstarted]; exact h.upload) (by rw [hstarted]; rfl)
    (by rw [hflush, hstarted]; exact h.direct) (by rw [hstarted])
    (by rw [hstarted]; show d.timer.elapsed = true; rw [h.timer]; rfl)
    (by rw [hstarted]; exact ⟨rfl, rfl⟩) hop (by decide)
  rw [hflush] at hchip
  refine interrupted_of_waiting ?_ ?_ ?_ ?_
  · rw [hwindow, hstarted]
    exact h.window
  · rw [htimer, hstarted]
    exact congrArg (Timer.arm · _) h.timer
  · rw [hmuted, hstarted]
    exact h.muted
  · rw [hchip, hstarted]
    exact h.chip

/-- The stream is stored, the playback is started and its wait begins, and then it is interrupted.
-/
def interrupted : List Event :=
  (frameSent ++ [.poll, .poll]) ++ ([startAsked, .poll, .poll] ++ interruption)

theorem interrupted_manualDevice : (manualDevice.run interrupted).Interrupted := by
  have hrun (d : Device) : d.run ([startAsked, .poll, .poll] ++ interruption) =
      (d.react startAsked).poll.poll.run interruption := rfl
  rw [interrupted, run_append, hrun]
  exact loaded_frame.interrupted

/-- A start that is asked for now finds the first command of the stream. -/
theorem Interrupted.aboutToPause (h : d.Interrupted) (timer : Timer) :
    ({ d with session := d.session.askStart, timer } : Device).AboutToPause frameHeader
      Opcode.frame60 where
  busy := h.busy
  accepts n := by
    show d.chip.accepts n = true
    rw [h.chip]
  waits := h.direct
  outbox := h.outbox
  upload := h.upload
  pending := rfl
  readable := by
    show Player.readHeader d.window = _
    rw [h.window]
    exact readHeader_frameStream byte_sentWindow
  opcode := by
    show framePlayer.opcode d.window = _
    rw [h.window]
    exact opcode_framePlayer byte_sentWindow
  samples := by decide

/-- The device after a start that is asked for when the wait has gone by, and when it has not. -/
theorem run_expired (d : Device) (samples : UInt32) :
    d.run [.time (·.advance samples), startAsked] =
      { d with session := d.session.askStart, timer := d.timer.advance samples } :=
  react_startAsked _

theorem run_startAsked (d : Device) :
    d.run [startAsked] = { d with session := d.session.askStart, timer := d.timer } :=
  react_startAsked d

/-- The chip becomes ready, and the device is polled. -/
def resumed : List Event := [.chip (·.setBusy false), .poll]

theorem Interrupted.delays (h : d.Interrupted) :
    let e := d.run [.time (·.advance Opcode.frame60), startAsked]
    let e' := d.run [startAsked]
    (e.SameStart e' ∧ e.endpoint.inSlot = none ∧ e.timer.manual = true ∧ e'.timer.manual = true) ∧
      (e'.poll.run resumed).player.position ≠ (e.poll.run resumed).player.position := by
  rw [run_expired, run_startAsked]
  intro e e'
  have habout : e.AboutToPause frameHeader Opcode.frame60 := h.aboutToPause _
  have habout' : e'.AboutToPause frameHeader Opcode.frame60 := h.aboutToPause _
  have hover : e.timer = (Timer.arm { manual := true } Opcode.frame60).advance Opcode.frame60 :=
    congrArg (Timer.advance · _) h.timer
  have hruns : e'.timer = Timer.arm { manual := true } Opcode.frame60 := h.timer
  have hbegins := Player.begin_of_readHeader habout.readable e.player
  have hbegins' := Player.begin_of_readHeader habout'.readable e'.player
  refine ⟨⟨⟨by constructor <;> rfl, ⟨habout.outbox, habout'.outbox⟩, habout.upload, habout.pending,
    ⟨habout.updatesNext, habout'.updatesNext⟩, congrArg Prod.fst hbegins,
    congrArg Prod.fst hbegins'⟩, h.inSlot, ?_⟩, ?_⟩
  · rw [hover, hruns]
    exact ⟨rfl, rfl⟩
  · have hmoves : Position.enter .linear frameHeader.start.toNat frameHeader.start ≠
        (Position.enter .linear frameHeader.start.toNat frameHeader.start).past := by decide
    rw [resumed, habout.position, habout'.position, hover, hruns, if_neg (by decide),
      if_pos (by decide), Player.position_past]
    exact hmoves

/-- A new playback depends on the one that it replaces. Two runs of a device differ in a single
event: in the first the wait of the old playback goes by before a start is asked for, in the second
it does not. So the same start is waiting on two devices that agree on everything but their timers.
But when the chip becomes ready and the devices are polled once more, their players are at different
places: one has played its first command, the other still waits. -/
theorem countdown_outlives_playback :
    let d := manualDevice.run (interrupted ++ [.time (·.advance Opcode.frame60), startAsked])
    let d' := manualDevice.run (interrupted ++ [startAsked])
    (d.SameStart d' ∧ d.endpoint.inSlot = none ∧ d.timer.manual = true ∧ d'.timer.manual = true) ∧
      (d'.poll.run resumed).player.position ≠ (d.poll.run resumed).player.position := by
  rw [run_append, run_append]
  exact interrupted_manualDevice.delays

end Device
end ChipReplay
