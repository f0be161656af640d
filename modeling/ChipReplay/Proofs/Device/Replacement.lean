import ChipReplay.Proofs.Device.Link
/-!
# A new playback replaces the old one

A start sets everything that the player knows about its stream anew. What it does not touch is the
timer: the countdown that the old playback left runs on, and the new one waits for it. Two devices
that agree on everything else (`Device.SameBesidePlayback`) and on the samples left to wait are
`Alike` once the same playback has been started on both, and stay so.
-/

namespace ChipReplay

/-! ## The timer -/

namespace Timer

variable {t t' : Timer}

/-- Both timers run out at the same time. -/
structure Alike (t t' : Timer) : Prop where
  manual : t'.manual = t.manual
  remaining : t'.remaining = t.remaining

theorem Alike.elapsed (h : t.Alike t') : t'.elapsed = t.elapsed := by
  rw [Timer.elapsed, Timer.elapsed, h.remaining]

theorem Alike.arm (h : t.Alike t') (samples : UInt32) : (t.arm samples).Alike (t'.arm samples) := by
  unfold Timer.arm
  split
  · exact h
  · refine ⟨h.manual, ?_⟩
    dsimp only
    rw [h.manual, h.remaining]

theorem Alike.advance (h : t.Alike t') (samples : UInt32) :
    (t.advance samples).Alike (t'.advance samples) := by
  refine ⟨h.manual, ?_⟩
  rw [Timer.advance, Timer.advance, h.remaining]

end Timer

namespace Device

variable {d d' : Device}

/-! ## Devices that go on alike -/

/-- The devices differ only in how their timers came to the count that is left, in what they have
counted, and in what they have refused last. -/
def Alike (d d' : Device) : Prop :=
  ∃ timer stats lastUploadError, d.timer.Alike timer ∧
    d' = { d with timer, stats, lastUploadError }

namespace Alike

theorem flushDirect (h : d.Alike d') : d.flushDirect.Alike d'.flushDirect := by
  obtain ⟨timer, stats, lastUploadError, htimer, rfl⟩ := h
  exact ⟨timer, stats, lastUploadError, htimer, rfl⟩

theorem storeWindow (h : d.Alike d') (offset : Nat) (bytes : ByteArray) :
    (d.storeWindow offset bytes).Alike (d'.storeWindow offset bytes) := by
  obtain ⟨timer, stats, lastUploadError, htimer, rfl⟩ := h
  unfold Device.storeWindow
  dsimp only
  split
  · split <;> exact ⟨_, _, _, htimer, rfl⟩
  · split <;> exact ⟨_, _, _, htimer, rfl⟩

theorem storeSamples (h : d.Alike d') (offset : Nat) (bytes : ByteArray) :
    (d.storeSamples offset bytes).Alike (d'.storeSamples offset bytes) := by
  obtain ⟨timer, stats, lastUploadError, htimer, rfl⟩ := h
  unfold Device.storeSamples
  dsimp only
  split <;> exact ⟨_, _, _, htimer, rfl⟩

theorem store (h : d.Alike d') (c : Chunk) : (d.store c).Alike (d'.store c) := by
  obtain ⟨timer, stats, lastUploadError, htimer, rfl⟩ := h
  unfold Device.store
  dsimp only
  split
  · refine storeSamples ?_ c.offset c.bytes
    exact ⟨_, _, _, htimer, rfl⟩
  · refine storeWindow ?_ c.offset c.bytes
    exact ⟨_, _, _, htimer, rfl⟩

theorem ingest (h : d.Alike d') : d.ingest.Alike d'.ingest := by
  obtain ⟨timer, stats, lastUploadError, htimer, rfl⟩ := h
  unfold Device.ingest
  dsimp only
  rcases d.session.poll d.endpoint with ⟨_ | _ | c, session, endpoint⟩
  · exact ⟨_, _, _, htimer, rfl⟩
  · exact ⟨_, _, _, htimer, rfl⟩
  · refine store ?_ c
    exact ⟨_, _, _, htimer, rfl⟩

theorem fail (h : d.Alike d') (e : PlayError) : (d.fail e).Alike (d'.fail e) := by
  obtain ⟨timer, stats, lastUploadError, htimer, rfl⟩ := h
  exact ⟨_, _, _, htimer, rfl⟩

/-- Both are updated in the same way. -/
theorem step (h : d.Alike d') : d.step.Alike d'.step := by
  obtain ⟨timer, stats, lastUploadError, htimer, rfl⟩ := h
  have hupdate := d.player.update_timer d.window d.chip d.timer d.timer
  have hupdate' := d.player.update_timer d.window d.chip d.timer timer
  unfold Device.step
  dsimp only
  rw [hupdate']
  generalize d.player.update d.window d.chip d.timer = u at hupdate
  have hsame (d₁ : Device) (htimer₁ : d₁.timer = u.timer) (stats : DeviceStats) :
      d₁.Alike { d₁ with timer := timer.arm u.outcome.delay, stats, lastUploadError } := by
    refine ⟨_, _, _, ?_, rfl⟩
    rw [htimer₁, hupdate]
    exact htimer.arm u.outcome.delay
  dsimp only
  cases u.outcome.error with
  | none => exact hsame _ rfl _
  | some e =>
    dsimp only
    by_cases hfatal : e.isFatal = true
    · rw [if_pos hfatal, if_pos hfatal]
      exact fail (hsame _ rfl _) e
    · rw [if_neg hfatal, if_neg hfatal]
      exact hsame _ rfl _

theorem stepIfDue (h : d.Alike d') : d.stepIfDue.Alike d'.stepIfDue := by
  have hdue : (d'.active && d'.timer.elapsed && d'.direct.isEmpty) =
      (d.active && d.timer.elapsed && d.direct.isEmpty) := by
    obtain ⟨timer, stats, lastUploadError, htimer, rfl⟩ := h
    dsimp only
    rw [htimer.elapsed]
  unfold Device.stepIfDue
  rw [hdue]
  split
  · exact h.step
  · exact h

theorem sendUpTo (h : d.Alike d') (limit : Nat) : (d.sendUpTo limit).Alike (d'.sendUpTo limit) := by
  induction limit generalizing d d' with
  | zero => exact h
  | succ limit ih =>
    obtain ⟨timer, stats, lastUploadError, htimer, rfl⟩ := h
    unfold Device.sendUpTo
    dsimp only
    rcases d.outbox.pop? with _ | ⟨message, outbox⟩
    · exact ⟨_, _, _, htimer, rfl⟩
    · have hsend : ({ d with timer, stats, lastUploadError } : Device).sendMessage message =
          d.sendMessage message := by
        cases message <;> rfl
      dsimp only
      rw [hsend]
      rcases d.sendMessage message with ⟨_ | _, session, endpoint⟩
      · exact ih ⟨_, _, _, htimer, rfl⟩
      · exact ⟨_, _, _, htimer, rfl⟩

theorem startPlayback (h : d.Alike d') : d.startPlayback.Alike d'.startPlayback := by
  obtain ⟨timer, stats, lastUploadError, htimer, rfl⟩ := h
  unfold Device.startPlayback
  dsimp only
  rcases d.player.begin d.window with ⟨e | _, q⟩
  · refine fail ?_ e
    exact ⟨_, _, _, htimer, rfl⟩
  · exact ⟨_, _, _, htimer, rfl⟩

theorem startIfAsked (h : d.Alike d') : d.startIfAsked.Alike d'.startIfAsked := by
  obtain ⟨timer, stats, lastUploadError, htimer, rfl⟩ := h
  unfold Device.startIfAsked
  dsimp only
  split
  · refine startPlayback ?_
    exact ⟨_, _, _, htimer, rfl⟩
  · exact ⟨_, _, _, htimer, rfl⟩

theorem poll (h : d.Alike d') : d.poll.Alike d'.poll := by
  have hcounted : ({ d with stats := { d.stats with polls := d.stats.polls + 1 } } : Device).Alike
      { d' with stats := { d'.stats with polls := d'.stats.polls + 1 } } := by
    obtain ⟨timer, stats, lastUploadError, htimer, rfl⟩ := h
    exact ⟨_, _, _, htimer, rfl⟩
  exact (hcounted.flushDirect.ingest.stepIfDue.sendUpTo 2).startIfAsked

theorem setMask (h : d.Alike d') (mask : ChannelSet) :
    (d.setMask mask).Alike (d'.setMask mask) := by
  obtain ⟨timer, stats, lastUploadError, htimer, rfl⟩ := h
  exact ⟨_, _, _, htimer, rfl⟩

theorem setPitchFilter (h : d.Alike d') (on : Bool) :
    (d.setPitchFilter on).Alike (d'.setPitchFilter on) := by
  obtain ⟨timer, stats, lastUploadError, htimer, rfl⟩ := h
  exact ⟨_, _, _, htimer, rfl⟩

theorem setPcmMuted (h : d.Alike d') (on : Bool) :
    (d.setPcmMuted on).Alike (d'.setPcmMuted on) := by
  obtain ⟨timer, stats, lastUploadError, htimer, rfl⟩ := h
  unfold Device.setPcmMuted
  dsimp only
  split <;> exact ⟨_, _, _, htimer, rfl⟩

theorem midiByte (h : d.Alike d') (byte : UInt8) : (d.midiByte byte).Alike (d'.midiByte byte) := by
  obtain ⟨timer, stats, lastUploadError, htimer, rfl⟩ := h
  unfold Device.midiByte
  dsimp only
  rcases d.midi.push byte with ⟨_ | message, midi⟩
  · exact ⟨_, _, _, htimer, rfl⟩
  · cases message <;> exact ⟨_, _, _, htimer, rfl⟩

theorem live (h : d.Alike d') (event : LiveEvent) : (d.live event).Alike (d'.live event) := by
  cases event with
  | setMask mask => exact h.setMask mask
  | solo channel => exact h.setMask (.single channel)
  | unmuteAll => exact ((h.setMask .all).setPitchFilter false).setPcmMuted false
  | setPitchFilter on => exact h.setPitchFilter on
  | setPcmMuted on => exact h.setPcmMuted on
  | midi byte => exact h.midiByte byte

end Alike

/-- If the event lets time pass, then by the count that is left. -/
def Event.CountsAlike : Event → Prop
  | .time change => ∀ t t', t.Alike t' → (change t).Alike (change t')
  | _ => True

theorem Alike.react (h : d.Alike d') {e : Event} (hcounts : e.CountsAlike) :
    (d.react e).Alike (d'.react e) := by
  cases e with
  | poll => exact h.poll
  | live event => exact h.live event
  | time change =>
    obtain ⟨timer, stats, lastUploadError, htimer, rfl⟩ := h
    exact ⟨_, _, _, hcounts _ _ htimer, rfl⟩
  | control setup data =>
    obtain ⟨timer, stats, lastUploadError, htimer, rfl⟩ := h
    exact ⟨_, _, _, htimer, rfl⟩
  | configure | push | read | chip =>
    obtain ⟨timer, stats, lastUploadError, htimer, rfl⟩ := h
    exact ⟨_, _, _, htimer, rfl⟩

theorem Alike.run (h : d.Alike d') {events : List Event} (hcount : ∀ e ∈ events, e.CountsAlike) :
    (d.run events).Alike (d'.run events) := by
  induction events generalizing d d' with
  | nil => exact h
  | cons e events ih =>
    obtain ⟨hcounts, hcount⟩ := List.forall_mem_cons.mp hcount
    exact ih (h.react hcounts) hcount

/-! ## A start without an upload -/

/-- Whether the next poll updates the player. -/
def updatesNext (d : Device) : Bool :=
  d.ingested.active && d.ingested.timer.elapsed && d.ingested.direct.isEmpty

/-- Without an upload a poll takes nothing in. -/
theorem ingested_of_no_upload (h : d.session.active = false) :
    d.ingested =
      ({ d with stats := { d.stats with polls := d.stats.polls + 1 } } : Device).flushDirect := by
  have hpoll (d₁ : Device) (hactive : d₁.session.active = false) : d₁.ingest = d₁ := by
    unfold ingest
    rw [Session.poll_of_inactive hactive]
  exact hpoll _ h

/-- A poll that does not update the player and finds a start waiting begins with the stream that is
in the window. -/
theorem poll_starting (hupload : d.session.active = false)
    (hpending : d.session.startPending = true) (houtbox : d.outbox.toList = [])
    (hnone : d.updatesNext = false) {header : Header}
    (hread : Player.readHeader d.window = .ok header) :
    d.poll = { d with
      chip := d.flushDirect.chip
      direct := d.flushDirect.direct
      player := { d.player.begun header with requests := .empty }
      session := { d.session with startPending := false }.resetSequence
      outbox := (Fifo.empty.push (.status Notification.playbackStarted)).pushAll
        ((d.player.begun header).requests.toList.map .refill)
      samples := d.samples.setPcmEnabled true
      lastError := none
      active := true
      stats := { d.stats with polls := d.stats.polls + 1 } } := by
  have hingested := ingested_of_no_upload hupload
  have hstep : d.ingested.stepIfDue = d.ingested := by
    unfold updatesNext at hnone
    rw [stepIfDue, hnone]
    rfl
  have htaken : ({ d with stats := { d.stats with polls := d.stats.polls + 1 } } :
      Device).flushDirect.session.takeStart =
        (true, { d.session with startPending := false }) := by
    show d.session.takeStart = _
    rw [Session.takeStart, if_neg (by simp [hupload]), hpending]
  have hsent : d.ingested.sendMessages = d.ingested :=
    sendMessages_of_empty (by rw [hingested]; exact houtbox)
  rw [poll_eq, hstep, hsent, hingested, startIfAsked, htaken]
  exact startPlayback_of_ok (Player.begin_of_readHeader hread d.player)

/-! ## Two playbacks -/

/-- The devices agree on everything but what they play: on all but their players, of which they
agree on what the filter blocks, their timers, whether they are playing, and what they have counted
and reported. -/
structure SameBesidePlayback (d d' : Device) : Prop where
  config : d'.config = d.config
  chip : d'.chip = d.chip
  samples : d'.samples = d.samples
  endpoint : d'.endpoint = d.endpoint
  window : d'.window = d.window
  session : d'.session = d.session
  direct : d'.direct = d.direct
  voices : d'.voices = d.voices
  midi : d'.midi = d.midi
  pcmMuted : d'.pcmMuted = d.pcmMuted
  mask : d'.player.filter.mask = d.player.filter.mask
  blocksPitch : d'.player.filter.blocksPitch = d.player.filter.blocksPitch
  blocksPcmKeys : d'.player.filter.blocksPcmKeys = d.player.filter.blocksPcmKeys

/-- Of the old player, a playback takes over what the filter blocks. -/
theorem SameBesidePlayback.begun (h : d.SameBesidePlayback d') (header : Header) :
    d'.player.begun header = d.player.begun header := by
  have hfilter : d'.player.filter.resetLevel = d.player.filter.resetLevel := by
    unfold ChannelFilter.resetLevel
    rw [h.mask, h.blocksPitch, h.blocksPcmKeys]
  unfold Player.begun
  rw [hfilter]

/-- The same start is waiting on both devices, which agree on everything but what they play: nothing
is to be sent or stored, and the next poll updates neither player and begins a playback on both. -/
structure SameStart (d d' : Device) : Prop where
  beside : d.SameBesidePlayback d'
  outbox : d.outbox.toList = [] ∧ d'.outbox.toList = []
  upload : d.session.active = false
  pending : d.session.startPending = true
  held : d.updatesNext = false ∧ d'.updatesNext = false
  begins : (d.player.begin d.window).1 = .ok () ∧ (d'.player.begin d'.window).1 = .ok ()

/-- If the same samples are left to wait, the start makes them alike. -/
theorem SameStart.alike (h : d.SameStart d') (htimer : d.timer.Alike d'.timer) :
    d.poll.Alike d'.poll := by
  have hbeside := h.beside
  obtain ⟨header, hread, -⟩ := Player.begin_eq_ok (Prod.ext h.begins.1 rfl :
    d.player.begin d.window = (.ok (), (d.player.begin d.window).2))
  have hflush : d'.flushDirect.chip = d.flushDirect.chip ∧
      d'.flushDirect.direct = d.flushDirect.direct := by
    unfold flushDirect
    rw [hbeside.chip, hbeside.direct]
    exact ⟨rfl, rfl⟩
  have hstart := poll_starting h.upload h.pending h.outbox.1 h.held.1 hread
  have hstart' := poll_starting (hbeside.session ▸ h.upload) (hbeside.session ▸ h.pending)
    h.outbox.2 h.held.2 (hbeside.window ▸ hread)
  rw [hbeside.begun, hbeside.samples, hbeside.session, hflush.1, hflush.2] at hstart'
  refine ⟨d'.timer, d'.poll.stats, d'.poll.lastUploadError, ?_, ?_⟩
  · rw [hstart]
    exact htimer
  · rw [hstart, hstart', hbeside.config, hbeside.endpoint, hbeside.window, hbeside.voices,
      hbeside.midi, hbeside.pcmMuted]

/-- A new playback does not depend on the one that it replaces, but for the countdown that this
left. Let the same start be waiting on two devices that agree on everything but what they play, and
let the same samples be left to wait. Then, whatever happens to both from then on, as long as time
passes by the count that is left, they are the same but for how their timers came to that count and
what they have counted and refused. In particular they have made the same writes to the chip, have
the same messages for the host, are at the same place in the stream and have stored the same
bytes. -/
theorem playback_replaced (hsame : d.SameStart d') (htimer : d.timer.Alike d'.timer)
    {events : List Event} (hcount : ∀ e ∈ events, e.CountsAlike) :
    let g := d.poll.run events
    let g' := d'.poll.run events
    (g'.chip.writes = g.chip.writes ∧ g'.chip = g.chip ∧ g'.direct = g.direct) ∧
    (g'.endpoint = g.endpoint ∧ g'.outbox = g.outbox ∧ g'.session = g.session) ∧
    (g'.player = g.player ∧ g'.active = g.active ∧ g'.lastError = g.lastError) ∧
    (g'.window = g.window ∧ g'.samples = g.samples) ∧
    (g'.voices = g.voices ∧ g'.midi = g.midi ∧ g'.pcmMuted = g.pcmMuted ∧ g'.config = g.config) ∧
    g.timer.Alike g'.timer := by
  intro g g'
  obtain ⟨timer, stats, lastUploadError, halike, heq⟩ := (hsame.alike htimer).run hcount
  replace heq : g' = { g with timer, stats, lastUploadError } := heq
  rw [heq]
  exact ⟨⟨rfl, rfl, rfl⟩, ⟨rfl, rfl, rfl⟩, ⟨rfl, rfl, rfl⟩, ⟨rfl, rfl⟩, ⟨rfl, rfl, rfl, rfl⟩,
    halike⟩

/-- Time that counts down changes timers that are alike alike. -/
theorem Event.countsAlike_advance (samples : UInt32) :
    (Event.time (·.advance samples)).CountsAlike :=
  fun _ _ h => h.advance samples

/-- A device with a stream in its window, on which a start is waiting. -/
def restingDevice : Device :=
  { Link.frameDevice with
    session := { startPending := true }, timer := { manual := true, remaining := Opcode.frame60 } }

/-- The same device in the middle of a playback. -/
def playingDevice : Device :=
  { restingDevice with
    player := framePlayer.past, active := true
    timer := Timer.arm { manual := true } Opcode.frame60 }

/-- The playback is started on both, a frame goes by, and both are polled. -/
theorem playback_replaced_frame :
    let events : List Event := [.poll, .time (·.advance Opcode.frame60), .poll]
    (playingDevice.poll.run events).player = (restingDevice.poll.run events).player ∧
      (playingDevice.poll.run events).chip.writes =
        (restingDevice.poll.run events).chip.writes := by
  intro events
  have hbegin : restingDevice.player.begin restingDevice.window = (.ok (), framePlayer) :=
    begin_frameStream byte_frameWindow
  obtain ⟨header, hread, -⟩ := Player.begin_eq_ok hbegin
  have hbegin' := Player.begin_of_readHeader hread playingDevice.player
  have hbeside : restingDevice.SameBesidePlayback playingDevice := by constructor <;> rfl
  have hnone : restingDevice.updatesNext = false ∧ playingDevice.updatesNext = false := by
    rw [updatesNext, updatesNext, ingested_of_no_upload rfl, ingested_of_no_upload rfl]
    exact ⟨rfl, rfl⟩
  have hcount : ∀ e ∈ events, e.CountsAlike := by
    intro e he
    rcases List.mem_cons.mp he with rfl | he
    · trivial
    · rcases List.mem_cons.mp he with rfl | he
      · exact Event.countsAlike_advance _
      · rw [List.mem_singleton.mp he]
        trivial
  have hsame : restingDevice.SameStart playingDevice :=
    ⟨hbeside, ⟨rfl, rfl⟩, rfl, rfl, hnone, congrArg Prod.fst hbegin, congrArg Prod.fst hbegin'⟩
  obtain ⟨⟨hwrites, -, -⟩, -, ⟨hplayer, -, -⟩, -⟩ := playback_replaced hsame ⟨rfl, rfl⟩ hcount
  exact ⟨hplayer, hwrites⟩

end Device
end ChipReplay
